import ExactArith.Linear.Constraint
import ExactArith.Solver.Model
import ExactArith.Tableau.DeltaRat

set_option autoImplicit false
set_option relaxedAutoImplicit false

/-!
# Simplex tableaux

A tableau holds a set of linear constraints in the form that the simplex search works on. Its
variables are numbered in the order of their creation. A *problem variable* stands for a named
variable and has no bounds. A *slack* stands for a linear form over problem variables, and asserting
a constraint bounds the slack of its form. Constraints whose forms have the same coefficients share
a slack, so contradictions between them show at once.

The *rows* define some of the variables, the *basic* ones, as linear combinations of the others. At
first these are the slacks by their forms; later the search exchanges basic variables for others.
When all variables are within their bounds, a concrete `δ` turns their values into rational numbers.
It has to be small enough that no variable leaves a bound.

## Main definitions

* `ExactArith.Tableau` — the tableaux.
* `ExactArith.Tableau.assert` — adds a constraint and tells its slack.
* `ExactArith.Tableau.isConflicting` — whether the two bounds of a variable exclude each other.
* `ExactArith.Tableau.concreteDelta` — a `δ` that is small enough.
* `ExactArith.Tableau.model` — the values of the problem variables.
-/

namespace ExactArith

/-- A simplex tableau. -/
structure Tableau where
  /-- The number of variables; they are `0, …, size - 1`. -/
  size : Nat
  /-- The problem variables by name. -/
  numbers : Std.ExtTreeMap String Nat compare
  /-- The slacks, each with the combination of problem variables that it stands for. -/
  slacks : List (LinComb Nat × Nat)
  /-- The definitions of the basic variables. -/
  rows : Std.ExtTreeMap Nat (LinComb Nat) compare
  /-- The lower bounds of the variables that have one. -/
  lower : Std.ExtTreeMap Nat DeltaRat compare
  /-- The upper bounds of the variables that have one. -/
  upper : Std.ExtTreeMap Nat DeltaRat compare
  /-- The current values of the variables; zero is not stored at first. -/
  values : Std.ExtTreeMap Nat DeltaRat compare

namespace Tableau

/-- The tableau without variables. -/
def empty : Tableau := ⟨0, ∅, [], ∅, ∅, ∅, ∅⟩

instance : EmptyCollection Tableau := ⟨empty⟩

/-- The current value of a variable. -/
def value (t : Tableau) (k : Nat) : DeltaRat := t.values.getD k 0

/-- The value of a combination of variables, part by part. -/
def rowValue (t : Tableau) (row : LinComb Nat) : DeltaRat :=
  ⟨row.value fun k => (t.value k).real, row.value fun k => (t.value k).delta⟩

/-! ## Variables -/

/-- The problem variable of a name, created now if the name is new. -/
def number (t : Tableau) (name : String) : Nat × Tableau :=
  match t.numbers[name]? with
  | some k => (k, t)
  | none => (t.size, { t with size := t.size + 1, numbers := t.numbers.insert name t.size })

/-- A combination of named variables as one of problem variables. New variables are created in the
order of their names. -/
def combination (t : Tableau) (coefficients : LinComb String) : LinComb Nat × Tableau :=
  coefficients.toList.foldl
    (fun (row, t) (name, a) =>
      let (k, t) := t.number name
      (row.set k a, t))
    (∅, t)

/-- The slack of a combination of problem variables, created now if there is none. A new slack is
basic, and its value is that of the combination. -/
def slack (t : Tableau) (row : LinComb Nat) : Nat × Tableau :=
  match t.slacks.lookup row with
  | some k => (k, t)
  | none =>
    (t.size,
      { t with
        size := t.size + 1
        slacks := (row, t.size) :: t.slacks
        rows := t.rows.insert t.size row
        values := t.values.insert t.size (t.rowValue row) })

/-! ## Bounds -/

/-- Raises the lower bound of a variable to `bound`, unless it is as high already. -/
def tightenLower (t : Tableau) (k : Nat) (bound : DeltaRat) : Tableau :=
  if (t.lower[k]?).all (· < bound) then { t with lower := t.lower.insert k bound } else t

/-- Brings the upper bound of a variable down to `bound`, unless it is as low already. -/
def tightenUpper (t : Tableau) (k : Nat) (bound : DeltaRat) : Tableau :=
  if (t.upper[k]?).all (bound < ·) then { t with upper := t.upper.insert k bound } else t

/-- Bounds a variable by a number in the way of a comparison. -/
def bound (t : Tableau) (k : Nat) (relation : Relation) (b : Rat) : Tableau :=
  match relation with
  | .eq => (t.tightenLower k ⟨b, 0⟩).tightenUpper k ⟨b, 0⟩
  | .le => t.tightenUpper k ⟨b, 0⟩
  | .lt => t.tightenUpper k ⟨b, -1⟩
  | .ge => t.tightenLower k ⟨b, 0⟩
  | .gt => t.tightenLower k ⟨b, 1⟩

/-- Whether the bounds of a variable leave no value. -/
def isConflicting (t : Tableau) (k : Nat) : Bool :=
  match t.lower[k]?, t.upper[k]? with
  | some lower, some upper => upper < lower
  | _, _ => false

/-- Adds the constraint that `form` compares with zero as `relation` says, and gives the slack that
it bounds. The form should not be constant. -/
def assert (t : Tableau) (form : LinearForm) (relation : Relation) : Nat × Tableau :=
  let (row, t) := t.combination form.coefficients
  let (k, t) := t.slack row
  (k, t.bound k relation (-form.constant))

end Tableau

/-! ## Concrete solutions -/

/-- The largest `δ` for which `a` stays at most `b`, where a large `δ` would put it above. -/
def DeltaRat.crossing? (a b : DeltaRat) : Option Rat :=
  if a.real < b.real ∧ b.delta < a.delta then
    some ((b.real - a.real) / (a.delta - b.delta))
  else
    none

namespace Tableau

/-- The limits that the bounds of a variable put on `δ`. -/
def deltaLimits (t : Tableau) (k : Nat) : List Rat :=
  ((t.lower[k]?).bind fun lower => lower.crossing? (t.value k)).toList ++
    ((t.upper[k]?).bind fun upper => (t.value k).crossing? upper).toList

/-- The smallest limit on `δ`, or one if that is smaller. -/
def concreteDelta (t : Tableau) : Rat :=
  ((List.range t.size).flatMap t.deltaLimits).foldl
    (fun least limit => if limit < least then limit else least) 1

/-- The values of the problem variables at the concrete `δ`. -/
def model (t : Tableau) : Model :=
  let δ := t.concreteDelta
  ⟨t.numbers.map fun _ k => (t.value k).evalAt δ⟩

end Tableau

end ExactArith
