import ExactArith.Tableau.Basic

set_option autoImplicit false
set_option relaxedAutoImplicit false

/-!
# The simplex search

The search mends one violated bound after the other. It takes the basic variable of the smallest
number that violates a bound and moves it to that bound; to make up for the move, the variable of
the smallest number in its row that can give way changes as well and becomes basic in its place.
Always taking the smallest numbers keeps the search from running in circles.

## Main definitions

* `ExactArith.Tableau.step` — what the search does next.
* `ExactArith.Tableau.run` — the search, within a budget of pivots.
-/

namespace ExactArith.Tableau

/-! ## Choosing -/

/-- A basic variable outside its bounds. -/
structure Violation where
  /-- The variable. -/
  basic : Nat
  /-- Its row. -/
  row : LinComb Nat
  /-- Whether it is too small. -/
  tooSmall : Bool
  /-- The bound that it violates. -/
  target : DeltaRat

/-- The bound that a variable violates, with `true` for a lower bound. -/
def violated? (t : Tableau) (k : Nat) : Option (Bool × DeltaRat) :=
  match (t.lower[k]?).filter (t.value k < ·) with
  | some bound => some (true, bound)
  | none => ((t.upper[k]?).filter (· < t.value k)).map (false, ·)

/-- The violation of the smallest basic variable that has one. -/
def violation? (t : Tableau) : Option Violation :=
  t.rows.toList.findSome? fun (k, row) =>
    (t.violated? k).map fun (tooSmall, target) => ⟨k, row, tooSmall, target⟩

/-- Whether a variable is below its upper bound. -/
def canIncrease (t : Tableau) (k : Nat) : Bool := (t.upper[k]?).all (t.value k < ·)

/-- Whether a variable is above its lower bound. -/
def canDecrease (t : Tableau) (k : Nat) : Bool := (t.lower[k]?).all (· < t.value k)

/-- Whether a variable of the row, with coefficient `a`, can move so that the violated variable
gets closer to its bound. -/
def canRepair (t : Tableau) (tooSmall : Bool) (k : Nat) (a : Rat) : Bool :=
  if decide (0 < a) = tooSmall then t.canIncrease k else t.canDecrease k

/-- The smallest variable of the violated row that can give way, with its coefficient. -/
def entering? (t : Tableau) (violation : Violation) : Option (Nat × Rat) :=
  violation.row.toList.find? fun (k, a) => t.canRepair violation.tooSmall k a

/-! ## Pivoting -/

/-- The row of `leaving` solved for `entering`, whose coefficient in it is `a`. -/
def solvedRow (row : LinComb Nat) (leaving entering : Nat) (a : Rat) : LinComb Nat :=
  ((row.erase entering).scale (-a⁻¹)).set leaving a⁻¹

/-- Replaces a variable in a row by its definition. -/
def substitute (row : LinComb Nat) (k : Nat) (definition : LinComb Nat) : LinComb Nat :=
  match row.coeffs[k]? with
  | some factor => (row.erase k).addScaled factor definition
  | none => row

/-- The values after a change of the non-basic variable `entering` by `change`, which brings the
basic variable `leaving` to `target`. The other basic variables follow by their rows. -/
def movedValues (t : Tableau) (leaving entering : Nat) (target change : DeltaRat) :
    Std.ExtTreeMap Nat DeltaRat compare :=
  t.rows.foldl
    (fun values k row =>
      if k = leaving then values
      else
        match row.coeffs[entering]? with
        | some factor => values.insert k (t.value k + factor * change)
        | none => values)
    ((t.values.insert leaving target).insert entering (t.value entering + change))

/-- Moves the violated variable to its bound by changing the variable `entering`, whose coefficient
in the row is `a`, and makes that variable basic in its place. -/
def pivot (t : Tableau) (violation : Violation) (entering : Nat) (a : Rat) : Tableau :=
  let leaving := violation.basic
  let definition := solvedRow violation.row leaving entering a
  let change := a⁻¹ * (violation.target - t.value leaving)
  { t with
    values := t.movedValues leaving entering violation.target change
    rows := ((t.rows.erase leaving).map fun _ row => substitute row entering definition).insert
      entering definition }

/-! ## Searching -/

/-- What the search does next. -/
inductive Step where
  /-- Nothing: every variable is within its bounds. -/
  | feasible
  /-- Nothing: the row of this basic variable shows that the bounds cannot be met. -/
  | noRepair (basic : Nat)
  /-- It makes `entering` basic in place of `leaving`. -/
  | pivot (leaving entering : Nat) (next : Tableau)

/-- The next step of the search. -/
def step (t : Tableau) : Step :=
  match t.violation? with
  | none => .feasible
  | some violation =>
    match t.entering? violation with
    | none => .noRepair violation.basic
    | some (entering, a) => .pivot violation.basic entering (t.pivot violation entering a)

/-- How a search ends. -/
inductive Ending where
  /-- All bounds are met. -/
  | feasible
  /-- The row of a basic variable admits no repair. -/
  | noRepair (basic : Nat)
  /-- Another pivot is needed, but the budget is used up. -/
  | exhausted
  deriving DecidableEq

/-- A search that has ended. -/
structure Run where
  /-- The pivots in their order, the leaving variable before the entering one. -/
  pivots : List (Nat × Nat)
  /-- How the search ended. -/
  ending : Ending
  /-- The last tableau. -/
  final : Tableau

/-- Searches with at most `budget` pivots. -/
def run (budget : Nat) (t : Tableau) : Run :=
  match t.step with
  | .feasible => ⟨[], .feasible, t⟩
  | .noRepair basic => ⟨[], .noRepair basic, t⟩
  | .pivot leaving entering next =>
    match budget with
    | 0 => ⟨[], .exhausted, t⟩
    | budget + 1 =>
      let rest := run budget next
      { rest with pivots := (leaving, entering) :: rest.pivots }

end ExactArith.Tableau
