import ExactArith.Linear.Form

set_option autoImplicit false
set_option relaxedAutoImplicit false

/-!
# Constraints

A constraint compares two terms in one of five ways. It is decided by the linear form of their
difference, which it compares with zero.

## Main definitions

* `ExactArith.Relation` — the five comparisons of a constraint.
* `ExactArith.Relation.holds` — whether two rational numbers compare in that way.
* `ExactArith.Constraint` — a comparison of two terms.
* `ExactArith.Constraint.form` — the form that the comparison compares with zero.
* `ExactArith.Constraint.HoldsAt` — what it means that an assignment satisfies a constraint.
-/

namespace ExactArith

/-! ## Comparisons -/

/-- A comparison of two numbers. -/
inductive Relation where
  | eq
  | le
  | lt
  | ge
  | gt
  deriving DecidableEq

namespace Relation

/-- Every comparison, once. -/
def all : List Relation := [.eq, .le, .lt, .ge, .gt]

/-- The text of a comparison. -/
def text : Relation → String
  | .eq => "="
  | .le => "<="
  | .lt => "<"
  | .ge => ">="
  | .gt => ">"

/-- The comparison with a given text. -/
def ofText? (text : String) : Option Relation := all.find? (·.text == text)

/-- Whether two numbers compare in the given way. -/
def holds (relation : Relation) (left right : Rat) : Bool :=
  match relation with
  | .eq => left == right
  | .le => left ≤ right
  | .lt => left < right
  | .ge => right ≤ left
  | .gt => right < left

end Relation

/-! ## Constraints -/

/-- A comparison of two terms. -/
structure Constraint where
  /-- The left side. -/
  left : Term
  /-- How the sides compare. -/
  relation : Relation
  /-- The right side. -/
  right : Term
  deriving DecidableEq

namespace Constraint

/-- The text of a constraint. -/
def render (c : Constraint) : String :=
  c.left.render ++ " " ++ c.relation.text ++ " " ++ c.right.render

/-- The variables of both sides. -/
def vars (c : Constraint) : Names := c.left.vars ∪ c.right.vars

/-- The left side minus the right side, as a linear form. -/
def form (c : Constraint) : Except SolverError LinearForm :=
  match LinearForm.ofTerm c.left with
  | .error error => .error error
  | .ok f =>
    match LinearForm.ofTerm c.right with
    | .error error => .error error
    | .ok g => .ok (f.minus g)

/-- Both sides have a value at the assignment, and the values compare as the constraint says. -/
def HoldsAt (c : Constraint) (assignment : String → Rat) : Prop :=
  ∃ x y, c.left.value assignment = .ok x ∧ c.right.value assignment = .ok y ∧
    c.relation.holds x y

end Constraint

end ExactArith
