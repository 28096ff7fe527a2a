import ExactArith.Linear.Combination
import ExactArith.Solver.Error

set_option autoImplicit false
set_option relaxedAutoImplicit false

/-!
# Linear forms

A linear form `Σ aᵢ · xᵢ + c` is what a term says about its variables when it is linear. Forms are
added, subtracted and scaled; a term has a form when each product in it has a constant factor and
each divisor in it is a non-zero constant. Constancy is decided on the forms, after cancellation:
`(x - x) * y` has a form.

## Main definitions

* `ExactArith.LinearForm` — the forms, with `plus`, `minus` and `scaled`.
* `ExactArith.LinearForm.combine` — the form of a node from the forms of its operands.
* `ExactArith.LinearForm.ofTerm` — the form of a term, if it is linear.
* `ExactArith.LinearForm.value` — the value of a form at an assignment.
-/

namespace ExactArith

/-- A linear form over named variables. -/
structure LinearForm where
  /-- The coefficients of the variables. -/
  coefficients : LinComb String
  /-- The constant part. -/
  constant : Rat
  deriving DecidableEq

namespace LinearForm

/-- The form that is a number. -/
def ofConstant (value : Rat) : LinearForm := ⟨∅, value⟩

/-- The form that is a variable. -/
def ofVariable (name : String) : LinearForm := ⟨.single name, 0⟩

/-- Whether no variable has a coefficient. -/
def isConstant (f : LinearForm) : Bool := f.coefficients.isEmpty

/-- The sum of two forms. -/
def plus (f g : LinearForm) : LinearForm :=
  ⟨f.coefficients.addScaled 1 g.coefficients, f.constant + g.constant⟩

/-- A form times a number. The product with zero stores no coefficient. -/
def scaled (f : LinearForm) (factor : Rat) : LinearForm :=
  if factor = 0 then ofConstant 0 else ⟨f.coefficients.scale factor, f.constant * factor⟩

/-- The difference of two forms. -/
def minus (f g : LinearForm) : LinearForm := f.plus (g.scaled (-1))

/-- The value of a form at an assignment. -/
def value (f : LinearForm) (assignment : String → Rat) : Rat :=
  f.coefficients.value assignment + f.constant

/-- The form of the term `node`, which applies its operator to terms of the forms `left` and
`right`. A failure shows the node, or its divisor. -/
def combine (left : LinearForm) (node : Term) (right : LinearForm) :
    Except SolverError LinearForm :=
  match node with
  | .var _ | .lit _ => .error (.leafOperation node)
  | .node .add _ _ => .ok (left.plus right)
  | .node .sub _ _ => .ok (left.minus right)
  | .node .mul _ _ =>
    if left.isConstant then .ok (right.scaled left.constant)
    else if right.isConstant then .ok (left.scaled right.constant)
    else .error (.unsupported (.nonlinearProduct node))
  | .node .div _ divisor =>
    if !right.isConstant then .error (.unsupported (.nonConstantDivisor divisor))
    else if right.constant = 0 then .error (.unsupported (.zeroDivisor node))
    else .ok (left.scaled right.constant⁻¹)

/-- The form of a term. The failure is that of the first node, operands before their operation and
left before right, that has none. -/
def ofTerm : Term → Except SolverError LinearForm
  | .var name => .ok (ofVariable name)
  | .lit value => .ok (ofConstant value)
  | .node op left right =>
    match ofTerm left with
    | .error error => .error error
    | .ok f =>
      match ofTerm right with
      | .error error => .error error
      | .ok g => f.combine (.node op left right) g

end LinearForm

/-- A term together with its form, kept so that a larger term needs no second look at it. -/
structure LinearTerm where
  /-- The term as it was built. -/
  term : Term
  /-- Its linear form. -/
  form : LinearForm
  deriving DecidableEq

namespace LinearTerm

/-- A variable. -/
def var (name : String) : LinearTerm := ⟨.var name, .ofVariable name⟩

/-- A number. -/
def lit (value : Rat) : LinearTerm := ⟨.lit value, .ofConstant value⟩

/-- An operation on two linear terms, unless it leaves linear arithmetic. -/
def node (op : Operator) (left right : LinearTerm) : Except SolverError LinearTerm :=
  let term := Term.node op left.term right.term
  (left.form.combine term right.form).map (LinearTerm.mk term)

end LinearTerm

end ExactArith
