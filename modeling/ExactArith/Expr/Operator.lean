set_option autoImplicit false
set_option relaxedAutoImplicit false

/-!
# Operators

The four binary operators of arithmetic, their one-character text and their meaning on rational
numbers, and the failures of building and evaluating what they are applied in.

## Main definitions

* `ExactArith.ExprError`, `ExactArith.ExprError.message` — the causes of failure and their wording.
* `ExactArith.Operator` — the operators.
* `ExactArith.Operator.ofText` — the operator that a text names.
* `ExactArith.Operator.apply` — the result of an operator, which a zero divisor does not have.

## Main results

* `ExactArith.Operator.ofChar_symbol` — every operator is read back from its character.
-/

namespace ExactArith

/-! ## Failures -/

/-- Why an expression cannot be built from text, or has no value. -/
inductive ExprError where
  /-- A symbol is reached that the binding leaves open. -/
  | unboundSymbol (name : String)
  /-- A divisor has the value zero. -/
  | divisionByZero
  /-- A text is none of the four operators. -/
  | unsupportedOperator (text : String)
  /-- Replacing a symbol leads back to the same symbol. -/
  | cyclicBinding (name : String)
  /-- A text, ratio or word stands for no rational number. -/
  | invalidConstant (text : String)
  deriving DecidableEq

/-- The wording of a failure. -/
def ExprError.message : ExprError → String
  | .unboundSymbol name => "Unbound symbol: " ++ name
  | .divisionByZero => "Division by zero"
  | .unsupportedOperator text => "Unsupported operator: " ++ text
  | .cyclicBinding name => "Binding for symbol " ++ name ++ " refers back to itself"
  | .invalidConstant text => "Invalid constant: " ++ text

/-! ## Operators -/

/-- A binary arithmetic operator. -/
inductive Operator where
  | add
  | sub
  | mul
  | div
  deriving DecidableEq

namespace Operator

/-- Every operator, once. -/
def all : List Operator := [.add, .sub, .mul, .div]

/-- The character that stands for an operator. -/
def symbol : Operator → Char
  | .add => '+'
  | .sub => '-'
  | .mul => '*'
  | .div => '/'

/-- The text of an operator. -/
def text (op : Operator) : String := op.symbol.toString

/-- The operator that a character stands for. -/
def ofChar (c : Char) : Except ExprError Operator :=
  match all.find? (·.symbol == c) with
  | some op => .ok op
  | none => .error (.unsupportedOperator c.toString)

/-- The operator that a text of one character stands for. -/
def ofText (text : String) : Except ExprError Operator :=
  match text.toList with
  | [c] => ofChar c
  | _ => .error (.unsupportedOperator text)

/-- Applies an operator to two rational numbers. -/
def apply (op : Operator) (left right : Rat) : Except ExprError Rat :=
  match op with
  | .add => .ok (left + right)
  | .sub => .ok (left - right)
  | .mul => .ok (left * right)
  | .div => if right = 0 then .error .divisionByZero else .ok (left / right)

/-- Reading the character of an operator gives the operator. -/
theorem ofChar_symbol (op : Operator) : ofChar op.symbol = .ok op := by
  cases op <;> rfl

end Operator

end ExactArith
