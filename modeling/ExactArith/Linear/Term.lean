import ExactArith.Expr.Basic

set_option autoImplicit false
set_option relaxedAutoImplicit false

/-!
# Terms of the constraint solver

A solver has a term language of its own: variables that range over the rational numbers, literals
and the four operations. A term keeps the operator tree from which it was built; nothing says that
it is linear.

## Main definitions

* `ExactArith.Term` — the terms, with their text and measures.
* `ExactArith.Term.value` — the value of a term at an assignment.
* `ExactArith.Expr.toTerm` — an expression, copied node for node.
-/

namespace ExactArith

/-- A real-valued term. -/
inductive Term where
  /-- A variable. -/
  | var (name : String)
  /-- A rational number. -/
  | lit (value : Rat)
  /-- An operation on two terms. -/
  | node (op : Operator) (left right : Term)
  deriving DecidableEq

namespace Term

instance : Inhabited Term := ⟨.lit 0⟩

/-- The text of a term, each operation in its own parentheses. -/
def render : Term → String
  | .var name => name
  | .lit value => Numeral.write value
  | .node op left right => "(" ++ left.render ++ " " ++ op.text ++ " " ++ right.render ++ ")"

instance : BinaryTree Term where
  operands
    | .node _ left right => some (left, right)
    | _ => none
  name?
    | .var name => some name
    | _ => none
  sizeOf_operands := by
    intro t l r h
    cases t with
    | node op left right =>
      obtain ⟨rfl, rfl⟩ : left = l ∧ right = r := by simpa using h
      have : 0 < sizeOf op := by cases op <;> decide
      simp only [Term.node.sizeOf_spec]
      omega
    | _ => simp at h

/-- The variables that occur in a term. -/
def vars (t : Term) : Names := BinaryTree.names t

/-- The number of nodes on a longest path from the root to a leaf. -/
def depth (t : Term) : Nat := BinaryTree.depth t

/-- The number of nodes of a term. -/
def size (t : Term) : Nat := BinaryTree.size t

/-- Whether a term has no variable. -/
def isGround (t : Term) : Bool := BinaryTree.isGround t

/-- The value of a term when each variable has the value that the assignment gives it; a term with
a divisor of value zero has none. -/
def value (assignment : String → Rat) : Term → Except ExprError Rat
  | .var name => .ok (assignment name)
  | .lit value => .ok value
  | .node op left right => do
    let x ← left.value assignment
    let y ← right.value assignment
    op.apply x y

end Term

/-- The term with the same leaves and operations as an expression. -/
def Expr.toTerm : Expr → Term
  | .symbol name => .var name
  | .constant value => .lit value
  | .node left op right => .node op left.toTerm right.toTerm

end ExactArith
