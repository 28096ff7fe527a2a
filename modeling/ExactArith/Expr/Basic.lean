import ExactArith.Expr.Operator
import ExactArith.Number.Numeral
import ExactArith.Tree.Worklist

set_option autoImplicit false
set_option relaxedAutoImplicit false

/-!
# Arithmetic expressions

Trees of the four operators over named symbols and rational constants. Building a tree computes
nothing: `1 + 1` is a node with two leaves.

## Main definitions

* `ExactArith.Expr` — the trees, with `+`, `-`, `*`, `/` and coercions from rationals.
* `ExactArith.Expr.render` — the fully parenthesized text of a tree.
* `ExactArith.Expr.symbols` — the symbols of an expression.
* `ExactArith.Expr.depth`, `ExactArith.Expr.size` — its height and its number of nodes.
* `ExactArith.Expr.isGround` — whether it has no symbol.
-/

namespace ExactArith

/-- An arithmetic expression. -/
inductive Expr where
  /-- A placeholder; equal names are the same placeholder. -/
  | symbol (name : String)
  /-- A fixed rational number. -/
  | constant (value : Rat)
  /-- An operator with its two operands. -/
  | node (left : Expr) (op : Operator) (right : Expr)
  deriving DecidableEq

namespace Expr

instance : Inhabited Expr := ⟨.constant 0⟩

instance : Coe Rat Expr := ⟨.constant⟩

instance (n : Nat) : OfNat Expr n := ⟨.constant n⟩

instance : Add Expr := ⟨fun left right => .node left .add right⟩

instance : Sub Expr := ⟨fun left right => .node left .sub right⟩

instance : Mul Expr := ⟨fun left right => .node left .mul right⟩

instance : Div Expr := ⟨fun left right => .node left .div right⟩

/-- Negation is subtraction from zero, so that every inner node has two operands. -/
instance : Neg Expr := ⟨fun e => 0 - e⟩

/-- The text of an expression. Every node has its own parentheses, so the text shows the tree. -/
def render : Expr → String
  | .symbol name => name
  | .constant value => Numeral.write value
  | .node left op right => "(" ++ left.render ++ " " ++ op.text ++ " " ++ right.render ++ ")"

/-! ## Measures -/

instance : BinaryTree Expr where
  operands
    | .node left _ right => some (left, right)
    | _ => none
  name?
    | .symbol name => some name
    | _ => none
  sizeOf_operands := by
    intro t l r h
    cases t with
    | node left op right =>
      obtain ⟨rfl, rfl⟩ : left = l ∧ right = r := by simpa using h
      have : 0 < sizeOf op := by cases op <;> decide
      simp only [Expr.node.sizeOf_spec]
      omega
    | _ => simp at h

/-- The symbols that occur in an expression. -/
def symbols (e : Expr) : Names := BinaryTree.names e

/-- The number of nodes on a longest path from the root to a leaf. -/
def depth (e : Expr) : Nat := BinaryTree.depth e

/-- The number of nodes of an expression. -/
def size (e : Expr) : Nat := BinaryTree.size e

/-- Whether an expression has no symbol, so that it needs no binding. -/
def isGround (e : Expr) : Bool := BinaryTree.isGround e

end Expr

end ExactArith
