import Std.Data.ExtTreeSet

set_option autoImplicit false
set_option relaxedAutoImplicit false

/-!
# Walking trees with a list of pending subtrees

Measures of deep trees that need no recursion on the tree. A walk keeps the subtrees that are still
to be visited in a list, each with its *level*, the number of nodes on the path to it from the
root. It visits the first of them and puts its operands in front of the others.

## Main definitions

* `ExactArith.BinaryTree` — the trees that can be walked.
* `ExactArith.BinaryTree.walk` — the walk, which folds a function over the visited nodes.
* `ExactArith.BinaryTree.names`, `depth`, `size`, `isGround` — what walks compute.
-/

namespace ExactArith

/-- A set of names. Names are ordered by their characters' code points. -/
abbrev Names : Type := Std.ExtTreeSet String compare

/-- A type of trees in which a node has two operands or none, and a leaf may carry a name. -/
class BinaryTree (τ : Type) [SizeOf τ] where
  /-- The left and the right operand of an inner node. -/
  operands : τ → Option (τ × τ)
  /-- The name of a leaf that has one. -/
  name? : τ → Option String
  /-- Operands are proper subtrees. -/
  sizeOf_operands : ∀ {t l r : τ}, operands t = some (l, r) →
    sizeOf l + sizeOf r + 1 < sizeOf t

namespace BinaryTree

variable {τ : Type} [SizeOf τ] [BinaryTree τ] {α : Type}

/-- What a walk still has to do: it falls with every visit. -/
def pendingWork : List (τ × Nat) → Nat
  | [] => 0
  | (t, _) :: rest => sizeOf t + 1 + pendingWork rest

/-- Visits the pending trees and all their subtrees, each node before its operands and the left
operand before the right one. -/
def walk (visit : α → τ → Nat → α) (found : α) : List (τ × Nat) → α
  | [] => found
  | (t, level) :: rest =>
    match h : operands t with
    | none => walk visit (visit found t level) rest
    | some (l, r) => walk visit (visit found t level) ((l, level + 1) :: (r, level + 1) :: rest)
termination_by pending => pendingWork pending
decreasing_by
  · simp [pendingWork]
  · have := sizeOf_operands h
    simp only [pendingWork]
    omega

/-- The names that leaves of a tree carry. -/
def names (t : τ) : Names :=
  walk (fun found t _ => match name? t with
    | some name => found.insert name
    | none => found) ∅ [(t, 1)]

/-- Whether no leaf of a tree carries a name. -/
def isGround (t : τ) : Bool := (names t).isEmpty

/-- The number of nodes on a longest path from the root to a leaf. -/
def depth (t : τ) : Nat := walk (fun deepest _ level => max deepest level) 0 [(t, 1)]

/-- The number of nodes. -/
def size (t : τ) : Nat := walk (fun count _ _ => count + 1) 0 [(t, 1)]

end BinaryTree

end ExactArith
