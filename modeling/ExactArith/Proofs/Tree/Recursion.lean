import ExactArith.Proofs.Tree.Worklist
import Mathlib.Data.String.Basic
import Mathlib.Logic.Function.Iterate

set_option autoImplicit false
set_option relaxedAutoImplicit false

/-!
# Walks and recursions

A walk with a list of pending subtrees finds what a recursion on the tree computes. What it does
with the first pending tree does not depend on the others, so the pending trees are walked one after
the other, and a measure of a node comes from the measures of its operands. The list is empty after
as many visits as the tree has nodes.

## Main definitions

* `ExactArith.BinaryTree.visitNext` — one turn of the loop that makes up a walk.
* `ExactArith.BinaryTree.Follows` — a function on trees follows a recursion.
* `ExactArith.Expr.fold`, `ExactArith.Term.fold` — recursion on the two types of trees.

## Main results

* `ExactArith.BinaryTree.walk_append` — pending trees are walked one after the other.
* `ExactArith.BinaryTree.iterate_visitNext` — a tree is done after a turn for each of its nodes.
* `ExactArith.BinaryTree.Follows.unique` — at most one function follows a recursion.
* `ExactArith.BinaryTree.walks_eq_recursions` — walks of expressions and of terms end, and find what
  the recursions compute.
-/

namespace ExactArith

namespace BinaryTree

variable {τ : Type} [SizeOf τ] [BinaryTree τ] {α : Type}

/-- What holds of the trees without operands, and of a tree if it does of its operands, holds of all
trees. -/
lemma induction {p : τ → Prop} (leaf : ∀ t, operands t = none → p t)
    (node : ∀ t l r, operands t = some (l, r) → p l → p r → p t) (t : τ) : p t := by
  induction hn : sizeOf t using Nat.strong_induction_on generalizing t with
  | _ n ih =>
    cases h : operands t with
    | none => exact leaf t h
    | some lr =>
      obtain ⟨l, r⟩ := lr
      have hsize := sizeOf_operands h
      exact node t l r h (ih _ (by omega) l rfl) (ih _ (by omega) r rfl)

/-! ## The list of pending trees -/

section Pending

variable {visit : α → τ → ℕ → α}

/-- **Pending trees are walked one after the other**: the walk of the later ones starts from what
the walk of the first ones has found.

**Proof sketch.** Induction along the walk of the first trees. The operands of a visited node stand
in front of all other trees, so the later ones stay at the end of the list. -/
lemma walk_append (found : α) (first rest : List (τ × ℕ)) :
    walk visit found (first ++ rest) = walk visit (walk visit found first) rest := by
  fun_induction walk visit found first with
  | case1 found => rw [List.nil_append]
  | case2 found t level first h ih => rw [List.cons_append, walk_of_leaf h, ih]
  | case3 found t level first l r h ih =>
    rw [List.cons_append, walk_of_node h, ← List.cons_append, ← List.cons_append, ih]

lemma walk_singleton_of_leaf {t : τ} (h : operands t = none) (found : α) (level : ℕ) :
    walk visit found [(t, level)] = visit found t level := by
  rw [walk_of_leaf h, walk]

/-- A walk of a node visits the node, then all of the left operand, then all of the right one. -/
lemma walk_singleton_of_node {t l r : τ} (h : operands t = some (l, r)) (found : α) (level : ℕ) :
    walk visit found [(t, level)] =
      walk visit (walk visit (visit found t level) [(l, level + 1)]) [(r, level + 1)] := by
  rw [walk_of_node h, ← walk_append, List.singleton_append]

/-- One turn of the loop: the first pending tree is visited, and its operands take its place. -/
def visitNext (visit : α → τ → ℕ → α) : α × List (τ × ℕ) → α × List (τ × ℕ)
  | (found, []) => (found, [])
  | (found, (t, level) :: rest) =>
    match operands t with
    | none => (visit found t level, rest)
    | some (l, r) => (visit found t level, (l, level + 1) :: (r, level + 1) :: rest)

lemma visitNext_of_leaf {t : τ} (h : operands t = none) (found : α) (level : ℕ)
    (rest : List (τ × ℕ)) :
    visitNext visit (found, (t, level) :: rest) = (visit found t level, rest) := by
  rw [visitNext, h]

lemma visitNext_of_node {t l r : τ} (h : operands t = some (l, r)) (found : α) (level : ℕ)
    (rest : List (τ × ℕ)) : visitNext visit (found, (t, level) :: rest) =
      (visit found t level, (l, level + 1) :: (r, level + 1) :: rest) := by
  rw [visitNext, h]

end Pending

/-! ## Recursions -/

/-- A function on trees follows a recursion: at a leaf it takes the value `leaf` for the name that
the leaf may carry, and at a node it combines its values at the operands by `node`. -/
structure Follows (leaf : Option String → α) (node : α → α → α) (f : τ → α) : Prop where
  of_leaf : ∀ t, operands t = none → f t = leaf (name? t)
  of_node : ∀ t l r, operands t = some (l, r) → f t = node (f l) (f r)

/-- **At most one function follows a recursion.** -/
lemma Follows.unique {leaf : Option String → α} {node : α → α → α} {f g : τ → α}
    (hf : Follows leaf node f) (hg : Follows leaf node g) (t : τ) : f t = g t := by
  induction t using induction with
  | leaf t h => rw [hf.of_leaf t h, hg.of_leaf t h]
  | node t l r h ihl ihr => rw [hf.of_node t l r h, hg.of_node t l r h, ihl, ihr]

/-- A walk that counts adds the size of a tree to the count. -/
lemma walk_count (t : τ) : ∀ count level,
    walk (fun count _ _ => count + 1) count [(t, level)] = count + size t := by
  induction t using induction with
  | leaf t h =>
    intro count level
    rw [size, walk_singleton_of_leaf h, walk_singleton_of_leaf h, zero_add]
  | node t l r h ihl ihr =>
    intro count level
    rw [size, walk_singleton_of_node h, walk_singleton_of_node h, ihl, ihr, ihl, ihr]
    omega

/-- A walk that looks for the deepest level finds the depth of a tree below the level of its root,
unless it has found a deeper level before. -/
lemma walk_deepest (t : τ) : ∀ deepest level,
    walk (fun deepest _ level => max deepest level) deepest [(t, level + 1)] =
      max deepest (level + depth t) := by
  induction t using induction with
  | leaf t h =>
    intro deepest level
    rw [depth, walk_singleton_of_leaf h, walk_singleton_of_leaf h, Nat.zero_max]
  | node t l r h ihl ihr =>
    intro deepest level
    rw [depth, walk_singleton_of_node h, walk_singleton_of_node h, ihl, ihr, ihl, ihr]
    omega

/-- **The size follows its recursion**: one more than the sizes of the operands. -/
lemma follows_size : Follows (fun _ => 1) (fun l r => 1 + l + r) (size : τ → ℕ) where
  of_leaf t h := by rw [size, walk_singleton_of_leaf h]
  of_node t l r h := by rw [size, walk_singleton_of_node h, walk_count, walk_count, zero_add]

/-- **The depth follows its recursion**: one more than the greater depth of the operands. -/
lemma follows_depth : Follows (fun _ => 1) (fun l r => 1 + max l r) (depth : τ → ℕ) where
  of_leaf t h := by rw [depth, walk_singleton_of_leaf h, Nat.zero_max]
  of_node t l r h := by
    rw [depth, walk_singleton_of_node h, walk_deepest, walk_deepest]
    omega

/-- The names that a leaf has: its own, if it carries one. -/
def leafNames (name? : Option String) : Names := name?.elim ∅ fun name => {name}

lemma mem_leafNames {name : String} {name? : Option String} :
    name ∈ leafNames name? ↔ name? = some name := by
  cases name? with
  | none => simp [leafNames]
  | some other =>
    change name ∈ (∅ : Names).insert other ↔ _
    simp [Std.ExtTreeSet.mem_insert]

/-- **The names follow their recursion**, if no node carries a name itself: those of the left
operand together with those of the right one. -/
lemma follows_names (hname : ∀ t l r : τ, operands t = some (l, r) → name? t = none) :
    Follows leafNames (· ∪ ·) (names : τ → Names) where
  of_leaf t h := by
    refine Std.ExtTreeSet.ext_mem fun name => ?_
    rw [mem_names_iff, carries_iff_of_leaf h, mem_leafNames]
  of_node t l r h := by
    refine Std.ExtTreeSet.ext_mem fun name => ?_
    rw [mem_names_iff, carries_iff_of_node h, hname t l r h, Std.ExtTreeSet.mem_union_iff,
      mem_names_iff, mem_names_iff]
    simp

/-- **A tree is ground if its operands are**, and a leaf if it carries no name. -/
lemma follows_isGround (hname : ∀ t l r : τ, operands t = some (l, r) → name? t = none) :
    Follows Option.isNone (· && ·) (isGround : τ → Bool) where
  of_leaf t h := by
    rw [Bool.eq_iff_iff, isGround_iff]
    simp [mem_names_iff, carries_iff_of_leaf h, Option.eq_none_iff_forall_ne_some]
  of_node t l r h := by
    rw [Bool.eq_iff_iff, Bool.and_eq_true, isGround_iff, isGround_iff, isGround_iff]
    simp [mem_names_iff, carries_iff_of_node h, hname t l r h, forall_and]

/-- The names of a tree are listed in their order, each once. -/
lemma pairwise_toList_names (t : τ) : (names t).toList.Pairwise (· < ·) :=
  Std.ExtTreeSet.ordered_toList.imp compare_lt_iff_lt.1

/-- **A tree is done after a turn for each of its nodes**: what was found then is what a walk of
this tree alone finds, and the other pending trees are still to be visited.

**Proof sketch.** Induction on the tree. After its root come the turns of the left operand, then
those of the right one. -/
lemma iterate_visitNext (visit : α → τ → ℕ → α) (t : τ) : ∀ found level (rest : List (τ × ℕ)),
    (visitNext visit)^[size t] (found, (t, level) :: rest) =
      (walk visit found [(t, level)], rest) := by
  induction t using induction with
  | leaf t h =>
    intro found level rest
    rw [follows_size.of_leaf t h, Function.iterate_one, visitNext_of_leaf h,
      walk_singleton_of_leaf h]
  | node t l r h ihl ihr =>
    intro found level rest
    have hturns : size t = size r + (size l + 1) := by
      rw [follows_size.of_node t l r h]
      omega
    rw [hturns, Function.iterate_add_apply, Function.iterate_succ_apply, visitNext_of_node h, ihl,
      ihr, ← walk_singleton_of_node h]

end BinaryTree

/-! ## Expressions and terms -/

namespace Expr

/-- Recursion on an expression: what its leaves give, from their names if they are symbols, is
combined at the nodes. -/
def fold {α : Type} (leaf : Option String → α) (node : α → α → α) : Expr → α
  | .symbol name => leaf (some name)
  | .constant _ => leaf none
  | .node left _ right => node (left.fold leaf node) (right.fold leaf node)

/-- Only a node has operands, and it carries no name. -/
lemma eq_node_of_operands {e l r : Expr} (h : BinaryTree.operands e = some (l, r)) :
    ∃ op, e = .node l op r := by
  cases e with
  | symbol name => exact absurd h nofun
  | constant value => exact absurd h nofun
  | node left op right =>
    obtain ⟨rfl, rfl⟩ := Prod.mk.inj (Option.some.inj h)
    exact ⟨op, rfl⟩

lemma follows_fold {α : Type} (leaf : Option String → α) (node : α → α → α) :
    BinaryTree.Follows leaf node (fold leaf node) where
  of_leaf e h := by
    cases e with
    | symbol name => rfl
    | constant value => rfl
    | node left op right => exact absurd h nofun
  of_node e l r h := by
    obtain ⟨op, rfl⟩ := eq_node_of_operands h
    rfl

lemma name?_eq_none_of_operands (e l r : Expr) (h : BinaryTree.operands e = some (l, r)) :
    BinaryTree.name? e = none := by
  obtain ⟨op, rfl⟩ := eq_node_of_operands h
  rfl

end Expr

namespace Term

/-- Recursion on a term: what its leaves give, from their names if they are variables, is combined
at the nodes. -/
def fold {α : Type} (leaf : Option String → α) (node : α → α → α) : Term → α
  | .var name => leaf (some name)
  | .lit _ => leaf none
  | .node _ left right => node (left.fold leaf node) (right.fold leaf node)

/-- Only a node has operands, and it carries no name. -/
lemma eq_node_of_operands {t l r : Term} (h : BinaryTree.operands t = some (l, r)) :
    ∃ op, t = .node op l r := by
  cases t with
  | var name => exact absurd h nofun
  | lit value => exact absurd h nofun
  | node op left right =>
    obtain ⟨rfl, rfl⟩ := Prod.mk.inj (Option.some.inj h)
    exact ⟨op, rfl⟩

lemma follows_fold {α : Type} (leaf : Option String → α) (node : α → α → α) :
    BinaryTree.Follows leaf node (fold leaf node) where
  of_leaf t h := by
    cases t with
    | var name => rfl
    | lit value => rfl
    | node op left right => exact absurd h nofun
  of_node t l r h := by
    obtain ⟨op, rfl⟩ := eq_node_of_operands h
    rfl

lemma name?_eq_none_of_operands (t l r : Term) (h : BinaryTree.operands t = some (l, r)) :
    BinaryTree.name? t = none := by
  obtain ⟨op, rfl⟩ := eq_node_of_operands h
  rfl

end Term

namespace BinaryTree

/-- **Walks end and find what recursions compute**, for expressions and for terms alike. The names
are those of the leaves, in their order and each once; the depth of a node is one more than the
greater depth of its operands, and its size one more than their sizes; and a tree is ground if no
leaf carries a name. Whatever is collected, nothing is pending any more after as many turns of the
loop as the tree has nodes.

**Proof sketch.** The walks follow the recursions, since what is found in a node comes from walks of
its operands, one after the other. -/
theorem walks_eq_recursions :
    (∀ e : Expr, e.symbols = e.fold leafNames (· ∪ ·) ∧ e.symbols.toList.Pairwise (· < ·) ∧
      e.depth = e.fold (fun _ => 1) (fun l r => 1 + max l r) ∧
      e.size = e.fold (fun _ => 1) (fun l r => 1 + l + r) ∧
      e.isGround = e.fold Option.isNone (· && ·) ∧
      ∀ (α : Type) (visit : α → Expr → ℕ → α) (found : α),
        (visitNext visit)^[e.size] (found, [(e, 1)]) = (walk visit found [(e, 1)], [])) ∧
    ∀ t : Term, t.vars = t.fold leafNames (· ∪ ·) ∧ t.vars.toList.Pairwise (· < ·) ∧
      t.depth = t.fold (fun _ => 1) (fun l r => 1 + max l r) ∧
      t.size = t.fold (fun _ => 1) (fun l r => 1 + l + r) ∧
      t.isGround = t.fold Option.isNone (· && ·) ∧
      ∀ (α : Type) (visit : α → Term → ℕ → α) (found : α),
        (visitNext visit)^[t.size] (found, [(t, 1)]) = (walk visit found [(t, 1)], []) := by
  constructor
  · intro e
    have hnames := follows_names Expr.name?_eq_none_of_operands
    have hground := follows_isGround Expr.name?_eq_none_of_operands
    refine ⟨hnames.unique (Expr.follows_fold _ _) e, pairwise_toList_names e,
      follows_depth.unique (Expr.follows_fold _ _) e, follows_size.unique (Expr.follows_fold _ _) e,
      hground.unique (Expr.follows_fold _ _) e, fun α visit found => ?_⟩
    exact iterate_visitNext visit e found 1 []
  · intro t
    have hnames := follows_names Term.name?_eq_none_of_operands
    have hground := follows_isGround Term.name?_eq_none_of_operands
    refine ⟨hnames.unique (Term.follows_fold _ _) t, pairwise_toList_names t,
      follows_depth.unique (Term.follows_fold _ _) t, follows_size.unique (Term.follows_fold _ _) t,
      hground.unique (Term.follows_fold _ _) t, fun α visit found => ?_⟩
    exact iterate_visitNext visit t found 1 []

end BinaryTree

end ExactArith
