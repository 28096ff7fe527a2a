import ExactArith.Linear.Constraint
import Mathlib.Data.List.Basic
import Mathlib.Data.Rat.Init

set_option autoImplicit false
set_option relaxedAutoImplicit false

/-!
# What a walk finds

A walk visits every subtree of the pending trees, so the names that it collects are those that occur
somewhere in a pending tree: the names of a leaf, and for a node those of its operands. Of a tree it
sees nothing but the nodes, their levels and their names, so it finds the same in a copy of the
tree.

## Main definitions

* `ExactArith.BinaryTree.Carries` — some leaf of a tree carries a name.
* `ExactArith.BinaryTree.Copies` — a map copies trees node for node.

## Main results

* `ExactArith.BinaryTree.mem_names_iff` — a walk collects the names that occur in the tree.
* `ExactArith.BinaryTree.isGround_iff` — a tree is ground if no name occurs in it.
* `ExactArith.BinaryTree.Copies.walk_eq` — a walk of copies goes like a walk of the trees.
* `ExactArith.Expr.mem_symbols_node`, `ExactArith.Term.mem_vars_node` — the names of an operation.
* `ExactArith.Expr.copies_toTerm` — the term of an expression is a copy of it.
-/

namespace ExactArith

namespace BinaryTree

variable {τ : Type} [SizeOf τ] [BinaryTree τ]

/-- A name is carried by a node of a tree. -/
inductive Carries (name : String) : τ → Prop
  | here {t : τ} (h : name? t = some name) : Carries name t
  | left {t l r : τ} (h : operands t = some (l, r)) (hl : Carries name l) : Carries name t
  | right {t l r : τ} (h : operands t = some (l, r)) (hr : Carries name r) : Carries name t

lemma carries_iff_of_leaf {name : String} {t : τ} (h : operands t = none) :
    Carries name t ↔ name? t = some name := by
  refine ⟨fun hc => ?_, Carries.here⟩
  cases hc with
  | here hn => exact hn
  | left ht => simp [h] at ht
  | right ht => simp [h] at ht

lemma carries_iff_of_node {name : String} {t l r : τ} (h : operands t = some (l, r)) :
    Carries name t ↔ name? t = some name ∨ Carries name l ∨ Carries name r := by
  constructor
  · intro hc
    cases hc with
    | here hn => exact Or.inl hn
    | left ht hl =>
      obtain ⟨rfl, rfl⟩ := Prod.mk.inj (Option.some.inj (h.symm.trans ht))
      exact Or.inr (Or.inl hl)
    | right ht hr =>
      obtain ⟨rfl, rfl⟩ := Prod.mk.inj (Option.some.inj (h.symm.trans ht))
      exact Or.inr (Or.inr hr)
  · rintro (hn | hl | hr)
    · exact .here hn
    · exact .left h hl
    · exact .right h hr

/-- What a walk that collects names does at a node. -/
def noteName (found : Names) (t : τ) (_ : ℕ) : Names :=
  match name? t with
  | some name => found.insert name
  | none => found

lemma mem_noteName {name : String} {found : Names} {t : τ} {level : ℕ} :
    name ∈ noteName found t level ↔ name ∈ found ∨ name? t = some name := by
  rw [noteName]
  cases h : name? t with
  | none => simp
  | some other =>
    rw [Std.ExtTreeSet.mem_insert, Std.compare_eq_iff_eq, Option.some.injEq, or_comm]

/-- A walk keeps what was found and adds the names of the pending trees.

**Proof sketch.** Induction along the walk. At a node, the operands that become pending carry what
the node carries besides its own name. -/
lemma mem_walk_iff {name : String} (found : Names) (pending : List (τ × ℕ)) :
    name ∈ walk noteName found pending ↔ name ∈ found ∨ ∃ e ∈ pending, Carries name e.1 := by
  fun_induction walk noteName found pending with
  | case1 found => simp
  | case2 found t level rest h ih =>
    rw [ih, mem_noteName, or_assoc, ← carries_iff_of_leaf h]
    simp
  | case3 found t level rest l r h ih =>
    rw [ih, mem_noteName]
    simp [carries_iff_of_node h, or_assoc]

/-- **A walk collects the names that occur in the tree.** -/
lemma mem_names_iff {name : String} {t : τ} : name ∈ names t ↔ Carries name t := by
  change name ∈ walk noteName ∅ [(t, 1)] ↔ _
  rw [mem_walk_iff]
  simp

/-- A tree is ground if no name occurs in it. -/
lemma isGround_iff {t : τ} : isGround t = true ↔ ∀ name, name ∉ names t := by
  rw [isGround, Std.ExtTreeSet.isEmpty_iff, Std.ExtTreeSet.eq_empty_iff_forall_not_mem]

/-! ## Copies of trees -/

section Copy

variable {σ : Type} [SizeOf σ] [BinaryTree σ] {α : Type} {visit : α → τ → ℕ → α}

lemma walk_of_leaf {t : τ} (h : operands t = none) (found : α) (level : ℕ)
    (rest : List (τ × ℕ)) :
    walk visit found ((t, level) :: rest) = walk visit (visit found t level) rest := by
  rw [walk]
  split
  · rfl
  · next ht => simp [h] at ht

lemma walk_of_node {t l r : τ} (h : operands t = some (l, r)) (found : α) (level : ℕ)
    (rest : List (τ × ℕ)) :
    walk visit found ((t, level) :: rest) =
      walk visit (visit found t level) ((l, level + 1) :: (r, level + 1) :: rest) := by
  rw [walk]
  split
  · next ht => simp [h] at ht
  · next ht =>
    obtain ⟨rfl, rfl⟩ := Prod.mk.inj (Option.some.inj (h.symm.trans ht))
    rfl

/-- A map copies trees: it keeps the name of every leaf, and the operands of a copied node are the
copies of its operands. -/
structure Copies (copy : τ → σ) : Prop where
  name? : ∀ t, BinaryTree.name? (copy t) = BinaryTree.name? t
  operands : ∀ t, BinaryTree.operands (copy t) = (BinaryTree.operands t).map (Prod.map copy copy)

namespace Copies

variable {copy : τ → σ}

/-- **A walk of copies goes like a walk of the trees**, if it takes the same from each node.

**Proof sketch.** Induction along the walk of the trees. The operands that become pending in the
copy are the copies of those that become pending in the tree. -/
lemma walk_eq (h : Copies copy) {visitCopy : α → σ → ℕ → α}
    (hvisit : ∀ found t level, visitCopy found (copy t) level = visit found t level) (found : α)
    (pending : List (τ × ℕ)) :
    walk visitCopy found (pending.map (Prod.map copy id)) = walk visit found pending := by
  fun_induction walk visit found pending with
  | case1 found => rw [List.map_nil, walk]
  | case2 found t level rest ht ih =>
    have hcopy : BinaryTree.operands (copy t) = none := by rw [h.operands, ht, Option.map_none]
    rw [List.map_cons, Prod.map_apply, id_eq, walk_of_leaf hcopy, hvisit, ih]
  | case3 found t level rest l r ht ih =>
    have hcopy : BinaryTree.operands (copy t) = some (copy l, copy r) := by
      rw [h.operands, ht, Option.map_some, Prod.map_apply]
    rw [List.map_cons, Prod.map_apply, id_eq, walk_of_node hcopy, hvisit, ← ih]
    rfl

lemma names_eq (h : Copies copy) (t : τ) : names (copy t) = names t := by
  refine h.walk_eq (fun found t _ => ?_) ∅ [(t, 1)]
  rw [h.name?]

lemma depth_eq (h : Copies copy) (t : τ) : depth (copy t) = depth t :=
  h.walk_eq (fun _ _ _ => rfl) 0 [(t, 1)]

lemma size_eq (h : Copies copy) (t : τ) : size (copy t) = size t :=
  h.walk_eq (fun _ _ _ => rfl) 0 [(t, 1)]

end Copies

end Copy

end BinaryTree

/-! ## Expressions and terms -/

namespace Expr

@[simp] lemma mem_symbols_symbol {name other : String} :
    name ∈ (Expr.symbol other).symbols ↔ other = name := by
  rw [symbols, BinaryTree.mem_names_iff, BinaryTree.carries_iff_of_leaf rfl]
  exact Option.some.injEq other name ▸ Iff.rfl

@[simp] lemma not_mem_symbols_constant {name : String} {value : ℚ} :
    name ∉ (Expr.constant value).symbols := by
  rw [symbols, BinaryTree.mem_names_iff, BinaryTree.carries_iff_of_leaf rfl]
  exact nofun

@[simp] lemma mem_symbols_node {name : String} {left right : Expr} {op : Operator} :
    name ∈ (Expr.node left op right).symbols ↔ name ∈ left.symbols ∨ name ∈ right.symbols := by
  rw [symbols, symbols, symbols, BinaryTree.mem_names_iff, BinaryTree.mem_names_iff,
    BinaryTree.mem_names_iff, BinaryTree.carries_iff_of_node rfl]
  exact or_iff_right nofun

end Expr

namespace Term

@[simp] lemma mem_vars_var {name other : String} : name ∈ (Term.var other).vars ↔ other = name := by
  rw [vars, BinaryTree.mem_names_iff, BinaryTree.carries_iff_of_leaf rfl]
  exact Option.some.injEq other name ▸ Iff.rfl

@[simp] lemma not_mem_vars_lit {name : String} {value : ℚ} : name ∉ (Term.lit value).vars := by
  rw [vars, BinaryTree.mem_names_iff, BinaryTree.carries_iff_of_leaf rfl]
  exact nofun

@[simp] lemma mem_vars_node {name : String} {left right : Term} {op : Operator} :
    name ∈ (Term.node op left right).vars ↔ name ∈ left.vars ∨ name ∈ right.vars := by
  rw [vars, vars, vars, BinaryTree.mem_names_iff, BinaryTree.mem_names_iff,
    BinaryTree.mem_names_iff, BinaryTree.carries_iff_of_node rfl]
  exact or_iff_right nofun

end Term

namespace Expr

/-- **The term of an expression is a copy of it.** -/
lemma copies_toTerm : BinaryTree.Copies Expr.toTerm where
  name? e := by cases e <;> rfl
  operands e := by cases e <;> rfl

/-- An expression and its term have the same names. -/
lemma vars_toTerm (e : Expr) : e.toTerm.vars = e.symbols := copies_toTerm.names_eq e

lemma depth_toTerm (e : Expr) : e.toTerm.depth = e.depth := copies_toTerm.depth_eq e

lemma size_toTerm (e : Expr) : e.toTerm.size = e.size := copies_toTerm.size_eq e

/-- An expression and its term have the same text. -/
lemma render_toTerm (e : Expr) : e.toTerm.render = e.render := by
  induction e with
  | symbol name => rfl
  | constant value => rfl
  | node left op right ihl ihr => rw [toTerm, Term.render, ihl, ihr, render]

lemma mem_vars_toTerm {name : String} (e : Expr) : name ∈ e.toTerm.vars ↔ name ∈ e.symbols := by
  rw [vars_toTerm]

end Expr

end ExactArith
