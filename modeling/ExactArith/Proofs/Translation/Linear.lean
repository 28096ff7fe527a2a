import ExactArith.Proofs.SortedMap
import ExactArith.Proofs.Tree.Worklist
import ExactArith.Translation.Context

set_option autoImplicit false
set_option relaxedAutoImplicit false

/-!
# Translating into linear terms

A context that has served any requests has for each declared name the variable that its backend
makes for it, so what it gives for an expression does not depend on the requests. In the language of
the built-in solver an expression becomes the term that copies it node for node, together with the
form that this term has. Where the term has no form, the translation fails, for the same reason.

## Main definitions

* `ExactArith.Context.Request`, `ExactArith.Context.after` — what can be asked of a context, and the
  context after a list of requests.
* `ExactArith.Context.DeclaresVars` — each declared name has the variable of the backend.
* `ExactArith.Expr.build`, `ExactArith.Expr.buildConstraint` — what expressions and their
  comparisons become without a context.

## Main results

* `ExactArith.Context.declaresVars_after` — so it is after any requests.
* `ExactArith.Context.translate_after`, `ExactArith.Context.constraint_after` — what a context gives
  is what is built without it.
* `ExactArith.Expr.build_linear`, `ExactArith.Expr.buildConstraint_linear` — in the language of the
  built-in solver this is the copy with its form.
* `ExactArith.Context.constraint_eq_ok` — the constraint between two expressions.
-/

namespace ExactArith

/-- What an expression becomes in the language of a backend, or the first refusal. -/
def Expr.build {τ φ : Type} (backend : Backend τ φ) : Expr → Except Refusal τ
  | .symbol name => .ok (backend.var name)
  | .constant value => .ok (backend.lit value)
  | .node left op right =>
    match build backend left with
    | .error refusal => .error refusal
    | .ok x =>
      match build backend right with
      | .error refusal => .error refusal
      | .ok y => (backend.node op x y).mapError fun error => ⟨error, some (.node left op right)⟩

/-- What the comparison of two expressions becomes in the language of a backend, or the first
refusal. -/
def Expr.buildConstraint {τ φ : Type} (backend : Backend τ φ) (left : Expr) (relation : Relation)
    (right : Expr) : Except Refusal φ :=
  match left.build backend with
  | .error refusal => .error refusal
  | .ok x =>
    match right.build backend with
    | .error refusal => .error refusal
    | .ok y => (backend.compare relation x y).mapError fun error => ⟨error, none⟩

namespace Context

variable {τ φ : Type} {backend : Backend τ φ} {ctx : Context τ}

/-! ## Requests -/

/-- What can be asked of a context. -/
inductive Request where
  /-- The variable of a name. -/
  | declare (name : String)
  /-- The translation of an expression. -/
  | translate (e : Expr)
  /-- The comparison of two expressions. -/
  | constraint (left : Expr) (relation : Relation) (right : Expr)

/-- The context after a request, whether or not the backend refused it. -/
def perform (backend : Backend τ φ) (ctx : Context τ) : Request → Context τ
  | .declare name => (ctx.declare backend name).2
  | .translate e => (ctx.translate backend e).2
  | .constraint left relation right => (ctx.constraint backend left relation right).2

/-- The context after a list of requests. -/
def after (backend : Backend τ φ) (requests : List Request) : Context τ :=
  requests.foldl (perform backend) ∅

/-- Each declared name has the variable that the backend makes for it. -/
def DeclaresVars (backend : Backend τ φ) (ctx : Context τ) : Prop :=
  ∀ (name : String) term, ctx.declared[name]? = some term → term = backend.var name

namespace DeclaresVars

/-- Asking for a variable gives the one that the backend makes. -/
lemma declare (h : ctx.DeclaresVars backend) (name : String) :
    (ctx.declare backend name).1 = backend.var name ∧
      (ctx.declare backend name).2.DeclaresVars backend := by
  rw [Context.declare]
  split
  · next term hterm => exact ⟨h name term hterm, h⟩
  · refine ⟨rfl, fun other term hterm => ?_⟩
    rcases SortedMap.getElem?_insert_eq_some_iff.1 hterm with ⟨rfl, rfl⟩ | ⟨-, hterm⟩
    · rfl
    · exact h other term hterm

/-- **What a translation gives does not depend on the context.** -/
lemma translate (h : ctx.DeclaresVars backend) (e : Expr) :
    ∃ ctx', ctx.translate backend e = (e.build backend, ctx') ∧ ctx'.DeclaresVars backend := by
  induction e generalizing ctx with
  | symbol name =>
    obtain ⟨hterm, hnext⟩ := h.declare name
    exact ⟨_, by rw [Context.translate, Expr.build, ← hterm], hnext⟩
  | constant value => exact ⟨_, rfl, h⟩
  | node left op right ihl ihr =>
    obtain ⟨ctx', hl, hnext⟩ := ihl h
    rw [Context.translate, hl, Expr.build]
    cases left.build backend with
    | error refusal => exact ⟨ctx', rfl, hnext⟩
    | ok x =>
      obtain ⟨ctx'', hr, hlast⟩ := ihr hnext
      dsimp only
      rw [hr]
      cases right.build backend with
      | error refusal => exact ⟨ctx'', rfl, hlast⟩
      | ok y => exact ⟨_, rfl, hlast⟩

/-- **Nor does what the comparison of two expressions gives.** -/
lemma constraint (h : ctx.DeclaresVars backend) (left : Expr) (relation : Relation) (right : Expr) :
    ∃ ctx', ctx.constraint backend left relation right =
      (left.buildConstraint backend relation right, ctx') ∧ ctx'.DeclaresVars backend := by
  obtain ⟨ctx', hl, hnext⟩ := h.translate left
  rw [Context.constraint, hl, Expr.buildConstraint]
  cases left.build backend with
  | error refusal => exact ⟨ctx', rfl, hnext⟩
  | ok x =>
    obtain ⟨ctx'', hr, hlast⟩ := hnext.translate right
    dsimp only
    rw [hr]
    cases right.build backend with
    | error refusal => exact ⟨ctx'', rfl, hlast⟩
    | ok y => exact ⟨_, rfl, hlast⟩

lemma perform (h : ctx.DeclaresVars backend) (request : Request) :
    (ctx.perform backend request).DeclaresVars backend := by
  cases request with
  | declare name => exact (h.declare name).2
  | translate e =>
    obtain ⟨ctx', heq, hnext⟩ := h.translate e
    rwa [Context.perform, heq]
  | constraint left relation right =>
    obtain ⟨ctx', heq, hnext⟩ := h.constraint left relation right
    rwa [Context.perform, heq]

end DeclaresVars

/-- **After any requests, each declared name has the variable of the backend.** -/
lemma declaresVars_after (backend : Backend τ φ) (requests : List Request) :
    (after backend requests).DeclaresVars backend := by
  refine List.foldlRecOn requests (perform backend) ?_ fun ctx h request _ => h.perform request
  intro name term hterm
  change (∅ : Std.ExtTreeMap String τ compare)[name]? = some term at hterm
  simp at hterm

/-- After any requests, a context translates an expression to what is built without a context. -/
lemma translate_after (backend : Backend τ φ) (requests : List Request) (e : Expr) :
    ((after backend requests).translate backend e).1 = e.build backend := by
  obtain ⟨ctx', heq, -⟩ := (declaresVars_after backend requests).translate e
  rw [heq]

/-- After any requests, a context compares two expressions as it is done without a context. -/
lemma constraint_after (backend : Backend τ φ) (requests : List Request) (left : Expr)
    (relation : Relation) (right : Expr) :
    ((after backend requests).constraint backend left relation right).1 =
      left.buildConstraint backend relation right := by
  obtain ⟨ctx', heq, -⟩ := (declaresVars_after backend requests).constraint left relation right
  rw [heq]

end Context

/-! ## Linear terms -/

/-- A node of the built-in solver's language is that of the terms, with the form that the forms of
the operands combine to. -/
lemma linearBackend_node (op : Operator) (x y : Term) (f g : LinearForm) :
    linearBackend.node op ⟨x, f⟩ ⟨y, g⟩ =
      (f.combine (.node op x y) g).map (LinearTerm.mk (.node op x y)) := rfl

namespace Expr

/-- **In the built-in solver's language an expression becomes the term that copies it, together with
the form of this term**, and it is refused for the reason for which the term has no form.

**Proof sketch.** Induction on the expression. The translation and the search for a form both look
at the left operand, then at the right one, and then combine the forms of the two for the same node.
-/
lemma build_linear (e : Expr) :
    (∃ f, LinearForm.ofTerm e.toTerm = .ok f ∧ e.build linearBackend = .ok ⟨e.toTerm, f⟩) ∨
      ∃ refusal : Refusal, LinearForm.ofTerm e.toTerm = .error refusal.error ∧
        e.build linearBackend = .error refusal := by
  induction e with
  | symbol name => exact Or.inl ⟨.ofVariable name, rfl, rfl⟩
  | constant value => exact Or.inl ⟨.ofConstant value, rfl, rfl⟩
  | node left op right ihl ihr =>
    rw [toTerm, LinearForm.ofTerm, build]
    rcases ihl with ⟨f, hf, hl⟩ | ⟨refusal, hf, hl⟩
    · rcases ihr with ⟨g, hg, hr⟩ | ⟨refusal, hg, hr⟩
      · rw [hf, hl, hg, hr]
        dsimp only
        rw [linearBackend_node]
        cases f.combine (.node op left.toTerm right.toTerm) g with
        | ok k => exact Or.inl ⟨k, rfl, rfl⟩
        | error error => exact Or.inr ⟨⟨error, some (.node left op right)⟩, rfl, rfl⟩
      · rw [hf, hl, hg, hr]
        exact Or.inr ⟨refusal, rfl, rfl⟩
    · rw [hf, hl]
      exact Or.inr ⟨refusal, rfl, rfl⟩

/-- In the built-in solver's language a comparison becomes the constraint between the copies of its
sides, and it is refused for the reason for which the constraint has no form. -/
lemma buildConstraint_linear (left : Expr) (relation : Relation) (right : Expr) :
    (∃ f, (Constraint.mk left.toTerm relation right.toTerm).form = .ok f ∧
        left.buildConstraint linearBackend relation right =
          .ok ⟨left.toTerm, relation, right.toTerm⟩) ∨
      ∃ refusal : Refusal,
        (Constraint.mk left.toTerm relation right.toTerm).form = .error refusal.error ∧
          left.buildConstraint linearBackend relation right = .error refusal := by
  rw [buildConstraint, Constraint.form]
  rcases left.build_linear with ⟨f, hf, hl⟩ | ⟨refusal, hf, hl⟩
  · rcases right.build_linear with ⟨g, hg, hr⟩ | ⟨refusal, hg, hr⟩
    · rw [hf, hl, hg, hr]
      exact Or.inl ⟨f.minus g, rfl, rfl⟩
    · rw [hf, hl, hg, hr]
      exact Or.inr ⟨refusal, rfl, rfl⟩
  · rw [hf, hl]
    exact Or.inr ⟨refusal, rfl, rfl⟩

end Expr

namespace Context

/-- A translated expression is the copy with the form of the copy. -/
lemma translate_eq_ok (requests : List Request) {e : Expr} {t : LinearTerm}
    (h : ((after linearBackend requests).translate linearBackend e).1 = .ok t) :
    t.term = e.toTerm ∧ LinearForm.ofTerm e.toTerm = .ok t.form := by
  rw [translate_after] at h
  rcases e.build_linear with ⟨f, hf, hbuild⟩ | ⟨refusal, -, hbuild⟩
  · obtain rfl := Except.ok.inj (hbuild.symm.trans h)
    exact ⟨rfl, hf⟩
  · simp [hbuild] at h

/-- A constraint that a context makes compares the copies of its sides, and it has a form. -/
lemma form_of_constraint_eq_ok (requests : List Request) {left right : Expr} {relation : Relation}
    {c : Constraint}
    (h : ((after linearBackend requests).constraint linearBackend left relation right).1 = .ok c) :
    c = ⟨left.toTerm, relation, right.toTerm⟩ ∧ ∃ f, c.form = .ok f := by
  rw [constraint_after] at h
  rcases left.buildConstraint_linear relation right with ⟨f, hf, hbuild⟩ | ⟨refusal, -, hbuild⟩
  · obtain rfl := Except.ok.inj (hbuild.symm.trans h)
    exact ⟨rfl, f, hf⟩
  · simp [hbuild] at h

/-- **A constraint that a context makes compares the copies of its sides.** -/
lemma constraint_eq_ok (requests : List Request) {left right : Expr} {relation : Relation}
    {c : Constraint}
    (h : ((after linearBackend requests).constraint linearBackend left relation right).1 = .ok c) :
    c = ⟨left.toTerm, relation, right.toTerm⟩ :=
  (form_of_constraint_eq_ok requests h).1

end Context

end ExactArith
