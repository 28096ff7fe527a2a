import ExactArith.Proofs.Expr.Evaluation
import ExactArith.Proofs.Linear.Form
import ExactArith.Proofs.Translation.Linear
import ExactArith.Solver.Basic
import Mathlib

set_option autoImplicit false
set_option relaxedAutoImplicit false

/-!
# What a translation means

An expression is read in two ways: evaluation replaces its symbols, and translation turns it into a
linear term. The term is a copy of the expression with the form that the copy has on its own, so
what a context accepts the solver accepts as well. And where every symbol has a value, the value of
the expression is that of the form: the only divisions that a form admits are those by a constant
other than zero, and what cancels in a form cancels in the value.

## Main results

* `ExactArith.Context.translate_eq_ofTerm` — translation gives the copy with its form.
* `ExactArith.Context.evaluate_of_translate_eq_ok` — the form has the value of the expression.
-/

namespace ExactArith

/-- A constraint has a form when its left side has one and its right side too. -/
lemma Constraint.map_form {α : Type} (c : Constraint) (a : α) :
    (c.form.map fun _ => a) =
      match LinearForm.ofTerm c.left with
      | .error error => .error error
      | .ok _ => (LinearForm.ofTerm c.right).map fun _ => a := by
  rw [form]
  cases LinearForm.ofTerm c.left with
  | error error => rfl
  | ok f => cases LinearForm.ofTerm c.right <;> rfl

/-- A solver accepts every constraint that has a form. -/
lemma Solver.exists_add_eq_ok {c : Constraint} {f : LinearForm} (h : c.form = .ok f) (s : Solver) :
    ∃ next, s.add c = .ok next :=
  ⟨_, by rw [add, h]; rfl⟩

namespace Context

/-- **Translation gives the copy of an expression with the form of the copy**, whatever was asked of
the context before, and it fails just when the copy has no form, with the same failure. The copy has
the text, the measures and the names of the expression. A comparison becomes the constraint between
the copies; it fails for the left side if that has no form, and else for the right side. A solver
never refuses a constraint that a context has made. -/
theorem translate_eq_ofTerm (requests : List Request) (e left right : Expr) (relation : Relation) :
    ((after linearBackend requests).translate linearBackend e).1.mapError Refusal.error =
        (LinearForm.ofTerm e.toTerm).map (LinearTerm.mk e.toTerm) ∧
      (e.toTerm.render = e.render ∧ e.toTerm.depth = e.depth ∧ e.toTerm.size = e.size ∧
        e.toTerm.vars = e.symbols) ∧
      ((after linearBackend requests).constraint linearBackend left relation right).1.mapError
          Refusal.error =
        (match LinearForm.ofTerm left.toTerm with
        | .error error => .error error
        | .ok _ =>
          (LinearForm.ofTerm right.toTerm).map fun _ => ⟨left.toTerm, relation, right.toTerm⟩) ∧
      ∀ c, ((after linearBackend requests).constraint linearBackend left relation right).1 = .ok c →
        ∀ s : Solver, ∃ next, s.add c = .ok next := by
  refine ⟨?_, ⟨e.render_toTerm, e.depth_toTerm, e.size_toTerm, e.vars_toTerm⟩, ?_, ?_⟩
  · rw [translate_after]
    rcases e.build_linear with ⟨f, hf, hbuild⟩ | ⟨refusal, hf, hbuild⟩
    · rw [hf, hbuild]
      rfl
    · rw [hf, hbuild]
      rfl
  · rw [constraint_after, ← Constraint.map_form ⟨left.toTerm, relation, right.toTerm⟩]
    rcases left.buildConstraint_linear relation right with ⟨f, hf, hbuild⟩ | ⟨refusal, hf, hbuild⟩
    · rw [hf, hbuild]
      rfl
    · rw [hf, hbuild]
      rfl
  · intro c hc s
    obtain ⟨-, f, hf⟩ := form_of_constraint_eq_ok requests hc
    exact Solver.exists_add_eq_ok hf s

/-- After `x * y` has been refused, the same context makes the constraint `(x - x) * y < x`, and a
solver accepts it. -/
theorem translate_eq_ofTerm_cancel :
    (translate linearBackend (.symbol "x" * .symbol "y") ∅).1 =
      .error ⟨.unsupported (.nonlinearProduct (.node .mul (.var "x") (.var "y"))),
        some (.symbol "x" * .symbol "y")⟩ ∧
    ((after linearBackend [.translate (.symbol "x" * .symbol "y")]).constraint linearBackend
        ((.symbol "x" - .symbol "x") * .symbol "y") .lt (.symbol "x")).1 =
      .ok ⟨.node .mul (.node .sub (.var "x") (.var "x")) (.var "y"), .lt, .var "x"⟩ ∧
    ∃ next, (Solver.new 0).add
      ⟨.node .mul (.node .sub (.var "x") (.var "x")) (.var "y"), .lt, .var "x"⟩ = .ok next := by
  have hmade : ((after linearBackend [.translate (.symbol "x" * .symbol "y")]).constraint
      linearBackend ((.symbol "x" - .symbol "x") * .symbol "y") .lt (.symbol "x")).1 =
      .ok ⟨.node .mul (.node .sub (.var "x") (.var "x")) (.var "y"), .lt, .var "x"⟩ := by
    cbv
  exact ⟨by cbv, hmade, (translate_eq_ofTerm _ 0 _ _ .lt).2.2.2 _ hmade (Solver.new 0)⟩

/-- **The form of a translated expression has the value of the expression** wherever each symbol has
a value: the constant part and the sum of the coefficients times the values of their names. In
particular the expression does have a value there, so no divisor in it is zero.

**Proof sketch.** The form belongs to the copy of the expression, so the copy has the value of the
form at every assignment. At the values of the symbols, the copy has the value of the expression. -/
theorem evaluate_of_translate_eq_ok (requests : List Request) (e : Expr) (t : LinearTerm)
    (b : Binding) (σ : String → ℚ)
    (h : ((after linearBackend requests).translate linearBackend e).1 = .ok t)
    (hσ : ∀ name ∈ e.symbols, (Expr.symbol name).evaluate b = .ok (σ name)) :
    e.evaluate b = .ok (t.form.constant +
      (t.form.coefficients.toList.map fun entry => entry.2 * σ entry.1).sum) := by
  have hform := (translate_eq_ok requests h).2
  have hvalue := LinearForm.value_ofTerm hform σ
  have hsymbols : ∀ name ∈ e.symbols, b.HasValue (.symbol name) (σ name) :=
    fun name hname => Expr.evaluate_eq_ok_iff.1 (hσ name hname)
  have heval := Expr.evaluate_eq_ok_iff.2 (Binding.HasValue.of_toTerm hsymbols hvalue)
  rw [heval, LinearForm.value_eq, LinComb.eval_eq_sum, add_comm]
  simp only [smul_eq_mul]

/-- With `x` replaced by `y * y` and `y` by `3`, the form `x - 1/2 · y` of `x - y / 2` has the value
`9 - 3/2` of that expression. -/
theorem evaluate_of_translate_eq_ok_square :
    ((after linearBackend []).translate linearBackend
        (.node (.symbol "x") .sub (.node (.symbol "y") .div (.constant 2)))).1 =
      .ok ⟨.node .sub (.var "x") (.node .div (.var "y") (.lit 2)),
        ⟨(LinComb.single "x").addAt "y" (-1 / 2), 0⟩⟩ ∧
    (Expr.node (.symbol "x") .sub (.node (.symbol "y") .div (.constant 2))).evaluate
        (Binding.ofList [("x", .node (.symbol "y") .mul (.symbol "y")), ("y", .constant 3)]) =
      .ok (15 / 2) := by
  have htranslate : ((after linearBackend []).translate linearBackend
      (.node (.symbol "x") .sub (.node (.symbol "y") .div (.constant 2)))).1 =
      .ok ⟨.node .sub (.var "x") (.node .div (.var "y") (.lit 2)),
        ⟨(LinComb.single "x").addAt "y" (-1 / 2), 0⟩⟩ := by
    cbv
  have hsymbols : ∀ name ∈ (Expr.node (.symbol "x") .sub
      (.node (.symbol "y") .div (.constant 2))).symbols,
      (Expr.symbol name).evaluate (Binding.ofList [("x", .node (.symbol "y") .mul (.symbol "y")),
        ("y", .constant 3)]) = .ok (if name = "x" then 9 else 3) := by
    intro name hname
    simp only [Expr.mem_symbols_node, Expr.mem_symbols_symbol, Expr.not_mem_symbols_constant,
      or_false] at hname
    rcases hname with rfl | rfl
    · cbv
    · cbv
  have hsum : 0 + (((LinComb.single "x").addAt "y" (-1 / 2)).toList.map fun entry =>
      entry.2 * if entry.1 = "x" then 9 else 3).sum = (15 / 2 : ℚ) := by
    decide +kernel
  refine ⟨htranslate, ?_⟩
  rw [evaluate_of_translate_eq_ok [] _ _ _ _ htranslate hsymbols, hsum]

end Context

end ExactArith
