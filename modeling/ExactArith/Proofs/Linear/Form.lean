import ExactArith.Linear.Constraint
import ExactArith.Proofs.Linear.Combination
import Mathlib.Algebra.Order.Field.Rat

set_option autoImplicit false
set_option relaxedAutoImplicit false

/-!
# What the form of a term says

The form of a linear term has the same value as the term at every assignment, so a constraint
between linear terms holds exactly when the form of its difference compares with zero. Forms that
are made by the operations on forms store no zero coefficient.

## Main definitions

* `ExactArith.LinearForm.IsReduced` — no stored coefficient of the form is zero.

## Main results

* `ExactArith.LinearForm.apply_value_of_combine` — the form of a node has the value of the node.
* `ExactArith.LinearForm.value_ofTerm`, `ExactArith.LinearForm.isReduced_ofTerm` — the form of a
  term has the value of the term, and is reduced.
* `ExactArith.Constraint.holdsAt_iff` — a constraint compares its form with zero.
-/

namespace ExactArith

namespace LinearForm

/-! ## Values -/

/-- The value of a form is that of its combination plus its constant part. -/
lemma value_eq (f : LinearForm) (σ : String → ℚ) :
    f.value σ = f.coefficients.eval σ + f.constant := by
  rw [value, LinComb.value_eq_eval]

@[simp] lemma value_ofConstant (c : ℚ) (σ : String → ℚ) : (ofConstant c).value σ = c := by
  rw [value_eq, ofConstant, LinComb.eval_empty, zero_add]

@[simp] lemma value_ofVariable (name : String) (σ : String → ℚ) :
    (ofVariable name).value σ = σ name := by
  rw [value_eq, ofVariable, LinComb.eval_single, add_zero]

lemma value_plus (f g : LinearForm) (σ : String → ℚ) :
    (f.plus g).value σ = f.value σ + g.value σ := by
  rw [value_eq, value_eq, value_eq, plus, LinComb.eval_addScaled, one_smul, add_add_add_comm]

lemma value_scaled (f : LinearForm) (factor : ℚ) (σ : String → ℚ) :
    (f.scaled factor).value σ = f.value σ * factor := by
  rw [scaled]
  split_ifs with h
  · rw [value_ofConstant, h, mul_zero]
  · rw [value_eq, value_eq, LinComb.eval_scale, smul_eq_mul, add_mul, mul_comm factor]

lemma value_minus (f g : LinearForm) (σ : String → ℚ) :
    (f.minus g).value σ = f.value σ - g.value σ := by
  rw [minus, value_plus, value_scaled, mul_neg_one, sub_eq_add_neg]

lemma coefficients_of_isConstant {f : LinearForm} (h : f.isConstant = true) :
    f.coefficients = ∅ :=
  congrArg LinComb.mk (Std.ExtTreeMap.isEmpty_iff.1 h)

lemma value_of_isConstant {f : LinearForm} (h : f.isConstant = true) (σ : String → ℚ) :
    f.value σ = f.constant := by
  rw [value_eq, coefficients_of_isConstant h, LinComb.eval_empty, zero_add]

/-! ## Reduced forms -/

/-- No stored coefficient of a form is zero. -/
def IsReduced (f : LinearForm) : Prop := f.coefficients.IsReduced

lemma isReduced_ofConstant (c : ℚ) : (ofConstant c).IsReduced := LinComb.isReduced_empty

lemma isReduced_ofVariable (name : String) : (ofVariable name).IsReduced :=
  LinComb.isReduced_single name

lemma IsReduced.plus {f : LinearForm} (h : f.IsReduced) (g : LinearForm) : (f.plus g).IsReduced :=
  LinComb.IsReduced.addScaled h 1 g.coefficients

lemma IsReduced.scaled {f : LinearForm} (h : f.IsReduced) (factor : ℚ) :
    (f.scaled factor).IsReduced := by
  rw [LinearForm.scaled]
  split_ifs with hz
  · exact isReduced_ofConstant 0
  · exact LinComb.IsReduced.scale h hz

lemma IsReduced.minus {f : LinearForm} (h : f.IsReduced) (g : LinearForm) : (f.minus g).IsReduced :=
  h.plus _

/-! ## Forms of terms -/

/-- The form of a node has the value that the operator gives for the forms of the operands.

**Proof sketch.** One case for each operator. A product or quotient has a form only if a factor, or
the divisor, is constant, and then scaling by that constant is the operation. -/
lemma apply_value_of_combine {f g k : LinearForm} {op : Operator} {left right : Term}
    (h : f.combine (.node op left right) g = .ok k) (σ : String → ℚ) :
    op.apply (f.value σ) (g.value σ) = .ok (k.value σ) := by
  cases op with
  | add =>
    obtain rfl : f.plus g = k := by simpa [combine] using h
    rw [value_plus, Operator.apply]
  | sub =>
    obtain rfl : f.minus g = k := by simpa [combine] using h
    rw [value_minus, Operator.apply]
  | mul =>
    rw [combine] at h
    split_ifs at h with hf hg
    · obtain rfl : g.scaled f.constant = k := by simpa using h
      rw [value_scaled, value_of_isConstant hf, Operator.apply, mul_comm]
    · obtain rfl : f.scaled g.constant = k := by simpa using h
      rw [value_scaled, value_of_isConstant hg, Operator.apply]
  | div =>
    rw [combine] at h
    split_ifs at h with hg hz
    obtain rfl : f.scaled g.constant⁻¹ = k := by simpa using h
    have hconst : g.isConstant = true := by simpa using hg
    rw [value_scaled, value_of_isConstant hconst, Operator.apply, if_neg hz, div_eq_mul_inv]

lemma IsReduced.combine {f g k : LinearForm} {op : Operator} {left right : Term}
    (hf : f.IsReduced) (hg : g.IsReduced) (h : f.combine (.node op left right) g = .ok k) :
    k.IsReduced := by
  cases op with
  | add =>
    obtain rfl : f.plus g = k := by simpa [LinearForm.combine] using h
    exact hf.plus g
  | sub =>
    obtain rfl : f.minus g = k := by simpa [LinearForm.combine] using h
    exact hf.minus g
  | mul =>
    rw [LinearForm.combine] at h
    split_ifs at h
    · obtain rfl : g.scaled f.constant = k := by simpa using h
      exact hg.scaled _
    · obtain rfl : f.scaled g.constant = k := by simpa using h
      exact hf.scaled _
  | div =>
    rw [LinearForm.combine] at h
    split_ifs at h
    obtain rfl : f.scaled g.constant⁻¹ = k := by simpa using h
    exact hf.scaled _

/-- The form of an operation comes from the forms of its operands. -/
lemma ofTerm_node_eq_ok {op : Operator} {left right : Term} {k : LinearForm}
    (h : ofTerm (.node op left right) = .ok k) :
    ∃ f g, ofTerm left = .ok f ∧ ofTerm right = .ok g ∧
      f.combine (.node op left right) g = .ok k := by
  rw [ofTerm] at h
  cases hl : ofTerm left with
  | error e => simp [hl] at h
  | ok f =>
    cases hr : ofTerm right with
    | error e => simp [hl, hr] at h
    | ok g => exact ⟨f, g, rfl, rfl, by simpa [hl, hr] using h⟩

/-- **The form of a term has the value of the term.**

**Proof sketch.** Induction on the term, with `apply_value_of_combine` at a node. -/
lemma value_ofTerm {t : Term} {f : LinearForm} (h : ofTerm t = .ok f) (σ : String → ℚ) :
    t.value σ = .ok (f.value σ) := by
  induction t generalizing f with
  | var name =>
    obtain rfl : ofVariable name = f := by simpa [ofTerm] using h
    rw [value_ofVariable, Term.value]
  | lit c =>
    obtain rfl : ofConstant c = f := by simpa [ofTerm] using h
    rw [value_ofConstant, Term.value]
  | node op left right ihl ihr =>
    obtain ⟨p, q, hl, hr, hc⟩ := ofTerm_node_eq_ok h
    rw [Term.value, ihl hl, ihr hr]
    exact apply_value_of_combine hc σ

lemma isReduced_ofTerm {t : Term} {f : LinearForm} (h : ofTerm t = .ok f) : f.IsReduced := by
  induction t generalizing f with
  | var name =>
    obtain rfl : ofVariable name = f := by simpa [ofTerm] using h
    exact isReduced_ofVariable name
  | lit c =>
    obtain rfl : ofConstant c = f := by simpa [ofTerm] using h
    exact isReduced_ofConstant c
  | node op left right ihl ihr =>
    obtain ⟨p, q, hl, hr, hc⟩ := ofTerm_node_eq_ok h
    exact IsReduced.combine (ihl hl) (ihr hr) hc

end LinearForm

/-! ## Constraints -/

/-- Two numbers compare as their difference and zero do. -/
lemma Relation.holds_sub (relation : Relation) (x y : ℚ) :
    relation.holds (x - y) 0 = relation.holds x y := by
  cases relation <;> simp [Relation.holds, sub_eq_zero]

namespace Constraint

lemma form_eq_ok {c : Constraint} {f : LinearForm} (h : c.form = .ok f) :
    ∃ p q, LinearForm.ofTerm c.left = .ok p ∧ LinearForm.ofTerm c.right = .ok q ∧
      p.minus q = f := by
  rw [form] at h
  cases hl : LinearForm.ofTerm c.left with
  | error e => simp [hl] at h
  | ok p =>
    cases hr : LinearForm.ofTerm c.right with
    | error e => simp [hl, hr] at h
    | ok q => exact ⟨p, q, rfl, rfl, by simpa [hl, hr] using h⟩

lemma isReduced_form {c : Constraint} {f : LinearForm} (h : c.form = .ok f) : f.IsReduced := by
  obtain ⟨p, q, hl, -, rfl⟩ := form_eq_ok h
  exact (LinearForm.isReduced_ofTerm hl).minus q

/-- **A constraint holds exactly when its form compares with zero**: linear sides have values at
every assignment, and the form is their difference. -/
lemma holdsAt_iff {c : Constraint} {f : LinearForm} (h : c.form = .ok f) (σ : String → ℚ) :
    c.HoldsAt σ ↔ c.relation.holds (f.value σ) 0 = true := by
  obtain ⟨p, q, hl, hr, rfl⟩ := form_eq_ok h
  rw [HoldsAt, LinearForm.value_ofTerm hl, LinearForm.value_ofTerm hr, LinearForm.value_minus,
    Relation.holds_sub]
  simp

end Constraint

end ExactArith
