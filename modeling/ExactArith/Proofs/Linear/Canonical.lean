import ExactArith.Proofs.Linear.Form

set_option autoImplicit false
set_option relaxedAutoImplicit false

/-!
# Linear forms are canonical

Whatever operations a form is made by, it stores no zero coefficient. So a form is determined by
the function on assignments that it denotes: the value where every variable is zero is the constant
part, and the value where one variable is one exceeds it by the coefficient of that variable.
Equality of forms, a comparison of what is stored, therefore decides whether two terms have the same
values.

## Main definitions

* `ExactArith.LinearForm.IsMade` — the forms that the operations on forms make.
* `ExactArith.LinearForm.unitAt` — the assignment of one to a variable and of zero to all others.

## Main results

* `ExactArith.LinearForm.IsMade.isReduced` — no stored coefficient is zero.
* `ExactArith.LinearForm.coeff_eq` — the coefficients can be read off the values.
* `ExactArith.LinearForm.IsReduced.ext_value` — reduced forms with the same values are equal.
* `ExactArith.LinearForm.eq_iff_value_eq` — forms are equal exactly when they denote the same
  function.
-/

namespace ExactArith.LinearForm

/-! ## Forms made by operations -/

/-- A form made in finitely many steps: a number, a variable, the form of a term, or the outcome of
an operation on forms that are made. In `combine` the node need not be built from the operands. -/
inductive IsMade : LinearForm → Prop
  | ofConstant (c : ℚ) : IsMade (.ofConstant c)
  | ofVariable (name : String) : IsMade (.ofVariable name)
  | ofTerm {t : Term} {f : LinearForm} (h : LinearForm.ofTerm t = .ok f) : IsMade f
  | plus {f g : LinearForm} (hf : IsMade f) (hg : IsMade g) : IsMade (f.plus g)
  | minus {f g : LinearForm} (hf : IsMade f) (hg : IsMade g) : IsMade (f.minus g)
  | scaled {f : LinearForm} (hf : IsMade f) (factor : ℚ) : IsMade (f.scaled factor)
  | combine {f g k : LinearForm} {node : Term} (hf : IsMade f) (hg : IsMade g)
      (h : f.combine node g = .ok k) : IsMade k

/-- Only an operation combines forms. -/
lemma exists_node_of_combine {f g k : LinearForm} {node : Term} (h : f.combine node g = .ok k) :
    ∃ op left right, node = .node op left right := by
  cases node with
  | var name => simp [combine] at h
  | lit c => simp [combine] at h
  | node op left right => exact ⟨op, left, right, rfl⟩

/-- **A form that is made stores no zero coefficient.**

**Proof sketch.** Induction on how the form is made: sums drop the coefficients that become zero,
and a product with zero drops all of them. -/
lemma IsMade.isReduced {f : LinearForm} (h : f.IsMade) : f.IsReduced := by
  induction h with
  | ofConstant c => exact isReduced_ofConstant c
  | ofVariable name => exact isReduced_ofVariable name
  | ofTerm h => exact isReduced_ofTerm h
  | plus _ _ ihf _ => exact ihf.plus _
  | minus _ _ ihf _ => exact ihf.minus _
  | scaled _ factor ih => exact ih.scaled factor
  | combine _ _ h ihf ihg =>
    obtain ⟨op, left, right, rfl⟩ := exists_node_of_combine h
    exact ihf.combine ihg h

/-! ## Reading a form off its values -/

/-- The assignment of one to a variable and of zero to all others. -/
def unitAt (name : String) : String → ℚ := Pi.single name 1

/-- Where every variable is zero, the value is the constant part. -/
lemma constant_eq (f : LinearForm) : f.constant = f.value 0 := by
  have hzero : f.coefficients.eval (0 : String → ℚ) = 0 := by
    rw [LinComb.eval, Finsupp.linearCombination_zero, LinearMap.zero_apply]
  rw [value_eq, hzero, zero_add]

/-- **The coefficients can be read off the values**: setting one variable to one adds its
coefficient. -/
lemma coeff_eq (f : LinearForm) (name : String) :
    f.coefficients.coeff name = f.value (unitAt name) - f.value 0 := by
  have hunit : f.coefficients.eval (unitAt name) = f.coefficients.coeff name := by
    rw [unitAt, LinComb.eval_piSingle, smul_eq_mul, mul_one]
  rw [← constant_eq, value_eq, hunit, add_sub_cancel_right]

/-- **Reduced forms with the same values are equal.** -/
lemma IsReduced.ext_value {f g : LinearForm} (hf : f.IsReduced) (hg : g.IsReduced)
    (h : ∀ σ, f.value σ = g.value σ) : f = g := by
  have hconstant : f.constant = g.constant := by rw [constant_eq, constant_eq, h]
  have hcoefficients : f.coefficients = g.coefficients := by
    refine LinComb.IsReduced.ext hf hg (Finsupp.ext fun name => ?_)
    rw [LinComb.toFinsupp_apply, LinComb.toFinsupp_apply, coeff_eq, coeff_eq, h, h]
  cases f
  cases g
  exact congrArg₂ LinearForm.mk hcoefficients hconstant

lemma isConstant_ofConstant (c : ℚ) : (ofConstant c).isConstant = true := by
  rw [isConstant, ofConstant]
  exact Std.ExtTreeMap.isEmpty_empty

/-- A reduced form is constant as it is stored exactly when its value is. -/
lemma IsReduced.isConstant_iff {f : LinearForm} (hf : f.IsReduced) :
    f.isConstant = true ↔ ∃ c, ∀ σ, f.value σ = c := by
  refine ⟨fun h => ⟨f.constant, value_of_isConstant h⟩, ?_⟩
  rintro ⟨c, hc⟩
  have hform : f = ofConstant c :=
    hf.ext_value (isReduced_ofConstant c) fun σ => by rw [hc, value_ofConstant]
  rw [hform, isConstant_ofConstant]

/-- **Linear forms are canonical.** A form that is made by the operations stores no zero
coefficient; sums, differences and multiples denote those of the functions; and two such forms are
equal exactly when they denote the same function. In particular a form is constant exactly when its
function is, and terms have equal forms exactly when they have the same value at every assignment.

**Proof sketch.** The values determine the coefficients, and without stored zeros the coefficients
determine what is stored. -/
theorem eq_iff_value_eq {f g : LinearForm} (hf : f.IsMade) (hg : g.IsMade) :
    (∀ name : String, f.coefficients.coeffs[name]? ≠ some 0) ∧
      (∀ σ, (f.plus g).value σ = f.value σ + g.value σ ∧
        (f.minus g).value σ = f.value σ - g.value σ ∧
        ∀ factor, (f.scaled factor).value σ = factor * f.value σ) ∧
      (f = g ↔ ∀ σ, f.value σ = g.value σ) ∧
      (f.isConstant = true ↔ ∃ c, ∀ σ, f.value σ = c) ∧
      ∀ t u, ofTerm t = .ok f → ofTerm u = .ok g → (f = g ↔ ∀ σ, t.value σ = u.value σ) := by
  have hext : f = g ↔ ∀ σ, f.value σ = g.value σ :=
    ⟨fun h σ => by rw [h], hf.isReduced.ext_value hg.isReduced⟩
  refine ⟨hf.isReduced, fun σ => ⟨value_plus f g σ, value_minus f g σ, fun factor => ?_⟩, hext,
    hf.isReduced.isConstant_iff, fun t u ht hu => ?_⟩
  · rw [value_scaled, mul_comm]
  · simp only [hext, value_ofTerm ht, value_ofTerm hu, Except.ok.injEq]

/-- The form of `x + y - y` is that of `x`, since it has the same values; so the terms have the same
values too. -/
theorem eq_iff_value_eq_cancel :
    ofTerm (.node .sub (.node .add (.var "x") (.var "y")) (.var "y")) =
        .ok (((ofVariable "x").plus (ofVariable "y")).minus (ofVariable "y")) ∧
      ((ofVariable "x").plus (ofVariable "y")).minus (ofVariable "y") = ofVariable "x" ∧
      ∀ σ, (Term.node .sub (.node .add (.var "x") (.var "y")) (.var "y")).value σ =
        (Term.var "x").value σ := by
  have hmade : (((ofVariable "x").plus (ofVariable "y")).minus (ofVariable "y")).IsMade :=
    ((IsMade.ofVariable "x").plus (.ofVariable "y")).minus (.ofVariable "y")
  obtain ⟨-, -, hforms, -, hterms⟩ := eq_iff_value_eq hmade (.ofVariable "x")
  have heq := hforms.2 fun σ => by rw [value_minus, value_plus, add_sub_cancel_right]
  exact ⟨rfl, heq, (hterms _ _ rfl rfl).1 heq⟩

end ExactArith.LinearForm
