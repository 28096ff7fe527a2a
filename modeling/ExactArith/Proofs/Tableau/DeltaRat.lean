import ExactArith.Tableau.Pivot
import Mathlib.Algebra.Module.LinearMap.Defs
import Mathlib.Algebra.Module.Rat
import Mathlib.Algebra.Order.Field.Rat
import Mathlib.Algebra.Order.Module.Defs
import Mathlib.Tactic.Linarith
import Mathlib.Tactic.Ring

set_option autoImplicit false
set_option relaxedAutoImplicit false

/-!
# The ordered vector space of rationals with an infinitesimal part

The pairs `r + d · δ` form a vector space over the rationals, and the lexicographic order on them is
a linear order that agrees with it. Fixing `δ`, and reading a rational number as a pair, are linear.

## Main definitions

* `ExactArith.DeltaRat.evalAtHom` — the value for a concrete `δ`, as a linear map.
* `ExactArith.DeltaRat.ofRat` — a rational number as a pair without an infinitesimal part.

## Main results

* `ExactArith.DeltaRat.le_iff` — the order compares the rational parts first.
* `ExactArith.DeltaRat.ofRat_le_of_le_evalAt`, `ExactArith.DeltaRat.le_ofRat_of_evalAt_le` — a
  number that respects a bound for some positive `δ` respects it in the order of pairs.
-/

namespace ExactArith.DeltaRat

attribute [ext] DeltaRat

/-! ## The vector space -/

instance : Neg DeltaRat := ⟨fun a => ⟨-a.real, -a.delta⟩⟩

@[simp] lemma real_zero : (0 : DeltaRat).real = 0 := rfl

@[simp] lemma delta_zero : (0 : DeltaRat).delta = 0 := rfl

@[simp] lemma real_add (a b : DeltaRat) : (a + b).real = a.real + b.real := rfl

@[simp] lemma delta_add (a b : DeltaRat) : (a + b).delta = a.delta + b.delta := rfl

@[simp] lemma real_sub (a b : DeltaRat) : (a - b).real = a.real - b.real := rfl

@[simp] lemma delta_sub (a b : DeltaRat) : (a - b).delta = a.delta - b.delta := rfl

@[simp] lemma real_neg (a : DeltaRat) : (-a).real = -a.real := rfl

@[simp] lemma delta_neg (a : DeltaRat) : (-a).delta = -a.delta := rfl

instance : AddCommGroup DeltaRat where
  add_assoc a b c := by ext <;> simp [add_assoc]
  zero_add a := by ext <;> simp
  add_zero a := by ext <;> simp
  add_comm a b := by ext <;> simp [add_comm]
  neg_add_cancel a := by ext <;> simp
  sub_eq_add_neg a b := by ext <;> simp [sub_eq_add_neg]
  nsmul := nsmulRec
  zsmul := zsmulRec

instance : SMul ℚ DeltaRat := ⟨fun c a => c * a⟩

/-- A multiple of a pair is the product with a number. -/
lemma smul_def (c : ℚ) (a : DeltaRat) : c • a = c * a := rfl

@[simp] lemma real_smul (c : ℚ) (a : DeltaRat) : (c • a).real = c * a.real := rfl

@[simp] lemma delta_smul (c : ℚ) (a : DeltaRat) : (c • a).delta = c * a.delta := rfl

instance : Module ℚ DeltaRat where
  one_smul a := by ext <;> simp
  mul_smul c d a := by ext <;> simp [mul_assoc]
  smul_zero c := by ext <;> simp
  smul_add c a b := by ext <;> simp [mul_add]
  add_smul c d a := by ext <;> simp [add_mul]
  zero_smul a := by ext <;> simp

/-! ## The order -/

/-- One pair is less than another if its rational part is, or its infinitesimal part in a tie. -/
lemma lt_iff {a b : DeltaRat} : a < b ↔ a.real < b.real ∨ a.real = b.real ∧ a.delta < b.delta :=
  Iff.rfl

/-- One pair is at most another if its rational part is less, or its infinitesimal part at most the
other in a tie. -/
lemma le_iff {a b : DeltaRat} : a ≤ b ↔ a.real < b.real ∨ a.real = b.real ∧ a.delta ≤ b.delta := by
  change ¬(b.real < a.real ∨ b.real = a.real ∧ b.delta < a.delta) ↔ _
  rcases lt_trichotomy a.real b.real with h | h | h
  · simp [h, h.not_gt, h.ne']
  · simp [h]
  · simp [h, h.not_gt, h.ne']

instance : LinearOrder DeltaRat where
  le_refl a := le_iff.2 (Or.inr ⟨rfl, le_rfl⟩)
  le_trans a b c hab hbc := by
    rw [le_iff] at hab hbc ⊢
    rcases hab with hab | ⟨hab, hab'⟩ <;> rcases hbc with hbc | ⟨hbc, hbc'⟩
    · exact Or.inl (hab.trans hbc)
    · exact Or.inl (hbc ▸ hab)
    · exact Or.inl (hab ▸ hbc)
    · exact Or.inr ⟨hab.trans hbc, hab'.trans hbc'⟩
  le_antisymm a b hab hba := by
    rw [le_iff] at hab hba
    rcases hab with hab | ⟨hab, hab'⟩ <;> rcases hba with hba | ⟨hba, hba'⟩
    · exact absurd hba hab.not_gt
    · exact absurd hab hba.le.not_gt
    · exact absurd hba hab.le.not_gt
    · exact DeltaRat.ext hab (le_antisymm hab' hba')
  le_total a b := by
    rw [le_iff, le_iff]
    rcases lt_trichotomy a.real b.real with h | h | h
    · exact Or.inl (Or.inl h)
    · exact (le_total a.delta b.delta).imp (fun hd => Or.inr ⟨h, hd⟩) fun hd => Or.inr ⟨h.symm, hd⟩
    · exact Or.inr (Or.inl h)
  lt_iff_le_not_ge a b := by
    rw [lt_iff, le_iff, le_iff]
    rcases lt_trichotomy a.real b.real with h | h | h
    · simp [h, h.not_gt, h.ne']
    · simpa [h] using le_of_lt
    · simp [h.not_gt, h.ne', h]
  toDecidableLE := inferInstance
  toDecidableLT := inferInstance

instance : IsOrderedAddMonoid DeltaRat where
  add_le_add_left a b h c := by
    rw [le_iff] at h ⊢
    simpa using h

instance : PosSMulMono ℚ DeltaRat where
  smul_le_smul_of_nonneg_left c hc a b h := by
    rw [le_iff] at h ⊢
    rcases hc.eq_or_lt with rfl | hc
    · simp
    · simpa [hc, hc.ne'] using h

/-! ## Concrete values -/

/-- The value for a concrete `δ`, as a linear map. -/
def evalAtHom (δ : ℚ) : DeltaRat →ₗ[ℚ] ℚ where
  toFun a := a.evalAt δ
  map_add' a b := by simp only [evalAt, real_add, delta_add]; ring
  map_smul' c a := by simp only [evalAt, real_smul, delta_smul, smul_eq_mul, RingHom.id_apply]; ring

@[simp] lemma evalAtHom_apply (δ : ℚ) (a : DeltaRat) : evalAtHom δ a = a.evalAt δ := rfl

/-- A rational number as a pair. -/
def ofRat : ℚ →ₗ[ℚ] DeltaRat where
  toFun q := ⟨q, 0⟩
  map_add' p q := by ext <;> simp
  map_smul' c q := by ext <;> simp

@[simp] lemma real_ofRat (q : ℚ) : (ofRat q).real = q := rfl

@[simp] lemma delta_ofRat (q : ℚ) : (ofRat q).delta = 0 := rfl

/-- Rational numbers keep their order as pairs. -/
lemma ofRat_le_ofRat {p q : ℚ} : ofRat p ≤ ofRat q ↔ p ≤ q := by
  rw [le_iff]
  simp [le_iff_lt_or_eq]

/-- A number below an upper bound for a positive `δ` is below it as a pair, if the infinitesimal
part of the bound does not raise it. -/
lemma ofRat_le_of_le_evalAt {q δ : ℚ} {b : DeltaRat} (hδ : 0 < δ) (hb : b.delta ≤ 0)
    (h : q ≤ b.evalAt δ) : ofRat q ≤ b := by
  rw [le_iff, real_ofRat, delta_ofRat]
  rw [evalAt] at h
  rcases hb.eq_or_lt with hb | hb
  · rw [hb, zero_mul, add_zero] at h
    exact h.lt_or_eq.imp id fun h => ⟨h, hb.ge⟩
  · exact Or.inl (by linarith [mul_neg_of_neg_of_pos hb hδ])

/-- A number above a lower bound for a positive `δ` is above it as a pair, if the infinitesimal part
of the bound does not lower it. -/
lemma le_ofRat_of_evalAt_le {q δ : ℚ} {b : DeltaRat} (hδ : 0 < δ) (hb : 0 ≤ b.delta)
    (h : b.evalAt δ ≤ q) : b ≤ ofRat q := by
  rw [le_iff, real_ofRat, delta_ofRat]
  rw [evalAt] at h
  rcases hb.eq_or_lt with hb | hb
  · rw [← hb, zero_mul, add_zero] at h
    exact h.lt_or_eq.imp id fun h => ⟨h, hb.ge⟩
  · exact Or.inl (by linarith [mul_pos hb hδ])

end ExactArith.DeltaRat
