import ExactArith.Linear.Combination
import ExactArith.Proofs.SortedMap
import Mathlib.LinearAlgebra.Finsupp.LinearCombination
import Mathlib.Algebra.Module.Rat
import Mathlib.GroupTheory.GroupAction.Ring
import Mathlib.Tactic.Ring

set_option autoImplicit false
set_option relaxedAutoImplicit false
set_option linter.unusedSectionVars false

/-!
# Linear combinations as finitely supported functions

A combination of the indices of `κ` is determined by its coefficients, and only finitely many of
them are not zero. Read as an element of `κ →₀ ℚ`, each operation on combinations becomes one of the
vector space, and the value of a combination is linear in it.

## Main definitions

* `ExactArith.LinComb.toFinsupp` — the coefficients as a finitely supported function.
* `ExactArith.LinComb.eval` — the value of a combination at a point of any rational vector space.
* `ExactArith.LinComb.IsReduced` — no coefficient that is stored is zero.

## Main results

* `ExactArith.LinComb.toFinsupp_addScaled` and its neighbours — what each operation does to the
  coefficients.
* `ExactArith.LinComb.eval_addScaled` and its neighbours — what each operation does to the value.
* `ExactArith.LinComb.value_eq_eval` — the fold over the stored coefficients computes the value.
* `ExactArith.LinComb.IsReduced.ext` — reduced combinations with the same coefficients are equal.
-/

namespace ExactArith.LinComb

variable {κ : Type} [Ord κ] [Std.TransOrd κ] [Std.LawfulEqOrd κ]

/-! ## Stored coefficients -/

lemma coeff_eq_getD (r : LinComb κ) (k : κ) : r.coeff k = r.coeffs[k]?.getD 0 :=
  Std.ExtTreeMap.getD_eq_getD_getElem?

lemma coeff_of_getElem? {r : LinComb κ} {k : κ} {a : ℚ} (h : r.coeffs[k]? = some a) :
    r.coeff k = a := by
  rw [coeff_eq_getD, h, Option.getD_some]

lemma mem_toList_iff {r : LinComb κ} {k : κ} {a : ℚ} :
    (k, a) ∈ r.toList ↔ r.coeffs[k]? = some a :=
  Std.ExtTreeMap.mem_toList_iff_getElem?_eq_some

/-- An index with a non-zero coefficient is stored. -/
lemma getElem?_of_coeff_ne_zero {r : LinComb κ} {k : κ} (h : r.coeff k ≠ 0) :
    r.coeffs[k]? = some (r.coeff k) := by
  rw [coeff_eq_getD] at h ⊢
  cases hk : r.coeffs[k]? with
  | none => simp [hk] at h
  | some a => rfl

lemma finite_support_coeff (r : LinComb κ) : (Function.support r.coeff).Finite := by
  refine (List.finite_toSet (r.toList.map Prod.fst)).subset fun k hk => ?_
  have hmem := mem_toList_iff.2 (getElem?_of_coeff_ne_zero hk)
  exact List.mem_map.2 ⟨_, hmem, rfl⟩

/-! ## Coefficients as a vector -/

/-- The coefficients of a combination as a finitely supported function. -/
noncomputable def toFinsupp (r : LinComb κ) : κ →₀ ℚ :=
  Finsupp.ofSupportFinite r.coeff r.finite_support_coeff

@[simp] lemma toFinsupp_apply (r : LinComb κ) (k : κ) : r.toFinsupp k = r.coeff k := rfl

@[simp] lemma toFinsupp_empty : (∅ : LinComb κ).toFinsupp = 0 := by
  ext k
  exact coeff_zero k

@[simp] lemma toFinsupp_single (k : κ) : (single k).toFinsupp = Finsupp.single k 1 := by
  classical
  ext j
  rw [toFinsupp_apply, coeff_single, Finsupp.single_apply]

lemma toFinsupp_addAt (r : LinComb κ) (k : κ) (a : ℚ) :
    (r.addAt k a).toFinsupp = r.toFinsupp + Finsupp.single k a := by
  classical
  ext j
  rw [toFinsupp_apply, coeff_addAt, Finsupp.add_apply, toFinsupp_apply, Finsupp.single_apply]
  split_ifs with h
  · rw [h]
  · rw [add_zero]

/-- Entering a list of multiples one after the other adds their vectors.

**Proof sketch.** Induction on the list, with the combination that has been reached generalized. -/
lemma toFinsupp_foldl_addAt (entries : List (κ × ℚ)) (factor : ℚ) (r : LinComb κ) :
    (entries.foldl (fun r e => r.addAt e.1 (factor * e.2)) r).toFinsupp =
      r.toFinsupp + factor • (entries.map fun e => Finsupp.single e.1 e.2).sum := by
  induction entries generalizing r with
  | nil => simp
  | cons e entries ih =>
    rw [List.foldl_cons, ih, toFinsupp_addAt, List.map_cons, List.sum_cons, smul_add,
      Finsupp.smul_single, smul_eq_mul, add_assoc]

/-- At an index, a sum of entries is the coefficient that they list, or zero.

**Proof sketch.** Induction on the entries. Those of other indices contribute zero, and there is no
second one of the same index. -/
lemma sum_single_apply {entries : List (κ × ℚ)} {k : κ} {o : Option ℚ}
    (h : SortedMap.Lists entries k o) :
    (entries.map fun e => Finsupp.single e.1 e.2).sum k = o.getD 0 := by
  classical
  induction entries generalizing o with
  | nil => simp [h.of_nil]
  | cons e entries ih =>
    rw [List.map_cons, List.sum_cons, Finsupp.add_apply, Finsupp.single_apply]
    rcases h.of_cons with ⟨hk, rfl, hrest⟩ | ⟨hk, hrest⟩
    · rw [if_pos hk, ih hrest, Option.getD_none, add_zero, Option.getD_some]
    · rw [if_neg hk, ih hrest, zero_add]

/-- A combination is the sum of its stored entries. -/
lemma toFinsupp_eq_sum (r : LinComb κ) :
    r.toFinsupp = (r.toList.map fun e => Finsupp.single e.1 e.2).sum := by
  ext k
  rw [toFinsupp_apply, coeff_eq_getD]
  exact (sum_single_apply (SortedMap.lists_toList r.coeffs k)).symm

lemma toFinsupp_addScaled (r : LinComb κ) (factor : ℚ) (s : LinComb κ) :
    (r.addScaled factor s).toFinsupp = r.toFinsupp + factor • s.toFinsupp := by
  rw [addScaled, Std.ExtTreeMap.foldl_eq_foldl_toList]
  exact (toFinsupp_foldl_addAt s.toList factor r).trans (by rw [← toFinsupp_eq_sum])

lemma toFinsupp_scale (r : LinComb κ) (factor : ℚ) :
    (r.scale factor).toFinsupp = factor • r.toFinsupp := by
  ext k
  rw [Finsupp.smul_apply, toFinsupp_apply, toFinsupp_apply, coeff_eq_getD, coeff_eq_getD, scale,
    Std.ExtTreeMap.getElem?_map]
  cases r.coeffs[k]? with
  | none => simp
  | some a => simp [mul_comm]

lemma toFinsupp_erase (r : LinComb κ) (k : κ) :
    (r.erase k).toFinsupp = r.toFinsupp - Finsupp.single k (r.coeff k) := by
  classical
  ext j
  rw [toFinsupp_apply, coeff_erase, Finsupp.sub_apply, toFinsupp_apply, Finsupp.single_apply]
  split_ifs with h
  · rw [h, sub_self]
  · rw [sub_zero]

lemma toFinsupp_set (r : LinComb κ) (k : κ) (a : ℚ) :
    (r.set k a).toFinsupp = r.toFinsupp + Finsupp.single k (a - r.coeff k) := by
  classical
  ext j
  rw [toFinsupp_apply, coeff_set, Finsupp.add_apply, toFinsupp_apply, Finsupp.single_apply]
  split_ifs with h
  · rw [h]; ring
  · rw [add_zero]

lemma coeff_addScaled (r : LinComb κ) (factor : ℚ) (s : LinComb κ) (k : κ) :
    (r.addScaled factor s).coeff k = r.coeff k + factor * s.coeff k :=
  DFunLike.congr_fun (r.toFinsupp_addScaled factor s) k

lemma coeff_scale (r : LinComb κ) (factor : ℚ) (k : κ) :
    (r.scale factor).coeff k = factor * r.coeff k :=
  DFunLike.congr_fun (r.toFinsupp_scale factor) k

/-! ## Values -/

section Eval

variable {V W : Type} [AddCommGroup V] [Module ℚ V] [AddCommGroup W] [Module ℚ W]

/-- The value of a combination when each index stands for a vector. -/
noncomputable def eval (r : LinComb κ) (x : κ → V) : V := Finsupp.linearCombination ℚ x r.toFinsupp

@[simp] lemma eval_empty (x : κ → V) : (∅ : LinComb κ).eval x = 0 := by
  rw [eval, toFinsupp_empty, map_zero]

@[simp] lemma eval_single (k : κ) (x : κ → V) : (single k).eval x = x k := by
  rw [eval, toFinsupp_single, Finsupp.linearCombination_single, one_smul]

lemma eval_addScaled (r : LinComb κ) (factor : ℚ) (s : LinComb κ) (x : κ → V) :
    (r.addScaled factor s).eval x = r.eval x + factor • s.eval x := by
  rw [eval, toFinsupp_addScaled, map_add, map_smul, eval, eval]

lemma eval_scale (r : LinComb κ) (factor : ℚ) (x : κ → V) :
    (r.scale factor).eval x = factor • r.eval x := by
  rw [eval, toFinsupp_scale, map_smul, eval]

lemma eval_erase (r : LinComb κ) (k : κ) (x : κ → V) :
    (r.erase k).eval x = r.eval x - r.coeff k • x k := by
  rw [eval, toFinsupp_erase, map_sub, Finsupp.linearCombination_single, eval]

lemma eval_set (r : LinComb κ) (k : κ) (a : ℚ) (x : κ → V) :
    (r.set k a).eval x = r.eval x + (a - r.coeff k) • x k := by
  rw [eval, toFinsupp_set, map_add, Finsupp.linearCombination_single, eval]

/-- Only the indices with non-zero coefficients matter for the value. -/
lemma eval_congr {r : LinComb κ} {x y : κ → V} (h : ∀ k, r.coeff k ≠ 0 → x k = y k) :
    r.eval x = r.eval y := by
  rw [eval, eval, Finsupp.linearCombination_apply, Finsupp.linearCombination_apply]
  exact Finsupp.sum_congr fun k hk => by rw [h k (Finsupp.mem_support_iff.1 hk)]

/-- At a point that is zero but for one index, the value is the part of that index. -/
lemma eval_eq_coeff_smul {r : LinComb κ} {k : κ} {x : κ → V} (h : ∀ j, j ≠ k → x j = 0) :
    r.eval x = r.coeff k • x k := by
  rw [eval, Finsupp.linearCombination_apply, Finsupp.sum_eq_single k]
  · rw [toFinsupp_apply]
  · intro j _ hj
    rw [h j hj, smul_zero]
  · intro _
    rw [zero_smul]

lemma eval_piSingle [DecidableEq κ] (r : LinComb κ) (k : κ) (v : V) :
    r.eval (Pi.single k v) = r.coeff k • v := by
  rw [eval_eq_coeff_smul fun j hj => Pi.single_eq_of_ne (M := fun _ => V) hj v, Pi.single_eq_same]

lemma eval_sub (r : LinComb κ) (x y : κ → V) :
    r.eval x - r.eval y = r.eval fun k => x k - y k := by
  simp only [eval, Finsupp.linearCombination_apply, smul_sub, Finsupp.sum_sub]

/-- The value is the sum over the stored entries. -/
lemma eval_eq_sum (r : LinComb κ) (x : κ → V) :
    r.eval x = (r.toList.map fun e => e.2 • x e.1).sum := by
  rw [eval, toFinsupp_eq_sum, map_list_sum, List.map_map]
  simp only [Function.comp_def, Finsupp.linearCombination_single]

/-- Linear maps preserve values. -/
lemma map_eval (f : V →ₗ[ℚ] W) (r : LinComb κ) (x : κ → V) :
    f (r.eval x) = r.eval fun k => f (x k) :=
  Finsupp.apply_linearCombination ℚ f x r.toFinsupp

end Eval

/-- Adding up the parts of entries, one after the other. -/
lemma foldl_add_mul (entries : List (κ × ℚ)) (point : κ → ℚ) (c : ℚ) :
    entries.foldl (fun sum e => sum + e.2 * point e.1) c =
      c + (entries.map fun e => e.2 • point e.1).sum := by
  induction entries generalizing c with
  | nil => simp
  | cons e entries ih =>
    rw [List.foldl_cons, ih, List.map_cons, List.sum_cons, smul_eq_mul, add_assoc]

/-- The fold over the stored coefficients computes the value at a point. -/
lemma value_eq_eval (r : LinComb κ) (point : κ → ℚ) : r.value point = r.eval point := by
  rw [value, Std.ExtTreeMap.foldl_eq_foldl_toList, eval_eq_sum]
  exact (foldl_add_mul r.toList point 0).trans (zero_add _)

/-! ## Reduced combinations -/

/-- No stored coefficient is zero. -/
def IsReduced (r : LinComb κ) : Prop := ∀ k : κ, r.coeffs[k]? ≠ some 0

lemma isReduced_empty : (∅ : LinComb κ).IsReduced := by
  intro k
  change (∅ : Std.ExtTreeMap κ ℚ compare)[k]? ≠ some 0
  simp

lemma isReduced_single (k : κ) : (single k).IsReduced := by
  intro j
  simp only [single, Std.ExtTreeMap.empty_eq_emptyc, Std.ExtTreeMap.getElem?_insert]
  split_ifs <;> simp

/-- Adding at an index keeps a combination reduced: a sum of zero is dropped. -/
lemma IsReduced.addAt {r : LinComb κ} (h : r.IsReduced) (k : κ) (a : ℚ) :
    (r.addAt k a).IsReduced := by
  intro j
  simp only [LinComb.addAt, Std.ExtTreeMap.getElem?_alter]
  split_ifs with hj hz
  · simp
  · simpa using hz
  · exact h j

lemma IsReduced.foldl_addAt {r : LinComb κ} (h : r.IsReduced) (factor : ℚ)
    (entries : List (κ × ℚ)) :
    (entries.foldl (fun r e => r.addAt e.1 (factor * e.2)) r).IsReduced := by
  induction entries generalizing r with
  | nil => exact h
  | cons e entries ih => exact ih (h.addAt e.1 (factor * e.2))

/-- Adding a multiple of any combination keeps a combination reduced. -/
lemma IsReduced.addScaled {r : LinComb κ} (h : r.IsReduced) (factor : ℚ) (s : LinComb κ) :
    (r.addScaled factor s).IsReduced := by
  rw [LinComb.addScaled, Std.ExtTreeMap.foldl_eq_foldl_toList]
  exact h.foldl_addAt factor s.toList

lemma IsReduced.scale {r : LinComb κ} (h : r.IsReduced) {factor : ℚ} (hf : factor ≠ 0) :
    (r.scale factor).IsReduced := by
  intro k hk
  rw [LinComb.scale, Std.ExtTreeMap.getElem?_map, Option.map_eq_some_iff] at hk
  obtain ⟨a, ha, hz⟩ := hk
  rcases mul_eq_zero.1 hz with rfl | hz
  · exact h k ha
  · exact hf hz

lemma IsReduced.erase {r : LinComb κ} (h : r.IsReduced) (k : κ) : (r.erase k).IsReduced := by
  intro j
  simp only [LinComb.erase, Std.ExtTreeMap.getElem?_erase]
  split_ifs with hj
  · simp
  · exact h j

lemma IsReduced.set {r : LinComb κ} (h : r.IsReduced) (k : κ) {a : ℚ} (ha : a ≠ 0) :
    (r.set k a).IsReduced := by
  intro j
  simp only [LinComb.set, Std.ExtTreeMap.getElem?_insert]
  split_ifs with hj
  · simpa using ha
  · exact h j

/-- A reduced combination stores an index exactly when its coefficient is not zero. -/
lemma IsReduced.getElem?_eq_some_iff {r : LinComb κ} (h : r.IsReduced) {k : κ} {a : ℚ} :
    r.coeffs[k]? = some a ↔ r.coeff k = a ∧ a ≠ 0 := by
  refine ⟨fun hk => ⟨coeff_of_getElem? hk, ?_⟩, fun ⟨hk, ha⟩ => ?_⟩
  · rintro rfl
    exact h k hk
  · rw [getElem?_of_coeff_ne_zero (hk ▸ ha), hk]

/-- Reduced combinations with the same coefficients are equal. -/
lemma IsReduced.ext {r s : LinComb κ} (hr : r.IsReduced) (hs : s.IsReduced)
    (h : r.toFinsupp = s.toFinsupp) : r = s := by
  have hcoeffs : r.coeffs = s.coeffs := by
    refine Std.ExtTreeMap.ext_getElem? fun k => Option.ext fun a => ?_
    have hk : r.coeff k = s.coeff k := DFunLike.congr_fun h k
    rw [hr.getElem?_eq_some_iff, hs.getElem?_eq_some_iff, hk]
  cases r
  cases s
  exact congrArg LinComb.mk hcoeffs

/-- A reduced combination is empty exactly when it is the zero vector. -/
lemma IsReduced.isEmpty_iff {r : LinComb κ} (h : r.IsReduced) :
    r.isEmpty = true ↔ r.toFinsupp = 0 := by
  refine ⟨fun he => ?_, fun hz => ?_⟩
  · have : r = ∅ := by
      cases r
      exact congrArg LinComb.mk (Std.ExtTreeMap.isEmpty_iff.1 he)
    rw [this, toFinsupp_empty]
  · rw [h.ext isReduced_empty (hz.trans toFinsupp_empty.symm)]
    exact Std.ExtTreeMap.isEmpty_empty

/-- A reduced combination that is not empty has a coefficient that is not zero. -/
lemma IsReduced.exists_coeff_ne_zero {r : LinComb κ} (h : r.IsReduced) (hne : r.isEmpty = false) :
    ∃ k, r.coeff k ≠ 0 := by
  have hz : r.toFinsupp ≠ 0 := fun hz => by simp [h.isEmpty_iff.2 hz] at hne
  exact Finsupp.ne_iff.1 hz

/-- A reduced combination that is not empty takes every value. -/
lemma IsReduced.exists_eval_eq {r : LinComb κ} (h : r.IsReduced) (hne : r.isEmpty = false) (q : ℚ) :
    ∃ x : κ → ℚ, r.eval x = q := by
  classical
  obtain ⟨k, hk⟩ := h.exists_coeff_ne_zero hne
  exact ⟨Pi.single k (q / r.coeff k), by rw [eval_piSingle, smul_eq_mul, mul_div_cancel₀ q hk]⟩

end ExactArith.LinComb
