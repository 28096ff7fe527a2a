import ExactArith.Proofs.Tableau.Reachable

set_option autoImplicit false
set_option relaxedAutoImplicit false

/-!
# Assertions with other coefficients

While comparisons are asserted, all values are zero, and coefficients are only stored and compared
with each other. So if each coefficient is replaced by another one, different ones by different
ones, the tableau is the same but for the coefficients. The new ones can be chosen other than zero,
which gives what is known of reduced forms for forms that store zeros as well.

## Main definitions

* `ExactArith.LinComb.mapCoeffs`, `ExactArith.Comparison.mapCoeffs`,
  `ExactArith.Tableau.mapCoeffs` — other coefficients in combinations, comparisons and tableaux.
* `ExactArith.awayFromZero` — a choice of other coefficients, none of which is zero.

## Main results

* `ExactArith.Tableau.assertAll_mapCoeffs` — comparisons with other coefficients are
  asserted alike.
* `ExactArith.Tableau.keeps_awayFromZero` — comparisons with coefficients away from zero are kept.
-/

namespace ExactArith

/-! ## Combinations -/

namespace LinComb

section

variable {κ : Type} [Ord κ]

/-- A combination with other coefficients. -/
def mapCoeffs (f : ℚ → ℚ) (r : LinComb κ) : LinComb κ := ⟨r.coeffs.map fun _ a => f a⟩

variable [Std.TransOrd κ]

lemma toList_mapCoeffs (f : ℚ → ℚ) (r : LinComb κ) :
    (r.mapCoeffs f).toList = r.toList.map fun e => (e.1, f e.2) :=
  Std.ExtTreeMap.toList_map

variable [Std.LawfulEqOrd κ] {f : ℚ → ℚ}

lemma getElem?_mapCoeffs (f : ℚ → ℚ) (r : LinComb κ) (k : κ) :
    (r.mapCoeffs f).coeffs[k]? = (r.coeffs[k]?).map f :=
  Std.ExtTreeMap.getElem?_map

lemma mapCoeffs_injective (hf : Function.Injective f) :
    Function.Injective (mapCoeffs f : LinComb κ → LinComb κ) := by
  rintro ⟨r⟩ ⟨s⟩ h
  refine congrArg LinComb.mk (Std.ExtTreeMap.ext_getElem? fun k => ?_)
  apply Option.map_injective hf
  rw [← getElem?_mapCoeffs f ⟨r⟩, ← getElem?_mapCoeffs f ⟨s⟩, h]

lemma mapCoeffs_empty (f : ℚ → ℚ) : (∅ : LinComb κ).mapCoeffs f = ∅ := by
  refine congrArg LinComb.mk (Std.ExtTreeMap.ext_getElem? fun k => ?_)
  rw [Std.ExtTreeMap.getElem?_map]
  change Option.map _ (∅ : Std.ExtTreeMap κ ℚ compare)[k]? = (∅ : Std.ExtTreeMap κ ℚ compare)[k]?
  simp

lemma mapCoeffs_set (f : ℚ → ℚ) (r : LinComb κ) (k : κ) (a : ℚ) :
    (r.set k a).mapCoeffs f = (r.mapCoeffs f).set k (f a) := by
  refine congrArg LinComb.mk (Std.ExtTreeMap.ext_getElem? fun j => ?_)
  simp only [set, mapCoeffs, Std.ExtTreeMap.getElem?_map, Std.ExtTreeMap.getElem?_insert]
  split_ifs <;> rfl

lemma isReduced_mapCoeffs (hf : ∀ a, f a ≠ 0) (r : LinComb κ) : (r.mapCoeffs f).IsReduced := by
  intro k hk
  rw [getElem?_mapCoeffs] at hk
  obtain ⟨a, -, ha⟩ := Option.map_eq_some_iff.1 hk
  exact hf a ha

/-- A coefficient that is not zero is stored, and so is the other one. -/
lemma coeff_mapCoeffs_ne_zero (hf : ∀ a, f a ≠ 0) {r : LinComb κ} {k : κ} (hk : r.coeff k ≠ 0) :
    (r.mapCoeffs f).coeff k ≠ 0 := by
  have hstored : (r.mapCoeffs f).coeffs[k]? = some (f (r.coeff k)) := by
    rw [getElem?_mapCoeffs, getElem?_of_coeff_ne_zero hk, Option.map_some]
  rw [coeff_of_getElem? hstored]
  exact hf _

/-- Coefficients are equal if the other ones are. -/
lemma coeff_eq_of_mapCoeffs {ι : Type} [Ord ι] [Std.TransOrd ι] [Std.LawfulEqOrd ι]
    (hf : Function.Injective f) (hzero : ∀ a, f a ≠ 0) {r : LinComb κ} {s : LinComb ι} {k : κ}
    {j : ι} (h : (r.mapCoeffs f).coeff k = (s.mapCoeffs f).coeff j) : r.coeff k = s.coeff j := by
  rw [coeff_eq_getD, coeff_eq_getD, getElem?_mapCoeffs, getElem?_mapCoeffs] at h
  rw [coeff_eq_getD, coeff_eq_getD]
  cases hr : r.coeffs[k]? <;> cases hs : s.coeffs[j]? <;> simp only [hr, hs, Option.map_none,
    Option.map_some, Option.getD_none, Option.getD_some] at h ⊢
  · exact absurd h.symm (hzero _)
  · exact absurd h (hzero _)
  · exact hf h

end

end LinComb

/-- A rational number that is not zero, and a different one for each. -/
def awayFromZero (a : ℚ) : ℚ := if 0 ≤ a then a + 1 else a

lemma awayFromZero_ne_zero (a : ℚ) : awayFromZero a ≠ 0 := by
  rw [awayFromZero]
  split_ifs with h
  · exact (add_pos_of_nonneg_of_pos h one_pos).ne'
  · exact (not_le.1 h).ne

lemma awayFromZero_injective : Function.Injective awayFromZero := by
  intro a b h
  rw [awayFromZero, awayFromZero] at h
  split_ifs at h <;> linarith

/-! ## Comparisons -/

namespace Comparison

variable {f : ℚ → ℚ}

/-- A comparison with other coefficients. -/
def mapCoeffs (f : ℚ → ℚ) (c : Comparison) : Comparison :=
  ⟨⟨c.form.coefficients.mapCoeffs f, c.form.constant⟩, c.relation⟩

/-- Comparisons with other coefficients put the same bounds on a combination with these. -/
lemma lowerBounds_mapCoeffs (hf : Function.Injective f) (cs : List Comparison)
    (d : LinComb String) :
    lowerBounds (cs.map (mapCoeffs f)) (d.mapCoeffs f) = lowerBounds cs d := by
  rw [lowerBounds, lowerBounds, List.filter_map, List.filterMap_map]
  congr 1
  refine List.filter_congr fun c _ => decide_eq_decide.2 ?_
  exact (LinComb.mapCoeffs_injective hf).eq_iff

lemma upperBounds_mapCoeffs (hf : Function.Injective f) (cs : List Comparison)
    (d : LinComb String) :
    upperBounds (cs.map (mapCoeffs f)) (d.mapCoeffs f) = upperBounds cs d := by
  rw [upperBounds, upperBounds, List.filter_map, List.filterMap_map]
  congr 1
  refine List.filter_congr fun c _ => decide_eq_decide.2 ?_
  exact (LinComb.mapCoeffs_injective hf).eq_iff

end Comparison

/-! ## Tableaux -/

namespace Tableau

/-- A tableau with other coefficients. -/
def mapCoeffs (f : ℚ → ℚ) (t : Tableau) : Tableau :=
  { t with
    slacks := t.slacks.map fun e => (e.1.mapCoeffs f, e.2)
    rows := t.rows.map fun _ row => row.mapCoeffs f }

section MapCoeffs

variable {f : ℚ → ℚ} (t : Tableau)

lemma mapCoeffs_empty (f : ℚ → ℚ) : (∅ : Tableau).mapCoeffs f = ∅ := by
  have hrows : (∅ : Std.ExtTreeMap ℕ (LinComb ℕ) compare).map (fun _ row => row.mapCoeffs f) = ∅ :=
    Std.ExtTreeMap.ext_getElem? fun k => by simp
  change (⟨0, ∅, [], _, ∅, ∅, ∅⟩ : Tableau) = ⟨0, ∅, [], ∅, ∅, ∅, ∅⟩
  exact congrArg (fun rows => (⟨0, ∅, [], rows, ∅, ∅, ∅⟩ : Tableau)) hrows

lemma number_mapCoeffs (name : String) :
    (t.mapCoeffs f).number name = ((t.number name).1, (t.number name).2.mapCoeffs f) := by
  rw [number, number, show (t.mapCoeffs f).numbers = t.numbers from rfl]
  cases t.numbers[name]? <;> rfl

lemma foldl_enterEntry_mapCoeffs (entries : List (String × ℚ)) (s : LinComb ℕ × Tableau) :
    (entries.map fun e => (e.1, f e.2)).foldl enterEntry (s.1.mapCoeffs f, s.2.mapCoeffs f) =
      ((entries.foldl enterEntry s).1.mapCoeffs f, (entries.foldl enterEntry s).2.mapCoeffs f) := by
  induction entries generalizing s with
  | nil => rfl
  | cons e entries ih =>
    rw [List.map_cons, List.foldl_cons, List.foldl_cons, ← ih, enterEntry, enterEntry,
      number_mapCoeffs, LinComb.mapCoeffs_set]

lemma combination_mapCoeffs (d : LinComb String) :
    (t.mapCoeffs f).combination (d.mapCoeffs f) =
      ((t.combination d).1.mapCoeffs f, (t.combination d).2.mapCoeffs f) := by
  rw [combination_eq_foldl, combination_eq_foldl, LinComb.toList_mapCoeffs,
    ← foldl_enterEntry_mapCoeffs, LinComb.mapCoeffs_empty]

lemma lookup_mapCoeffs (hf : Function.Injective f) (slacks : List (LinComb ℕ × ℕ))
    (row : LinComb ℕ) :
    (slacks.map fun e => (e.1.mapCoeffs f, e.2)).lookup (row.mapCoeffs f) = slacks.lookup row := by
  induction slacks with
  | nil => rfl
  | cons e slacks ih =>
    have heq : (row.mapCoeffs f == e.1.mapCoeffs f) = (row == e.1) :=
      decide_eq_decide.2 (LinComb.mapCoeffs_injective hf).eq_iff
    rw [List.map_cons, List.lookup_cons, List.lookup_cons, heq, ih]

variable {t}

/-- Where all values are zero, so is that of every combination. -/
lemma rowValue_eq_zero (ht : ∀ k, t.value k = 0) (row : LinComb ℕ) : t.rowValue row = 0 := by
  have hzero : t.value = fun _ => 0 := funext ht
  rw [rowValue_eq_eval, hzero, LinComb.eval_eq_sum]
  simp

lemma slack_mapCoeffs (hf : Function.Injective f) (ht : ∀ k, t.value k = 0) (row : LinComb ℕ) :
    (t.mapCoeffs f).slack (row.mapCoeffs f) =
      ((t.slack row).1, (t.slack row).2.mapCoeffs f) := by
  have hlookup : (t.mapCoeffs f).slacks.lookup (row.mapCoeffs f) = t.slacks.lookup row :=
    lookup_mapCoeffs hf t.slacks row
  have hvalue : (t.mapCoeffs f).rowValue (row.mapCoeffs f) = t.rowValue row :=
    (rowValue_eq_zero (t := t.mapCoeffs f) ht _).trans (rowValue_eq_zero ht _).symm
  have hrows : (t.rows.map fun _ row => row.mapCoeffs f).insert t.size (row.mapCoeffs f) =
      (t.rows.insert t.size row).map fun _ row => row.mapCoeffs f := by
    refine Std.ExtTreeMap.ext_getElem? fun k => ?_
    simp only [Std.ExtTreeMap.getElem?_map, Std.ExtTreeMap.getElem?_insert]
    split_ifs <;> rfl
  rw [slack, slack, hlookup, hvalue]
  cases t.slacks.lookup row with
  | some k => rfl
  | none =>
    simp only [mapCoeffs, hrows, List.map_cons]

lemma tightenLower_mapCoeffs (k : ℕ) (b : DeltaRat) :
    (t.mapCoeffs f).tightenLower k b = (t.tightenLower k b).mapCoeffs f := by
  rw [tightenLower, tightenLower, show (t.mapCoeffs f).lower = t.lower from rfl]
  split_ifs <;> rfl

lemma tightenUpper_mapCoeffs (k : ℕ) (b : DeltaRat) :
    (t.mapCoeffs f).tightenUpper k b = (t.tightenUpper k b).mapCoeffs f := by
  rw [tightenUpper, tightenUpper, show (t.mapCoeffs f).upper = t.upper from rfl]
  split_ifs <;> rfl

lemma bound_mapCoeffs (k : ℕ) (relation : Relation) (b : ℚ) :
    (t.mapCoeffs f).bound k relation b = (t.bound k relation b).mapCoeffs f := by
  cases relation <;> simp only [bound, tightenLower_mapCoeffs, tightenUpper_mapCoeffs]

end MapCoeffs

/-! ## Assertions -/

section Values

variable {t : Tableau}

@[simp] lemma values_number (t : Tableau) (name : String) :
    (t.number name).2.values = t.values := by
  rw [number]
  split <;> rfl

lemma values_foldl_enterEntry (entries : List (String × ℚ)) (s : LinComb ℕ × Tableau) :
    (entries.foldl enterEntry s).2.values = s.2.values := by
  induction entries generalizing s with
  | nil => rfl
  | cons e entries ih => exact (ih _).trans (values_number s.2 e.1)

@[simp] lemma values_combination (t : Tableau) (d : LinComb String) :
    (t.combination d).2.values = t.values :=
  values_foldl_enterEntry d.toList (∅, t)

/-- A new slack has the value zero where all others have. -/
lemma value_slack (ht : ∀ k, t.value k = 0) (row : LinComb ℕ) (k : ℕ) :
    (t.slack row).2.value k = 0 := by
  rw [slack]
  split
  · exact ht k
  · change (t.values.insert t.size (t.rowValue row)).getD k 0 = 0
    rw [Std.ExtTreeMap.getD_insert, rowValue_eq_zero ht]
    split_ifs
    · rfl
    · exact ht k

lemma value_combination (ht : ∀ k, t.value k = 0) (d : LinComb String) (k : ℕ) :
    (t.combination d).2.value k = 0 := by
  rw [value, values_combination]
  exact ht k

@[simp] lemma values_bound (t : Tableau) (k : ℕ) (relation : Relation) (b : ℚ) :
    (t.bound k relation b).values = t.values := by
  obtain ⟨lower, upper, heq, -⟩ := t.exists_bound_eq k relation b
  rw [heq]

/-- **Assertions leave all values at zero.** -/
lemma value_assert (ht : ∀ k, t.value k = 0) (form : LinearForm) (relation : Relation) (k : ℕ) :
    (t.assert form relation).2.value k = 0 := by
  have hcombination := value_combination ht form.coefficients
  set row := (t.combination form.coefficients).1
  set u := (t.combination form.coefficients).2
  change ((u.slack row).2.bound (u.slack row).1 relation (-form.constant)).value k = 0
  rw [value, values_bound]
  exact value_slack hcombination row k

lemma value_assertAll (ht : ∀ k, t.value k = 0) (cs : List Comparison) (k : ℕ) :
    (t.assertAll cs).value k = 0 := by
  induction cs generalizing t with
  | nil => exact ht k
  | cons c cs ih => exact ih (value_assert ht c.form c.relation)

end Values

section Assertions

variable {f : ℚ → ℚ} {t : Tableau}

/-- **A comparison with other coefficients is asserted alike**, on the same slack. -/
lemma assert_mapCoeffs (hf : Function.Injective f) (ht : ∀ k, t.value k = 0) (c : Comparison) :
    (t.mapCoeffs f).assert (c.mapCoeffs f).form (c.mapCoeffs f).relation =
      ((t.assert c.form c.relation).1, (t.assert c.form c.relation).2.mapCoeffs f) := by
  rw [assert, assert]
  simp only [Comparison.mapCoeffs, combination_mapCoeffs,
    slack_mapCoeffs hf (value_combination ht c.form.coefficients), bound_mapCoeffs]

/-- **Comparisons with other coefficients are asserted alike.** -/
lemma assertAll_mapCoeffs (hf : Function.Injective f) (ht : ∀ k, t.value k = 0)
    (cs : List Comparison) :
    (t.mapCoeffs f).assertAll (cs.map (Comparison.mapCoeffs f)) = (t.assertAll cs).mapCoeffs f := by
  induction cs generalizing t with
  | nil => rfl
  | cons c cs ih =>
    rw [List.map_cons, assertAll, List.foldl_cons, assert_mapCoeffs hf ht]
    exact ih (value_assert ht c.form c.relation)

/-- A contradiction shows alike with other coefficients. -/
lemma assertAll?_mapCoeffs (hf : Function.Injective f) (ht : ∀ k, t.value k = 0)
    (cs : List Comparison) :
    (t.mapCoeffs f).assertAll? (cs.map (Comparison.mapCoeffs f)) =
      (t.assertAll? cs).map (mapCoeffs f) := by
  induction cs generalizing t with
  | nil => rfl
  | cons c cs ih =>
    have hconflict : ∀ k, ((t.assert c.form c.relation).2.mapCoeffs f).isConflicting k =
        (t.assert c.form c.relation).2.isConflicting k := fun _ => rfl
    rw [List.map_cons, assertAll?, assertAll?, assert_mapCoeffs hf ht]
    dsimp only
    rw [hconflict, ih (value_assert ht c.form c.relation)]
    split_ifs <;> rfl

end Assertions

/-! ## Coefficients away from zero -/

section AwayFromZero

variable {f : ℚ → ℚ}

lemma value_empty (k : ℕ) : (∅ : Tableau).value k = 0 := isFresh_empty.value_eq k

/-- From the start, comparisons with other coefficients are asserted alike. -/
lemma assertAll_empty_mapCoeffs (hf : Function.Injective f) (cs : List Comparison) :
    assertAll ∅ (cs.map (Comparison.mapCoeffs f)) = (assertAll ∅ cs).mapCoeffs f := by
  rw [← assertAll_mapCoeffs hf value_empty, mapCoeffs_empty]

lemma isReduced_awayFromZero (cs : List Comparison) :
    ∀ c ∈ cs.map (Comparison.mapCoeffs awayFromZero), c.form.IsReduced :=
  List.forall_mem_map.2 fun _ _ => LinComb.isReduced_mapCoeffs awayFromZero_ne_zero _

/-- **Whatever comparisons are asserted, with coefficients away from zero they are kept**: their
combinations have one slack each, with the tightest bounds. -/
lemma keeps_awayFromZero (cs : List Comparison) :
    ((assertAll ∅ cs).mapCoeffs awayFromZero).Keeps
      (cs.map (Comparison.mapCoeffs awayFromZero)) := by
  rw [← assertAll_empty_mapCoeffs awayFromZero_injective]
  exact keeps_assertAll (isReduced_awayFromZero cs)

end AwayFromZero

end Tableau

end ExactArith
