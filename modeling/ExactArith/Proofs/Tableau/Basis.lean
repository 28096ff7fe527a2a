import ExactArith.Proofs.Tableau.Assertions
import ExactArith.Proofs.Tableau.Search
import Mathlib.Combinatorics.Enumerative.DoubleCounting

set_option autoImplicit false
set_option relaxedAutoImplicit false

/-!
# The number of basic variables

A pivot exchanges one basic variable for another, so the search keeps their number. Before the
search the basic variables are the slacks, one for each combination that is compared. A problem
variable is zero unless it is basic; hence at most as many names get a value other than zero as
there are combinations.

## Main results

* `ExactArith.Tableau.WellFormed.size_rows_pivot`,
  `ExactArith.Tableau.WellFormed.size_rows_of_reaches` — pivots keep the number of basic variables.
* `ExactArith.Tableau.WellFormed.length_le_size_rows` — names with other values than zero have basic
  variables.
* `ExactArith.Tableau.Keeps.size_rows_eq` — before the search there are as many basic variables as
  combinations.
-/

namespace ExactArith.Tableau

namespace WellFormed

variable {t : Tableau}

/-- **A pivot keeps the number of basic variables**: the leaving variable was one, and the entering
variable was not. -/
lemma size_rows_pivot (h : t.WellFormed) {v : Violation} {entering : ℕ} {a : ℚ}
    (hc : t.IsChoice v entering a) : (t.pivot v entering a).rows.size = t.rows.size := by
  have hleaving : v.basic ∈ t.rows :=
    Std.ExtTreeMap.mem_iff_isSome_getElem?.2 (by rw [hc.row_eq]; rfl)
  have hpos : 0 < t.rows.size := by
    rw [← Std.ExtTreeMap.length_keys]
    exact List.length_pos_of_mem (Std.ExtTreeMap.mem_keys.2 hleaving)
  have hentering : t.rows.contains entering = false := by
    rw [Std.ExtTreeMap.contains_eq_isSome_getElem?, (h.rows_entering hc).2]
    rfl
  have hnew : ((t.rows.erase v.basic).map fun _ row =>
      substitute row entering (solvedRow v.row v.basic entering a)).contains entering = false := by
    simp [hentering]
  rw [Tableau.pivot]
  dsimp only
  rw [Std.ExtTreeMap.size_insert, hnew, if_neg Bool.false_ne_true, Std.ExtTreeMap.size_map,
    Std.ExtTreeMap.size_erase, if_pos (by simpa using hleaving)]
  exact Nat.sub_add_cancel hpos

/-- Pivots keep the number of basic variables. -/
lemma size_rows_of_reaches (h : t.WellFormed) {u : Tableau}
    (hu : Relation.ReflTransGen PivotsTo t u) : u.rows.size = t.rows.size := by
  induction hu with
  | refl => rfl
  | tail hu hlast ih =>
    obtain ⟨leaving, entering, hstep⟩ := hlast
    obtain ⟨v, a, hc, -, rfl⟩ := step_eq_pivot hstep
    rw [(h.reaches hu).1.size_rows_pivot hc, ih]

/-- The search keeps the number of basic variables. -/
lemma size_rows_run (h : t.WellFormed) (budget : ℕ) :
    (t.run budget).final.rows.size = t.rows.size :=
  h.size_rows_of_reaches (run_reaches budget t).1

/-- **Names whose values are not zero have basic variables**, and different ones. -/
lemma length_le_size_rows (h : t.WellFormed) {names : List String} (hnodup : names.Nodup)
    (hvalue : ∀ name ∈ names, ∃ k, t.numbers[name]? = some k ∧ t.value k ≠ 0) :
    names.length ≤ t.rows.size := by
  rw [← List.toFinset_card_of_nodup hnodup, ← Std.ExtTreeMap.length_keys,
    ← List.toFinset_card_of_nodup Std.ExtTreeMap.nodup_keys]
  refine Finset.card_le_card_of_forall_subsingleton (fun name k => t.numbers[name]? = some k)
    (fun name hname => ?_) fun k _ name hname other hother =>
      h.number_inj name other k hname.2 hother.2
  obtain ⟨k, hk, hne⟩ := hvalue name (List.mem_toFinset.1 hname)
  refine ⟨k, List.mem_toFinset.2 (Std.ExtTreeMap.mem_keys.2 ?_), hk⟩
  rw [Std.ExtTreeMap.mem_iff_isSome_getElem?, Option.isSome_iff_ne_none]
  exact fun hnone => hne (h.nonbasic_number name k hk hnone)

end WellFormed

/-- **Before the search there are no more basic variables than combinations**: each basic variable
is the slack of a combination, and a combination has one slack. -/
lemma Keeps.size_rows_le {t : Tableau} {cs : List Comparison} (h : t.Keeps cs)
    (hcs : t.StemsFrom cs) :
    t.rows.size ≤ (cs.map fun c => c.form.coefficients).dedup.length := by
  rw [← Std.ExtTreeMap.length_keys, ← List.toFinset_card_of_nodup Std.ExtTreeMap.nodup_keys,
    ← List.card_toFinset]
  refine Finset.card_le_card_of_forall_subsingleton
    (fun k d => ∃ row, (row, k) ∈ t.slacks ∧ t.Transcribes row d) (fun k hk => ?_) ?_
  · rw [List.mem_toFinset, Std.ExtTreeMap.mem_keys, Std.ExtTreeMap.mem_iff_isSome_getElem?,
      Option.isSome_iff_exists] at hk
    obtain ⟨row, hrow⟩ := hk
    have hslack := (h.rows_iff k row).1 hrow
    obtain ⟨c, hc, htranscribes⟩ := hcs.slack row k hslack
    exact ⟨_, List.mem_toFinset.2 (List.mem_map.2 ⟨c, hc, rfl⟩), row, hslack, htranscribes⟩
  · rintro d - j ⟨-, row, hj, hrow⟩ k ⟨-, other, hk, hother⟩
    exact h.sharesSlacks row j k hj (hother.unique hrow ▸ hk)

/-- **Before the search there are as many basic variables as combinations**: different combinations
have different slacks, which are all basic. -/
lemma Keeps.size_rows_eq {t : Tableau} {cs : List Comparison} (h : t.Keeps cs)
    (hcs : t.StemsFrom cs) :
    t.rows.size = (cs.map fun c => c.form.coefficients).dedup.length := by
  refine (h.size_rows_le hcs).antisymm ?_
  rw [← Std.ExtTreeMap.length_keys, ← List.toFinset_card_of_nodup Std.ExtTreeMap.nodup_keys,
    ← List.card_toFinset]
  refine Finset.card_le_card_of_forall_subsingleton
    (fun d k => ∃ row, (row, k) ∈ t.slacks ∧ t.Transcribes row d) (fun d hd => ?_) ?_
  · obtain ⟨c, hc, rfl⟩ := List.mem_map.1 (List.mem_toFinset.1 hd)
    obtain ⟨row, k, hk, hrow⟩ := h.exists_slack c hc
    refine ⟨k, List.mem_toFinset.2 (Std.ExtTreeMap.mem_keys.2 ?_), row, hk, hrow⟩
    rw [Std.ExtTreeMap.mem_iff_isSome_getElem?, (h.rows_iff k row).2 hk]
    rfl
  · rintro k - d ⟨-, row, hrow, hd⟩ e ⟨-, other, hother, he⟩
    exact hd.injective (h.slack_inj other row k hother hrow ▸ he)

end ExactArith.Tableau
