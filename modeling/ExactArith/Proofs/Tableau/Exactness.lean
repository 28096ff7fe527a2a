import ExactArith.Proofs.Tableau.StoredZeros

set_option autoImplicit false
set_option relaxedAutoImplicit false

/-!
# The search is exact

A search on comparisons that do not contradict each other on a slack either ends with values that
solve the definitions of the slacks and are within all bounds, or with a row that excludes all such
values: its variable is kept beyond one of its bounds wherever the other variables of the row are
within theirs. Both are about pairs, in their lexicographic order.

## Main definitions

* `ExactArith.Tableau.IsBlocked` — a row keeps its variable beyond one of its bounds.

## Main results

* `ExactArith.Tableau.WellFormed.isBlocked_of_step_eq_noRepair` — a violated row without a repair is
  blocked.
* `ExactArith.Tableau.run_exact` — the two endings of a search, for any comparisons.
-/

namespace ExactArith.Tableau

/-! ## Blocked rows -/

/-- The row of a variable keeps it beyond one of its bounds wherever the variables of the row, none
of which is basic, are within theirs. -/
def IsBlocked (t : Tableau) (k : ℕ) : Prop :=
  ∃ row, t.rows[k]? = some row ∧ (∀ j, row.coeff j ≠ 0 → t.rows[j]? = none) ∧
    ((∃ b, t.lower[k]? = some b ∧ ∀ y : ℕ → DeltaRat,
        (∀ j, row.coeff j ≠ 0 → t.InBounds j (y j)) → row.eval y < b) ∨
      ∃ b, t.upper[k]? = some b ∧ ∀ y : ℕ → DeltaRat,
        (∀ j, row.coeff j ≠ 0 → t.InBounds j (y j)) → b < row.eval y)

/-- **A violated row in which no variable can give way is blocked.**

**Proof sketch.** Within its bounds no variable of the row moves the row towards the violated bound,
so the row stays where its value is, or gets farther away. -/
lemma WellFormed.isBlocked_of_step_eq_noRepair {t : Tableau} (h : t.WellFormed) {basic : ℕ}
    (hstep : t.step = .noRepair basic) : t.IsBlocked basic := by
  obtain ⟨v, rfl, hrow, hv, hblocked⟩ := step_eq_noRepair hstep
  have hmove : ∀ y : ℕ → DeltaRat, (∀ j, v.row.coeff j ≠ 0 → t.InBounds j (y j)) →
      direction v.tooSmall • (v.row.eval y - t.value v.basic) ≤ 0 := by
    intro y hy
    rw [h.value_solves v.basic v.row hrow]
    refine smul_eval_sub_nonpos fun j hj => ?_
    exact smul_nonpos_of_canRepair_eq_false hj
      (hblocked j _ (LinComb.getElem?_of_coeff_ne_zero hj)) (hy j hj)
  refine ⟨v.row, hrow, fun j hj => (h.row_support v.basic v.row j hrow hj).2, ?_⟩
  rcases violated?_eq_some hv with ⟨hsmall, hb, hlt⟩ | ⟨hlarge, hb, hlt⟩
  · refine Or.inl ⟨v.target, hb, fun y hy => ?_⟩
    have hle := hmove y hy
    rw [hsmall, direction, if_pos rfl, one_smul, sub_nonpos] at hle
    exact hle.trans_lt hlt
  · refine Or.inr ⟨v.target, hb, fun y hy => ?_⟩
    have hle := hmove y hy
    rw [hlarge, direction, if_neg Bool.false_ne_true, neg_smul, one_smul, neg_sub,
      sub_nonpos] at hle
    exact hlt.trans_le hle

/-- A row is blocked if it is without the zeros that it stores. -/
lemma Reduces.isBlocked {t s : Tableau} (h : t.Reduces s) {k : ℕ} (hs : s.IsBlocked k) :
    t.IsBlocked k := by
  obtain ⟨row', hrow', hnonbasic, hbound⟩ := hs
  rw [h.getElem?_rows] at hrow'
  obtain ⟨row, hrow, rfl⟩ := Option.map_eq_some_iff.1 hrow'
  have hin : ∀ j y, s.InBounds j y ↔ t.InBounds j y := fun j y => h.inBounds_iff
  simp only [LinComb.coeff_dropZeros, LinComb.eval_dropZeros, hin, h.lower, h.upper,
    h.getElem?_rows, Option.map_eq_none_iff] at hnonbasic hbound
  exact ⟨row, hrow, hnonbasic, hbound⟩

/-! ## The two endings -/

/-- **The search is exact**, for any comparisons, none of which contradicts the earlier ones on its
slack. It never has to invert zero if no form stores a coefficient that is zero. If it does not have
to, then a feasible ending leaves values that solve the definitions of all slacks and are within all
bounds; and the other ending leaves a blocked row, and no values that solve the definitions of the
slacks are within all bounds.

**Proof sketch.** Without the zeros that are stored, the search makes the same pivots from a tableau
that is well-formed, and there both endings are known to be right. -/
theorem run_exact {cs : List Comparison} {t : Tableau} (ht : assertAll? ∅ cs = some t)
    (budget : ℕ) :
    ((∀ c ∈ cs, c.form.IsReduced) → t.invertsZeroWithin budget = false) ∧
    (t.invertsZeroWithin budget = false →
      ((t.run budget).ending = .feasible →
        t.SolvesSlacks (t.run budget).final.value ∧ t.Meets (t.run budget).final.value) ∧
      ∀ basic, (t.run budget).ending = .noRepair basic →
        (t.run budget).final.IsBlocked basic ∧
          ∀ x : ℕ → DeltaRat, t.SolvesSlacks x → ¬t.Meets x) := by
  have hconsistent := isConsistent_of_assertAll? ht
  obtain rfl := eq_assertAll_of_assertAll? ht
  have hs := wellFormed_dropZeros hconsistent
  refine ⟨fun hcs => ?_, fun hz => ?_⟩
  · have hfresh := (keeps_assertAll hcs).toIsFresh
    exact (hfresh.wellFormed hconsistent).invertsZeroWithin_eq_false budget
  · have hfinal := (reduces_dropZeros _).final_run hs hz
    have hvalue := funext hfinal.value
    obtain ⟨hwf, hsystem⟩ := hs.run budget
    have hlast := (run_reaches budget (assertAll ∅ cs)).2
    refine ⟨fun hend => ⟨solvesSlacks_run hconsistent hz, ?_⟩, fun basic hend => ?_⟩
    · rw [hend] at hlast
      have hmeets := hwf.meets_of_step_eq_feasible (hfinal.step_eq_feasible hlast)
      rw [hsystem.meets_iff, hvalue] at hmeets
      exact hmeets
    · rw [hend] at hlast
      have hstep := hfinal.step_eq_noRepair hlast
      refine ⟨hfinal.isBlocked (hwf.isBlocked_of_step_eq_noRepair hstep), fun x hx hmeets => ?_⟩
      refine hwf.not_meets_of_step_eq_noRepair hstep ?_ (hsystem.meets_iff.2 hmeets)
      exact hsystem.solvesSlacks_iff.2 (solvesSlacks_dropZeros_iff.2 hx)

/-- For `x + y ≥ 3`, `x ≤ 1` and `y ≤ 1`, two pivots lead to the row that blocks the slack of
`y`. -/
theorem run_exact_sum :
    ((assertAll ∅ [⟨⟨(LinComb.single "x").addAt "y" 1, -3⟩, .ge⟩, ⟨⟨.single "x", -1⟩, .le⟩,
      ⟨⟨.single "y", -1⟩, .le⟩]).run 2).ending = .noRepair 4 ∧
    ((assertAll ∅ [⟨⟨(LinComb.single "x").addAt "y" 1, -3⟩, .ge⟩, ⟨⟨.single "x", -1⟩, .le⟩,
      ⟨⟨.single "y", -1⟩, .le⟩]).run 2).final.IsBlocked 4 := by
  have hsome : (assertAll? ∅ [⟨⟨(LinComb.single "x").addAt "y" 1, -3⟩, .ge⟩,
      ⟨⟨.single "x", -1⟩, .le⟩, ⟨⟨.single "y", -1⟩, .le⟩]).isSome = true := by
    decide +kernel
  obtain ⟨t, ht⟩ := Option.isSome_iff_exists.1 hsome
  obtain ⟨hreduced, hexact⟩ := run_exact ht 2
  obtain rfl := eq_assertAll_of_assertAll? ht
  have hend : ((assertAll ∅ [⟨⟨(LinComb.single "x").addAt "y" 1, -3⟩, .ge⟩,
      ⟨⟨.single "x", -1⟩, .le⟩, ⟨⟨.single "y", -1⟩, .le⟩]).run 2).ending = .noRepair 4 := by
    decide +kernel
  refine ⟨hend, ((hexact (hreduced fun c hc => ?_)).2 4 hend).1⟩
  simp only [List.mem_cons, List.not_mem_nil, or_false] at hc
  rcases hc with rfl | rfl | rfl
  · exact (LinComb.isReduced_single "x").addAt "y" 1
  · exact LinComb.isReduced_single "x"
  · exact LinComb.isReduced_single "y"

end ExactArith.Tableau
