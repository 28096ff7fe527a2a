import ExactArith.Proofs.Tableau.Assertions
import ExactArith.Proofs.Tableau.Concrete
import ExactArith.Proofs.Tableau.Search

set_option autoImplicit false
set_option relaxedAutoImplicit false

/-!
# The tableau of one comparison

With a single comparison there is a single row. If its slack is out of bounds at zero, any name of
the form can make up for it, since names have no bounds; the search takes the name of the smallest
variable, which is the first of the form, and moves the slack to its bound. After this pivot the
only basic variable is a name, so the search ends, and since the slack is at its bound there is no
limit on the concrete `δ` other than one.

## Main definitions

* `ExactArith.Comparison.target` — the number that the search moves the combination to.
* `ExactArith.Comparison.solution` — the values that the search finds for a comparison.

## Main results

* `ExactArith.Tableau.getElem?_numbers_assert` — the first name of a form gets the first variable.
* `ExactArith.Tableau.OneRow.step_cases` — the search is done, or pivots the first name.
* `ExactArith.Tableau.OneRow.run_eq` — the search makes one pivot at most and finds the solution.
-/

namespace ExactArith

/-! ## Solutions of a comparison -/

namespace Comparison

/-- The number that the search moves the combination of a comparison to, if zero does not satisfy
the comparison: the bound, or one beyond it if the comparison is strict. -/
def target (c : Comparison) : ℚ :=
  match c.relation with
  | .gt => -c.form.constant + 1
  | .lt => -c.form.constant - 1
  | .eq | .le | .ge => -c.form.constant

/-- The values that the search finds for a comparison when it moves the name `x`: all zero if that
satisfies the comparison, and otherwise all but that of `x`. -/
def solution (c : Comparison) (x name : String) : ℚ :=
  if c.relation.holds c.form.constant 0 then 0
  else if name = x then c.target / c.form.coefficients.coeff x
  else 0

variable {c : Comparison} {b : DeltaRat}

lemma solution_of_ne {x name : String} (h : name ≠ x) : c.solution x name = 0 := by
  rw [solution, if_neg h, ite_self]

lemma evalAt_one (h : c.lower? = some b ∨ c.upper? = some b) : b.evalAt 1 = c.target := by
  obtain ⟨form, relation⟩ := c
  cases relation <;> simp [lower?, upper?, Relation.lower?, Relation.upper?] at h <;> subst h <;>
    simp [DeltaRat.evalAt, target, sub_eq_add_neg]

/-- A comparison has one bound, or twice the same one. -/
lemma bound_unique {other : DeltaRat} (h : c.lower? = some b ∨ c.upper? = some b)
    (h' : c.lower? = some other ∨ c.upper? = some other) : b = other := by
  obtain ⟨form, relation⟩ := c
  cases relation <;> simp_all [lower?, upper?, Relation.lower?, Relation.upper?]

/-- Zero satisfies the comparison with zero of the combination plus its constant part exactly if it
is within the bounds of the combination. -/
lemma admits_zero_iff (c : Comparison) :
    c.relation.Admits (-c.form.constant) 0 ↔ c.relation.holds c.form.constant 0 = true := by
  have hzero : (0 : DeltaRat) = DeltaRat.ofRat 0 := (map_zero DeltaRat.ofRat).symm
  rw [hzero, Relation.admits_ofRat, ← Relation.holds_sub, sub_neg_eq_add, zero_add]

end Comparison

namespace Tableau

/-! ## The first name -/

/-- **The first name of a form gets the first variable** of an empty tableau. -/
lemma getElem?_numbers_assert {form : LinearForm} {e : String × ℚ} {rest : List (String × ℚ)}
    (h : form.coefficients.toList = e :: rest) (relation : Relation) :
    ((∅ : Tableau).assert form relation).2.numbers[e.1]? = some 0 := by
  have hzero : ((∅ : Tableau).number e.1).1 = 0 := by
    have hnone : (∅ : Tableau).numbers[e.1]? = none := by
      change (∅ : Std.ExtTreeMap String ℕ compare)[e.1]? = none
      simp
    rw [number, hnone]
    rfl
  change ((((∅ : Tableau).combination form.coefficients).2.slack _).2.bound _ _ _).numbers[e.1]? = _
  rw [numbers_bound, numbers_slack, getElem?_numbers_combination h, hzero]

/-! ## Problem variables -/

namespace HasLayout

variable {t : Tableau} {name : String} {k : ℕ}

lemma lower_number (h : t.HasLayout) (hk : t.numbers[name]? = some k) : t.lower[k]? = none :=
  Option.eq_none_iff_forall_ne_some.2 fun b hb => by
    obtain ⟨-, row, hrow⟩ := h.lower_bound k b hb
    exact h.slack_ne_number row k name hrow hk

lemma upper_number (h : t.HasLayout) (hk : t.numbers[name]? = some k) : t.upper[k]? = none :=
  Option.eq_none_iff_forall_ne_some.2 fun b hb => by
    obtain ⟨-, row, hrow⟩ := h.upper_bound k b hb
    exact h.slack_ne_number row k name hrow hk

/-- A problem variable violates no bound. -/
lemma violated?_number (h : t.HasLayout) (hk : t.numbers[name]? = some k) :
    t.violated? k = none := by
  rw [violated?, h.lower_number hk, h.upper_number hk]
  rfl

/-- A problem variable can always give way. -/
lemma canRepair_number (h : t.HasLayout) (hk : t.numbers[name]? = some k) (tooSmall : Bool)
    (a : ℚ) : t.canRepair tooSmall k a = true := by
  rw [canRepair, canIncrease, canDecrease, h.lower_number hk, h.upper_number hk]
  split_ifs <;> rfl

end HasLayout

/-! ## One row -/

/-- A tableau records one comparison, and the first variable is that of the name `x`. -/
structure OneRow (t : Tableau) (c : Comparison) (x : String) : Prop extends t.Keeps [c] where
  stemsFrom : t.StemsFrom [c]
  first : t.numbers[x]? = some 0
  coeff_ne_zero : c.form.coefficients.coeff x ≠ 0

namespace OneRow

variable {t : Tableau} {c : Comparison} {x : String} (h : t.OneRow c x)

include h

/-- The row is that of the comparison's combination, and its slack has the bounds of the
comparison. -/
lemma row_eq {k : ℕ} {row : LinComb ℕ} (hk : t.rows[k]? = some row) :
    t.Transcribes row c.form.coefficients ∧ t.lower[k]? = c.lower? ∧ t.upper[k]? = c.upper? := by
  have hslack := (h.rows_iff k row).1 hk
  obtain ⟨e, he, hrow⟩ := h.stemsFrom.slack row k hslack
  obtain rfl := List.mem_singleton.1 he
  refine ⟨hrow, ?_, ?_⟩
  · rw [h.lower_eq row k _ hslack hrow, Comparison.lowerBounds]
    cases hb : e.lower? <;> simp [hb]
  · rw [h.upper_eq row k _ hslack hrow, Comparison.upperBounds]
    cases hb : e.upper? <;> simp [hb]

/-- There is one row. -/
lemma row_unique {j k : ℕ} {row other : LinComb ℕ} (hj : t.rows[j]? = some row)
    (hk : t.rows[k]? = some other) : j = k := by
  have hsame := (h.row_eq hj).1.unique (h.row_eq hk).1
  exact h.sharesSlacks row j k ((h.rows_iff j row).1 hj) (hsame ▸ (h.rows_iff k other).1 hk)

/-- A bound is one of the comparison, at the slack of the row. -/
lemma bound_eq {k : ℕ} {b : DeltaRat} (hb : t.lower[k]? = some b ∨ t.upper[k]? = some b) :
    (∃ row, t.rows[k]? = some row) ∧ (c.lower? = some b ∨ c.upper? = some b) := by
  obtain ⟨row, hrow⟩ : ∃ row, (row, k) ∈ t.slacks :=
    hb.elim (fun hb => (h.lower_bound k b hb).2) fun hb => (h.upper_bound k b hb).2
  have hk := (h.rows_iff k row).2 hrow
  obtain ⟨-, hlower, hupper⟩ := h.row_eq hk
  exact ⟨⟨row, hk⟩, by rwa [← hlower, ← hupper]⟩

/-- The bounds of one comparison do not exclude each other. -/
lemma isConsistent : t.IsConsistent := by
  intro k lower upper hl hu
  exact (Comparison.bound_unique (h.bound_eq (Or.inl hl)).2 (h.bound_eq (Or.inr hu)).2).le

lemma wellFormed : t.WellFormed := h.toIsFresh.wellFormed h.isConsistent

/-- The row mentions the first variable. -/
lemma coeff_first {k : ℕ} {row : LinComb ℕ} (hk : t.rows[k]? = some row) :
    row.coeffs[0]? = some (c.form.coefficients.coeff x) := by
  have hrow := (h.row_eq hk).1
  rw [hrow.row_isReduced.getElem?_eq_some_iff, hrow.coeff_eq x 0 h.first]
  exact ⟨rfl, h.coeff_ne_zero⟩

/-- Zero is within the bounds of the slack exactly if it satisfies the comparison. -/
lemma inBounds_zero_iff {k : ℕ} {row : LinComb ℕ} (hk : t.rows[k]? = some row) :
    t.InBounds k 0 ↔ c.relation.holds c.form.constant 0 = true := by
  obtain ⟨-, hlower, hupper⟩ := h.row_eq hk
  rw [InBounds, hlower, hupper, ← c.admits_zero_iff, Relation.admits_iff]
  rfl

/-- **The search is done, or pivots the first name.**

**Proof sketch.** A row without a repair is impossible, since the first variable can give way. For
the same reason it is the smallest that can. -/
lemma step_cases :
    t.step = .feasible ∧ c.relation.holds c.form.constant 0 = true ∨
      ∃ v, t.IsChoice v 0 (c.form.coefficients.coeff x) ∧
        t.step = .pivot v.basic 0 (t.pivot v 0 (c.form.coefficients.coeff x)) ∧
        c.relation.holds c.form.constant 0 = false := by
  have hrepair := fun tooSmall a => h.toHasLayout.canRepair_number h.first tooSmall a
  cases hstep : t.step with
  | feasible =>
    refine Or.inl ⟨rfl, ?_⟩
    obtain ⟨row, k, hk, -⟩ := h.exists_slack c (List.mem_singleton.2 rfl)
    have hmeets := h.wellFormed.meets_of_step_eq_feasible hstep k
    rw [h.value_eq] at hmeets
    exact (h.inBounds_zero_iff ((h.rows_iff k row).2 hk)).1 hmeets
  | noRepair basic =>
    obtain ⟨v, -, hrow, -, hblocked⟩ := step_eq_noRepair hstep
    have hfirst := hblocked 0 _ (h.coeff_first hrow)
    simp [hrepair] at hfirst
  | pivot leaving entering next =>
    obtain ⟨v, a, hc, rfl, rfl⟩ := step_eq_pivot hstep
    have hcoeff := h.coeff_first hc.row_eq
    obtain rfl : entering = 0 := by
      by_contra hne
      have hfirst := hc.first_entering 0 (Nat.pos_of_ne_zero hne) _ hcoeff
      simp [hrepair] at hfirst
    obtain rfl := Option.some.inj (hc.coeff_eq.symm.trans hcoeff)
    refine Or.inr ⟨v, hc, rfl, ?_⟩
    rw [Bool.eq_false_iff, ne_eq, ← h.inBounds_zero_iff hc.row_eq, ← h.value_eq v.basic]
    intro hin
    have hpos := direction_smul_pos hc.violated hin
    simp at hpos

section Pivot

variable {v : Violation} (hc : t.IsChoice v 0 (c.form.coefficients.coeff x))

include hc

/-- After the pivot the search is done: the only basic variable is a name. -/
lemma step_pivot : (t.pivot v 0 (c.form.coefficients.coeff x)).step = .feasible := by
  set u := t.pivot v 0 (c.form.coefficients.coeff x) with hu
  have hlayout : u.HasLayout := (h.wellFormed.pivot hc).toHasLayout
  have hfirst : u.numbers[x]? = some 0 := h.first
  have hnone : ∀ {k : ℕ} {row}, u.rows[k]? = some row → u.violated? k = none := by
    intro k row hk
    obtain rfl : k = 0 := by
      by_contra hne
      rw [hu, rows_pivot, if_neg (Ne.symm hne)] at hk
      split_ifs at hk with hl
      obtain ⟨old, hold, -⟩ := Option.map_eq_some_iff.1 hk
      exact hl (h.row_unique hc.row_eq hold)
    exact hlayout.violated?_number hfirst
  cases hstep : u.step with
  | feasible => rfl
  | noRepair basic =>
    obtain ⟨w, -, hrow, hviolated, -⟩ := step_eq_noRepair hstep
    simp [hnone hrow] at hviolated
  | pivot leaving entering next =>
    obtain ⟨w, a, hw, -, -⟩ := step_eq_pivot hstep
    have hviolated := hw.violated
    simp [hnone hw.row_eq] at hviolated

/-- After the pivot there is no limit on the concrete `δ` other than one, since the slack is at its
bound. -/
lemma concreteDelta_pivot : (t.pivot v 0 (c.form.coefficients.coeff x)).concreteDelta = 1 := by
  set u := t.pivot v 0 (c.form.coefficients.coeff x)
  have hat : ∀ {k : ℕ} {b}, u.lower[k]? = some b ∨ u.upper[k]? = some b → u.value k = b := by
    intro k b hb
    obtain ⟨⟨row, hk⟩, hbound⟩ := h.bound_eq hb
    obtain rfl := h.row_unique hc.row_eq hk
    rw [h.wellFormed.value_pivot_leaving hc]
    exact Comparison.bound_unique (h.bound_eq (WellFormed.bound_target hc)).2 hbound
  have hlimits : (List.range u.size).flatMap u.deltaLimits = [] := by
    refine List.flatMap_eq_nil_iff.2 fun k _ =>
      List.eq_nil_iff_forall_not_mem.2 fun limit hlimit => ?_
    rcases mem_deltaLimits.1 hlimit with ⟨b, hb, hcross⟩ | ⟨b, hb, hcross⟩
    · rw [hat (Or.inl hb)] at hcross
      simp [DeltaRat.crossing?] at hcross
    · rw [hat (Or.inr hb)] at hcross
      simp [DeltaRat.crossing?] at hcross
  rw [concreteDelta, hlimits]
  rfl

/-- The pivot gives the names the values of the solution. -/
lemma evalAt_value_pivot (hholds : c.relation.holds c.form.constant 0 = false) {name : String}
    {k : ℕ} (hk : t.numbers[name]? = some k) :
    ((t.pivot v 0 (c.form.coefficients.coeff x)).value k).evalAt 1 = c.solution x name := by
  rw [Comparison.solution, hholds, if_neg Bool.false_ne_true]
  by_cases hname : name = x
  · subst hname
    obtain rfl : 0 = k := Option.some.inj (h.first.symm.trans hk)
    rw [if_pos rfl, h.wellFormed.value_pivot_entering hc, shift, h.value_eq, h.value_eq, zero_add,
      sub_zero, ← DeltaRat.evalAtHom_apply, map_smul, DeltaRat.evalAtHom_apply,
      Comparison.evalAt_one (h.bound_eq (WellFormed.bound_target hc)).2, smul_eq_mul, mul_comm,
      div_eq_mul_inv]
  · have hne : k ≠ 0 := by
      rintro rfl
      exact hname (h.number_inj name x 0 hk h.first)
    have hnone : t.rows[k]? = none := Option.eq_none_iff_forall_ne_some.2 fun row hrow =>
      h.slack_ne_number row k name ((h.rows_iff k row).1 hrow) hk
    rw [if_neg hname, value_pivot_nonbasic hc hnone hne, h.value_eq]
    simp [DeltaRat.evalAt]

end Pivot

/-- **The search makes one pivot at most and finds the solution.** -/
lemma run_eq (budget : ℕ) : (t.run (budget + 1)).pivots.length ≤ 1 ∧
    (t.run (budget + 1)).ending = .feasible ∧ ∀ name,
      (t.run (budget + 1)).final.model.get? name =
        (t.numbers[name]?).map fun _ => c.solution x name := by
  rcases h.step_cases with ⟨hstep, hholds⟩ | ⟨v, hc, hstep, hholds⟩
  · rw [run, hstep]
    refine ⟨Nat.zero_le 1, rfl, fun name => ?_⟩
    rw [model_get?]
    refine Option.map_congr fun k _ => ?_
    rw [h.value_eq, Comparison.solution, if_pos hholds]
    simp [DeltaRat.evalAt]
  · have hrun := h.step_pivot hc
    have hrest : (t.pivot v 0 (c.form.coefficients.coeff x)).run budget =
        ⟨[], .feasible, t.pivot v 0 (c.form.coefficients.coeff x)⟩ := by
      rw [Tableau.run.eq_def, hrun]
    rw [run, hstep]
    dsimp only
    rw [hrest]
    refine ⟨le_rfl, rfl, fun name => ?_⟩
    rw [model_get?, h.concreteDelta_pivot hc]
    exact Option.map_congr fun k hk => h.evalAt_value_pivot hc hholds hk

end OneRow

/-- **One comparison makes a tableau of one row**, whose first variable is that of the first name.
-/
lemma oneRow_assert {c : Comparison} (hc : c.form.IsReduced) {x : String} {a : ℚ}
    {rest : List (String × ℚ)} (h : c.form.coefficients.toList = (x, a) :: rest) :
    ((∅ : Tableau).assert c.form c.relation).2.OneRow c x :=
  { Keeps.empty.assert hc with
    stemsFrom := StemsFrom.empty.assert isFresh_empty hc
    first := getElem?_numbers_assert h c.relation
    coeff_ne_zero := by
      have hstored : c.form.coefficients.coeffs[x]? = some a :=
        LinComb.mem_toList_iff.1 (h ▸ List.mem_cons_self)
      rw [(LinComb.IsReduced.getElem?_eq_some_iff hc).1 hstored |>.1]
      exact ((LinComb.IsReduced.getElem?_eq_some_iff hc).1 hstored).2 }

end Tableau

end ExactArith
