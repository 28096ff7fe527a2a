import ExactArith.Proofs.Tableau.Pivot
import Mathlib.Algebra.Order.BigOperators.Group.Finset
import Mathlib.Logic.Relation

set_option autoImplicit false
set_option relaxedAutoImplicit false

/-!
# What the search finds

A search follows a path of pivots, along which the system stays the same and the tableau stays
well-formed. If it ends as feasible, the values of its last tableau are within all bounds. If it
ends because no variable of a violated row can give way, no point is within all bounds: the row
itself keeps the violated variable away from its bound.

## Main definitions

* `ExactArith.Tableau.PivotsTo` — one pivot of the search.
* `ExactArith.Tableau.direction` — the sign of the move that a violated variable needs.

## Main results

* `ExactArith.Tableau.WellFormed.not_inBounds_of_row` — a row none of whose terms helps keeps its
  variable out of bounds.
* `ExactArith.Tableau.WellFormed.run` — a search keeps the invariant and the system.
* `ExactArith.Tableau.WellFormed.meets_of_ending_eq_feasible` — a feasible ending gives a point.
* `ExactArith.Tableau.WellFormed.not_meets_of_ending_eq_noRepair` — the other one excludes all
  points.
-/

namespace ExactArith.Tableau

/-! ## Directions -/

/-- The sign of the move that brings a violated variable closer to its bound. -/
def direction (tooSmall : Bool) : ℚ := if tooSmall then 1 else -1

/-- A variable can repair the violation by increasing if its coefficient has the sign of the needed
move, and by decreasing otherwise. -/
lemma canRepair_eq (t : Tableau) (tooSmall : Bool) (k : ℕ) {c : ℚ} (hc : c ≠ 0) :
    t.canRepair tooSmall k c =
      if 0 < direction tooSmall * c then t.canIncrease k else t.canDecrease k := by
  rw [canRepair]
  refine if_congr ?_ rfl rfl
  cases tooSmall with
  | true => simp [direction]
  | false => simpa [direction] using hc.le_iff_lt

/-- A variable that cannot increase is at its upper bound. -/
lemma le_value_of_canIncrease_eq_false {t : Tableau} {k : ℕ} {y : DeltaRat}
    (h : t.canIncrease k = false) (hy : t.InBounds k y) : y ≤ t.value k := by
  obtain ⟨b, hb, hle⟩ := (Option.all_eq_false _ _).1 h
  exact (hy.2 b hb).trans (not_lt.1 (of_decide_eq_false hle))

lemma value_le_of_canDecrease_eq_false {t : Tableau} {k : ℕ} {y : DeltaRat}
    (h : t.canDecrease k = false) (hy : t.InBounds k y) : t.value k ≤ y := by
  obtain ⟨b, hb, hle⟩ := (Option.all_eq_false _ _).1 h
  exact (not_lt.1 (of_decide_eq_false hle)).trans (hy.1 b hb)

/-- Within the bounds, a violated variable is only closer to the violated bound. -/
lemma direction_smul_pos {t : Tableau} {k : ℕ} {tooSmall : Bool} {target y : DeltaRat}
    (h : t.violated? k = some (tooSmall, target)) (hy : t.InBounds k y) :
    0 < direction tooSmall • (y - t.value k) := by
  rcases violated?_eq_some h with ⟨rfl, hb, hlt⟩ | ⟨rfl, hb, hlt⟩
  · rw [direction, if_pos rfl, one_smul]
    exact sub_pos.2 (hlt.trans_le (hy.1 target hb))
  · rw [direction, if_neg Bool.false_ne_true, neg_smul, one_smul, neg_sub]
    exact sub_pos.2 ((hy.2 target hb).trans_lt hlt)

/-- **A variable that cannot give way does not help** anywhere within its bounds. -/
lemma smul_nonpos_of_canRepair_eq_false {t : Tableau} {tooSmall : Bool} {k : ℕ} {c : ℚ}
    {y : DeltaRat} (hc : c ≠ 0) (h : t.canRepair tooSmall k c = false) (hy : t.InBounds k y) :
    (direction tooSmall * c) • (y - t.value k) ≤ 0 := by
  rw [canRepair_eq t tooSmall k hc] at h
  split_ifs at h with hpos
  · exact smul_nonpos_of_nonneg_of_nonpos hpos.le
      (sub_nonpos.2 (le_value_of_canIncrease_eq_false h hy))
  · rw [← neg_smul_neg]
    exact smul_nonpos_of_nonneg_of_nonpos (neg_nonneg.2 (not_lt.1 hpos))
      (neg_nonpos.2 (sub_nonneg.2 (value_le_of_canDecrease_eq_false h hy)))

/-- A variable that is at a bound and can give way does not help beyond this bound. -/
lemma smul_nonpos_of_canRepair {t : Tableau} {tooSmall : Bool} {k : ℕ} {c : ℚ} {y : DeltaRat}
    (hc : c ≠ 0) (h : t.canRepair tooSmall k c = true)
    (hy : t.lower[k]? = some (t.value k) ∧ y < t.value k ∨
      t.upper[k]? = some (t.value k) ∧ t.value k < y) :
    (direction tooSmall * c) • (y - t.value k) ≤ 0 := by
  rw [canRepair_eq t tooSmall k hc] at h
  split_ifs at h with hpos
  · rcases hy with ⟨-, hlt⟩ | ⟨hb, -⟩
    · exact smul_nonpos_of_nonneg_of_nonpos hpos.le (sub_nonpos.2 hlt.le)
    · simp [canIncrease, hb] at h
  · rcases hy with ⟨hb, -⟩ | ⟨-, hlt⟩
    · simp [canDecrease, hb] at h
    · rw [← neg_smul_neg]
      exact smul_nonpos_of_nonneg_of_nonpos (neg_nonneg.2 (not_lt.1 hpos))
        (neg_nonpos.2 (sub_nonneg.2 hlt.le))

/-- A row moves by no more than its terms: if none of them helps, the row does not. -/
lemma smul_eval_sub_nonpos {row : LinComb ℕ} {c : ℚ} {x y : ℕ → DeltaRat}
    (h : ∀ j, row.coeff j ≠ 0 → (c * row.coeff j) • (x j - y j) ≤ 0) :
    c • (row.eval x - row.eval y) ≤ 0 := by
  rw [LinComb.eval_sub, LinComb.eval, Finsupp.linearCombination_apply, Finsupp.sum,
    Finset.smul_sum]
  refine Finset.sum_nonpos fun j hj => ?_
  rw [Finsupp.mem_support_iff, LinComb.toFinsupp_apply] at hj
  rw [LinComb.toFinsupp_apply, smul_smul]
  exact h j hj

namespace WellFormed

variable {t : Tableau}

/-- **A row none of whose terms helps keeps its variable out of bounds.**

**Proof sketch.** The point and the values of the tableau both solve the row, so the violated
variable moves by the sum of what the terms move. None of them moves it towards its bound, but
within its bounds it would be closer to it. -/
lemma not_inBounds_of_row (h : t.WellFormed) {v : Violation} (hrow : t.rows[v.basic]? = some v.row)
    (hv : t.violated? v.basic = some (v.tooSmall, v.target)) {x : ℕ → DeltaRat}
    (hx : t.SolvesRows x) (hterms : ∀ j, v.row.coeff j ≠ 0 →
      (direction v.tooSmall * v.row.coeff j) • (x j - t.value j) ≤ 0) :
    ¬t.InBounds v.basic (x v.basic) := by
  intro hin
  have hpos := direction_smul_pos hv hin
  rw [hx v.basic v.row hrow, h.value_solves v.basic v.row hrow] at hpos
  exact hpos.not_ge (smul_eval_sub_nonpos hterms)

/-- A violated row in which no variable can give way excludes all points within the bounds. -/
lemma not_meets_of_step_eq_noRepair (h : t.WellFormed) {basic : ℕ}
    (hstep : t.step = .noRepair basic) {x : ℕ → DeltaRat} (hx : t.SolvesSlacks x) :
    ¬t.Meets x := by
  intro hmeets
  obtain ⟨v, -, hrow, hv, hblocked⟩ := step_eq_noRepair hstep
  refine h.not_inBounds_of_row hrow hv ((h.solvesRows_iff DeltaRat x).2 hx) ?_ (hmeets v.basic)
  intro j hj
  exact smul_nonpos_of_canRepair_eq_false hj
    (hblocked j _ (LinComb.getElem?_of_coeff_ne_zero hj)) (hmeets j)

/-- If the search sees no violation, the values are within all bounds. -/
lemma meets_of_step_eq_feasible (h : t.WellFormed) (hstep : t.step = .feasible) :
    t.Meets t.value := by
  intro k
  cases hk : t.rows[k]? with
  | none => exact h.inBounds_of_nonbasic hk
  | some row =>
    exact inBounds_of_violated?_eq_none
      (violated?_of_violation?_eq_none (step_eq_feasible hstep) k row hk)

end WellFormed

/-! ## Runs -/

/-- One pivot of the search. -/
def PivotsTo (t u : Tableau) : Prop := ∃ leaving entering, t.step = .pivot leaving entering u

lemma PivotsTo.sameSystem {t u : Tableau} (h : t.PivotsTo u) : t.SameSystem u := by
  obtain ⟨leaving, entering, hstep⟩ := h
  obtain ⟨v, a, -, -, rfl⟩ := step_eq_pivot hstep
  exact sameSystem_pivot t v entering a

/-- Pivots keep the system, whatever the tableau. -/
lemma sameSystem_of_reaches {t u : Tableau} (hu : Relation.ReflTransGen PivotsTo t u) :
    t.SameSystem u := by
  induction hu with
  | refl => exact SameSystem.refl t
  | tail _ hlast ih => exact ih.trans hlast.sameSystem

/-- A pivot of the search keeps the invariant and the system. -/
lemma WellFormed.pivotsTo {t u : Tableau} (h : t.WellFormed) (hu : t.PivotsTo u) :
    u.WellFormed ∧ t.SameSystem u := by
  refine ⟨?_, hu.sameSystem⟩
  obtain ⟨leaving, entering, hstep⟩ := hu
  obtain ⟨v, a, hc, -, rfl⟩ := step_eq_pivot hstep
  exact h.pivot hc

lemma WellFormed.reaches {t u : Tableau} (h : t.WellFormed)
    (hu : Relation.ReflTransGen PivotsTo t u) : u.WellFormed ∧ t.SameSystem u := by
  refine ⟨?_, sameSystem_of_reaches hu⟩
  induction hu with
  | refl => exact h
  | tail _ hlast ih => exact (ih.pivotsTo hlast).1

/-- What an ending says of the next step: the search stops where a step does, or out of budget. -/
def Ending.IsOf (ending : Ending) (step : Step) : Prop :=
  match ending with
  | .feasible => step = .feasible
  | .noRepair basic => step = .noRepair basic
  | .exhausted => ∃ leaving entering next, step = .pivot leaving entering next

/-- **A search follows pivots**, and its ending is that of its last tableau.

**Proof sketch.** Induction on the budget: either the first step ends the search, or the rest of the
search starts from the tableau after the first pivot. -/
lemma run_reaches (budget : ℕ) (t : Tableau) :
    Relation.ReflTransGen PivotsTo t (run budget t).final ∧
      (run budget t).ending.IsOf (run budget t).final.step := by
  induction budget generalizing t with
  | zero =>
    cases hstep : t.step with
    | feasible =>
      rw [run, hstep]
      exact ⟨.refl, hstep⟩
    | noRepair basic =>
      rw [run, hstep]
      exact ⟨.refl, hstep⟩
    | pivot leaving entering next =>
      rw [run, hstep]
      exact ⟨.refl, leaving, entering, next, hstep⟩
  | succ budget ih =>
    cases hstep : t.step with
    | feasible =>
      rw [run, hstep]
      exact ⟨.refl, hstep⟩
    | noRepair basic =>
      rw [run, hstep]
      exact ⟨.refl, hstep⟩
    | pivot leaving entering next =>
      rw [run, hstep]
      exact ⟨.head ⟨leaving, entering, hstep⟩ (ih next).1, (ih next).2⟩

namespace WellFormed

variable {t : Tableau} {budget : ℕ}

/-- **A search keeps the invariant and the system.** -/
lemma run (h : t.WellFormed) (budget : ℕ) :
    (t.run budget).final.WellFormed ∧ t.SameSystem (t.run budget).final :=
  h.reaches (run_reaches budget t).1

/-- **A feasible ending gives a point**: the values of the last tableau are within all bounds. -/
lemma meets_of_ending_eq_feasible (h : t.WellFormed) (hend : (t.run budget).ending = .feasible) :
    t.Meets (t.run budget).final.value := by
  obtain ⟨hwf, hsame⟩ := h.run budget
  have hstep := (run_reaches budget t).2
  rw [hend] at hstep
  exact hsame.meets_iff.1 (hwf.meets_of_step_eq_feasible hstep)

/-- **An ending without a repair excludes all points.** -/
lemma not_meets_of_ending_eq_noRepair (h : t.WellFormed) {basic : ℕ}
    (hend : (t.run budget).ending = .noRepair basic) {x : ℕ → DeltaRat} (hx : t.SolvesSlacks x) :
    ¬t.Meets x := by
  obtain ⟨hwf, hsame⟩ := h.run budget
  have hstep := (run_reaches budget t).2
  rw [hend] at hstep
  exact fun hmeets => hwf.not_meets_of_step_eq_noRepair hstep (hsame.solvesSlacks_iff.2 hx)
    (hsame.meets_iff.2 hmeets)

end WellFormed

end ExactArith.Tableau
