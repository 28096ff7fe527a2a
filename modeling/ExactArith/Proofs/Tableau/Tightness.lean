import ExactArith.Proofs.Tableau.Coefficients

set_option autoImplicit false
set_option relaxedAutoImplicit false

/-!
# The tightest bounds

A combination of names keeps its slack once it has one, so all comparisons of the combination bound
the same slack, and those of another combination bound another one. Its bounds are the greatest
lower bound and the smallest upper bound that the comparisons ask for, in whatever order they come.
They exclude each other as soon as no rational value of the combination meets all of the
comparisons, and a combination that mentions a name takes every rational value. The empty sum takes
the value zero only, which no bound says: a tableau finds no contradiction in `1 ≤ 0`. The solver
decides comparisons of constants without it.

Nothing is asked of the coefficients: combinations that differ in a zero that is stored are
different ones, and have different slacks.

## Main definitions

* `ExactArith.Comparison.Admits`, `ExactArith.Comparison.HoldsAt` — the comparison for a value of
  its combination, and for values of the names.
* `ExactArith.Tableau.slackOf` — the slack that a combination has, or would get.
* `ExactArith.Tableau.IsTightest` — the bounds of a variable are the tightest that comparisons of a
  combination ask for.
* `ExactArith.Tableau.contradicts` — whether an assertion reports a contradiction.

## Main results

* `ExactArith.Comparison.exists_admits_iff` — a rational value is left exactly when no lower bound
  is above an upper bound.
* `ExactArith.Tableau.IsTightest.isConflicting_iff` — tightest bounds exclude each other exactly
  when no rational value is left.
* `ExactArith.Tableau.Keeps.isTightest` — the slacks of combinations have the tightest bounds.
* `ExactArith.Tableau.assertAll_bounds_tightest` — all of this for any assertion among any others.
* `ExactArith.Tableau.not_contradicts_ofConstant` — the empty sum is one that has to be left out.
-/

namespace ExactArith

/-! ## What comparisons leave to a combination -/

namespace Comparison

variable {cs : List Comparison} {d : LinComb String}

/-- A comparison holds where the combination of its form has a given value. -/
def Admits (c : Comparison) (q : ℚ) : Prop := c.relation.holds q (-c.form.constant) = true

/-- A comparison holds for values of the names. -/
def HoldsAt (c : Comparison) (σ : String → ℚ) : Prop := c.relation.holds (c.form.value σ) 0 = true

lemma holdsAt_iff {c : Comparison} {σ : String → ℚ} :
    c.HoldsAt σ ↔ c.Admits (c.form.coefficients.eval σ) := by
  rw [HoldsAt, Admits, LinearForm.value_eq, ← Relation.holds_sub c.relation _ (-c.form.constant),
    sub_neg_eq_add]

/-- A comparison admits the rational numbers between its bounds. -/
lemma admits_iff {c : Comparison} {q : ℚ} :
    c.Admits q ↔ (∀ l, c.lower? = some l → l ≤ DeltaRat.ofRat q) ∧
      ∀ u, c.upper? = some u → DeltaRat.ofRat q ≤ u := by
  rw [Admits, ← Relation.admits_ofRat]
  exact Relation.admits_iff

/-- No infinitesimal part makes a lower bound weaker than its rational part. -/
lemma delta_nonneg_of_mem_lowerBounds {l : DeltaRat} (h : l ∈ lowerBounds cs d) : 0 ≤ l.delta := by
  rcases delta_of_mem_lowerBounds h with hd | hd <;> rw [hd]
  exact zero_le_one

lemma delta_nonpos_of_mem_upperBounds {u : DeltaRat} (h : u ∈ upperBounds cs d) : u.delta ≤ 0 := by
  rcases delta_of_mem_upperBounds h with hd | hd <;> rw [hd]
  exact neg_nonpos.2 zero_le_one

/-- **A rational value is left to a combination exactly when no lower bound is above an upper
bound.** -/
lemma exists_admits_iff :
    (∃ q, ∀ c ∈ cs, c.form.coefficients = d → c.Admits q) ↔
      ∀ l ∈ lowerBounds cs d, ∀ u ∈ upperBounds cs d, l ≤ u := by
  constructor
  · rintro ⟨q, hq⟩ l hl u hu
    obtain ⟨c, hc, hcd, hcl⟩ := mem_lowerBounds.1 hl
    obtain ⟨e, he, hed, heu⟩ := mem_upperBounds.1 hu
    exact ((admits_iff.1 (hq c hc hcd)).1 l hcl).trans ((admits_iff.1 (hq e he hed)).2 u heu)
  · intro h
    obtain ⟨q, hql, hqu⟩ := DeltaRat.exists_ofRat_between
      (fun _ => delta_nonneg_of_mem_lowerBounds) (fun _ => delta_nonpos_of_mem_upperBounds) h
    exact ⟨q, fun c hc hcd => admits_iff.2
      ⟨fun l hl => hql l (mem_lowerBounds.2 ⟨c, hc, hcd, hl⟩),
        fun u hu => hqu u (mem_upperBounds.2 ⟨c, hc, hcd, hu⟩)⟩⟩

/-- Comparisons of a combination that hold for values of the names admit its value. -/
lemma exists_admits_of_holdsAt {σ : String → ℚ}
    (h : ∀ c ∈ cs, c.form.coefficients = d → c.HoldsAt σ) :
    ∃ q, ∀ c ∈ cs, c.form.coefficients = d → c.Admits q :=
  ⟨d.eval σ, fun c hc hcd => hcd ▸ holdsAt_iff.1 (h c hc hcd)⟩

/-- **A combination that mentions a name takes every value**, so what is left to it are values of
the names. -/
lemma exists_holdsAt_iff {name : String} (hname : d.coeff name ≠ 0) :
    (∃ σ : String → ℚ, ∀ c ∈ cs, c.form.coefficients = d → c.HoldsAt σ) ↔
      ∃ q, ∀ c ∈ cs, c.form.coefficients = d → c.Admits q := by
  classical
  refine ⟨fun ⟨σ, hσ⟩ => exists_admits_of_holdsAt hσ, fun ⟨q, hq⟩ => ?_⟩
  have hvalue : d.eval (Pi.single name (q / d.coeff name)) = q := by
    rw [LinComb.eval_piSingle, smul_eq_mul, mul_div_cancel₀ q hname]
  refine ⟨Pi.single name (q / d.coeff name), fun c hc hcd => holdsAt_iff.2 ?_⟩
  rw [hcd, hvalue]
  exact hq c hc hcd

/-- The order of comparisons makes no difference to the bounds that they ask for. -/
lemma lowerBounds_perm {cs' : List Comparison} (h : cs.Perm cs') (d : LinComb String) :
    (lowerBounds cs d).Perm (lowerBounds cs' d) := (h.filter _).filterMap _

lemma upperBounds_perm {cs' : List Comparison} (h : cs.Perm cs') (d : LinComb String) :
    (upperBounds cs d).Perm (upperBounds cs' d) := (h.filter _).filterMap _

end Comparison

namespace Tableau

open Comparison

/-! ## Tightest bounds -/

/-- The bounds of a variable are the tightest that comparisons of a combination ask for. -/
structure IsTightest (t : Tableau) (k : ℕ) (cs : List Comparison) (d : LinComb String) : Prop where
  /-- The lower bound is the greatest one. -/
  lower_eq : t.lower[k]? = (lowerBounds cs d).max?
  /-- The upper bound is the smallest one. -/
  upper_eq : t.upper[k]? = (upperBounds cs d).min?

namespace IsTightest

variable {t u : Tableau} {k j : ℕ} {cs cs' : List Comparison} {d : LinComb String}

/-- **Tightest bounds exclude each other exactly when no rational value is left.** -/
lemma isConflicting_iff (h : t.IsTightest k cs d) :
    t.isConflicting k = true ↔ ¬∃ q, ∀ c ∈ cs, c.form.coefficients = d → c.Admits q := by
  rw [exists_admits_iff, isConflicting, h.lower_eq, h.upper_eq]
  cases hl : (lowerBounds cs d).max? with
  | none => simp [List.max?_eq_none_iff.1 hl]
  | some l =>
    cases hu : (upperBounds cs d).min? with
    | none => simp [List.min?_eq_none_iff.1 hu]
    | some u =>
      obtain ⟨hlmem, hlmax⟩ := List.max?_eq_some_iff.1 hl
      obtain ⟨humem, humin⟩ := List.min?_eq_some_iff.1 hu
      rw [decide_eq_true_iff, ← not_le, not_iff_not]
      exact ⟨fun hle x hx y hy => (hlmax x hx).trans (hle.trans (humin y hy)),
        fun hall => hall l hlmem u humem⟩

/-- **Comparisons in another order ask for the same bounds.** -/
lemma eq_of_perm (h : t.IsTightest k cs d) (h' : u.IsTightest j cs' d) (hperm : cs.Perm cs') :
    u.lower[j]? = t.lower[k]? ∧ u.upper[j]? = t.upper[k]? := by
  rw [h.lower_eq, h.upper_eq, h'.lower_eq, h'.upper_eq]
  refine ⟨Option.ext fun b => ?_, Option.ext fun b => ?_⟩
  · simp only [List.max?_eq_some_iff, (lowerBounds_perm hperm d).mem_iff]
  · simp only [List.min?_eq_some_iff, (upperBounds_perm hperm d).mem_iff]

end IsTightest

/-! ## Slacks of combinations -/

/-- The slack that a combination of names has, or would get. -/
def slackOf (t : Tableau) (d : LinComb String) : ℕ :=
  ((t.combination d).2.slack (t.combination d).1).1

namespace Keeps

variable {t : Tableau} {cs : List Comparison} {k : ℕ} {c d : Comparison}

/-- The slack of a combination is found when the combination is entered again. -/
lemma slackOf_eq (h : t.Keeps cs) {e : LinComb String} (hk : t.IsSlackOf k e) :
    t.slackOf e = k := by
  obtain ⟨row, hslack, hrow⟩ := hk
  rw [slackOf, h.toIsFresh.combination_eq hrow]
  dsimp only
  rw [h.sharesSlacks.slack_eq hslack]

lemma isSlackOf_slackOf (h : t.Keeps cs) (hc : c ∈ cs) :
    t.IsSlackOf (t.slackOf c.form.coefficients) c.form.coefficients := by
  obtain ⟨row, k, hk⟩ := h.exists_slack c hc
  rw [h.slackOf_eq ⟨row, hk⟩]
  exact ⟨row, hk⟩

/-- **Different combinations have different slacks.** -/
lemma slackOf_eq_iff (h : t.Keeps cs) (hc : c ∈ cs) (hd : d ∈ cs) :
    t.slackOf c.form.coefficients = t.slackOf d.form.coefficients ↔
      c.form.coefficients = d.form.coefficients := by
  refine ⟨fun heq => ?_, congrArg t.slackOf⟩
  obtain ⟨row, hrow, htranscribes⟩ := h.isSlackOf_slackOf hc
  obtain ⟨other, hother, htranscribes'⟩ := h.isSlackOf_slackOf hd
  obtain rfl := h.slack_inj row other _ hrow (heq ▸ hother)
  exact htranscribes.injective htranscribes'

/-- **The slacks of combinations have the tightest bounds.** -/
lemma isTightest (h : t.Keeps cs) (hc : c ∈ cs) :
    t.IsTightest (t.slackOf c.form.coefficients) cs c.form.coefficients := by
  obtain ⟨row, hrow, htranscribes⟩ := h.isSlackOf_slackOf hc
  exact ⟨h.lower_eq row _ _ hrow htranscribes, h.upper_eq row _ _ hrow htranscribes⟩

end Keeps

namespace IsFresh

variable {t : Tableau} {form : LinearForm} {k : ℕ} {d : LinComb String}

/-- An assertion bounds a slack of its combination. -/
lemma isSlackOf_assert_self (h : t.IsFresh) (hf : form.IsReduced) (relation : Relation) :
    (t.assert form relation).2.IsSlackOf (t.assert form relation).1 form.coefficients := by
  have hrow := h.transcribes_combination hf
  set row := (t.combination form.coefficients).1
  set u := (t.combination form.coefficients).2
  change ((u.slack row).2.bound (u.slack row).1 relation (-form.constant)).IsSlackOf _ _
  refine ⟨row, ?_, hrow.congr ?_⟩
  · rw [slacks_bound]
    exact slack_mem u row
  · rw [numbers_bound, numbers_slack]

/-- **An assertion keeps the slacks of combinations.** -/
lemma isSlackOf_assert (h : t.IsFresh) (hf : form.IsReduced) (relation : Relation)
    (hk : t.IsSlackOf k d) : (t.assert form relation).2.IsSlackOf k d := by
  obtain ⟨hfresh, hgrows, -⟩ := IsFresh.combination (V := ℚ) h hf
  obtain ⟨row', hslack, hrow'⟩ := hk
  set row := (t.combination form.coefficients).1
  set u := (t.combination form.coefficients).2
  change ((u.slack row).2.bound (u.slack row).1 relation (-form.constant)).IsSlackOf _ _
  refine ⟨row', ?_, (hrow'.mono hgrows hfresh.toHasLayout).congr ?_⟩
  · rw [slacks_bound]
    exact (grows_slack u row).slack _ (hgrows.slack _ hslack)
  · rw [numbers_bound, numbers_slack]

/-- Any number of assertions keep the slacks of combinations. -/
lemma isSlackOf_assertAll (h : t.IsFresh) {cs : List Comparison} (hcs : ∀ c ∈ cs, c.form.IsReduced)
    (hk : t.IsSlackOf k d) : (t.assertAll cs).IsSlackOf k d := by
  induction cs generalizing t with
  | nil => exact hk
  | cons c cs ih =>
    have hc := hcs c List.mem_cons_self
    exact ih (h.assert hc c.relation) (fun e he => hcs e (List.mem_cons_of_mem c he))
      (h.isSlackOf_assert hc c.relation hk)

end IsFresh

/-! ## Any coefficients -/

section MapCoeffs

variable {f : ℚ → ℚ} {t : Tableau}

/-- Combinations with other coefficients have the same slacks. -/
lemma slackOf_mapCoeffs (hf : Function.Injective f) (ht : ∀ k, t.value k = 0)
    (d : LinComb String) : (t.mapCoeffs f).slackOf (d.mapCoeffs f) = t.slackOf d := by
  rw [slackOf, slackOf, combination_mapCoeffs]
  dsimp only
  rw [slack_mapCoeffs hf (value_combination ht d)]

/-- Comparisons with other coefficients ask for the same bounds. -/
lemma IsTightest.of_mapCoeffs (hf : Function.Injective f) {k : ℕ} {cs : List Comparison}
    {d : LinComb String}
    (h : (t.mapCoeffs f).IsTightest k (cs.map (Comparison.mapCoeffs f)) (d.mapCoeffs f)) :
    t.IsTightest k cs d where
  lower_eq := h.lower_eq.trans (congrArg List.max? (lowerBounds_mapCoeffs hf cs d))
  upper_eq := h.upper_eq.trans (congrArg List.min? (upperBounds_mapCoeffs hf cs d))

end MapCoeffs

section AssertAll

variable {cs : List Comparison} {c d : Comparison}

lemma assertAll_append (t : Tableau) (cs cs' : List Comparison) :
    t.assertAll (cs ++ cs') = (t.assertAll cs).assertAll cs' :=
  List.foldl_append

lemma slackOf_assertAll_mapCoeffs (cs : List Comparison) (d : LinComb String) :
    ((assertAll ∅ cs).mapCoeffs awayFromZero).slackOf (d.mapCoeffs awayFromZero) =
      (assertAll ∅ cs).slackOf d :=
  slackOf_mapCoeffs awayFromZero_injective (value_assertAll value_empty cs) d

/-- **Different combinations have different slacks**, whatever their coefficients. -/
lemma slackOf_assertAll_eq_iff (hc : c ∈ cs) (hd : d ∈ cs) :
    (assertAll ∅ cs).slackOf c.form.coefficients = (assertAll ∅ cs).slackOf d.form.coefficients ↔
      c.form.coefficients = d.form.coefficients := by
  rw [← slackOf_assertAll_mapCoeffs, ← slackOf_assertAll_mapCoeffs,
    ← (LinComb.mapCoeffs_injective awayFromZero_injective).eq_iff]
  exact (keeps_awayFromZero cs).slackOf_eq_iff (List.mem_map_of_mem hc) (List.mem_map_of_mem hd)

/-- **The slacks of combinations have the tightest bounds**, whatever their coefficients. -/
lemma isTightest_assertAll (hc : c ∈ cs) :
    (assertAll ∅ cs).IsTightest ((assertAll ∅ cs).slackOf c.form.coefficients) cs
      c.form.coefficients := by
  rw [← slackOf_assertAll_mapCoeffs]
  exact .of_mapCoeffs awayFromZero_injective
    ((keeps_awayFromZero cs).isTightest (List.mem_map_of_mem hc))

/-- A reduced combination keeps the slack that it gets first. -/
lemma fst_assert_eq_slackOf_of_isReduced {before after : List Comparison}
    (h : ∀ e ∈ before ++ c :: after, e.form.IsReduced) :
    ((assertAll ∅ before).assert c.form c.relation).1 =
      (assertAll ∅ (before ++ c :: after)).slackOf c.form.coefficients := by
  have hbefore := (keeps_assertAll fun e he => h e (List.mem_append_left _ he)).toIsFresh
  have hc : c.form.IsReduced := h c (by simp)
  have hafter : ∀ e ∈ after, e.form.IsReduced := fun e he => h e (by simp [he])
  have hfirst := hbefore.isSlackOf_assert_self hc c.relation
  have hlast := (hbefore.assert hc c.relation).isSlackOf_assertAll hafter hfirst
  refine ((keeps_assertAll h).slackOf_eq ?_).symm
  rw [assertAll_append]
  exact hlast

/-- **A combination keeps the slack that it gets first**, whatever its coefficients. -/
lemma fst_assert_eq_slackOf (before : List Comparison) (c : Comparison) (after : List Comparison) :
    ((assertAll ∅ before).assert c.form c.relation).1 =
      (assertAll ∅ (before ++ c :: after)).slackOf c.form.coefficients := by
  have hreduced := isReduced_awayFromZero (before ++ c :: after)
  rw [List.map_append, List.map_cons] at hreduced
  have h := fst_assert_eq_slackOf_of_isReduced hreduced
  rw [← List.map_cons, ← List.map_append, assertAll_empty_mapCoeffs awayFromZero_injective,
    assertAll_empty_mapCoeffs awayFromZero_injective,
    assert_mapCoeffs awayFromZero_injective (value_assertAll value_empty before)] at h
  exact h.trans (slackOf_assertAll_mapCoeffs _ _)

/-- Whether an assertion reports a contradiction. -/
def contradicts (t : Tableau) (c : Comparison) : Bool :=
  (t.assert c.form c.relation).2.isConflicting (t.assert c.form c.relation).1

/-- **An assertion reports a contradiction exactly when no rational value is left** to its
combination. -/
lemma contradicts_iff (before : List Comparison) (c : Comparison) :
    (assertAll ∅ before).contradicts c = true ↔ ¬∃ q, ∀ e ∈ before ++ [c],
      e.form.coefficients = c.form.coefficients → e.Admits q := by
  have hc : c ∈ before ++ [c] := by simp
  rw [← (isTightest_assertAll hc).isConflicting_iff, ← fst_assert_eq_slackOf, assertAll_append]
  rfl

end AssertAll

/-- **Bounds are the tightest that are asked for, and contradictions are found at once.** Let `c` be
one of any comparisons that are asserted, also after a contradiction. Then `c` bounds the slack that
its combination has in the end, and a comparison has the same slack exactly if it has the same
combination. The bounds of this slack are the greatest lower bound and the smallest upper bound of
the comparisons of the combination, also if they are asserted in another order. The assertion of `c`
reports a contradiction exactly if no rational value of the combination meets the comparisons of the
combination up to `c`. If it does, they hold for no values of the names; and if they do not, it
does, where the combination mentions a name at all.

**Proof sketch.** With coefficients away from zero, combinations and rows determine each other, and
each combination keeps one slack with the tightest bounds. The coefficients make no difference to
the numbers of the slacks and to their bounds. -/
theorem assertAll_bounds_tightest {cs before after : List Comparison} {c : Comparison}
    (h : cs = before ++ c :: after) :
    ((assertAll ∅ before).assert c.form c.relation).1 =
      (assertAll ∅ cs).slackOf c.form.coefficients ∧
    (∀ e ∈ cs, (assertAll ∅ cs).slackOf e.form.coefficients =
      (assertAll ∅ cs).slackOf c.form.coefficients ↔ e.form.coefficients = c.form.coefficients) ∧
    ((assertAll ∅ cs).lower[(assertAll ∅ cs).slackOf c.form.coefficients]? =
        (lowerBounds cs c.form.coefficients).max? ∧
      (assertAll ∅ cs).upper[(assertAll ∅ cs).slackOf c.form.coefficients]? =
        (upperBounds cs c.form.coefficients).min?) ∧
    (∀ cs', cs.Perm cs' →
      (assertAll ∅ cs').lower[(assertAll ∅ cs').slackOf c.form.coefficients]? =
        (assertAll ∅ cs).lower[(assertAll ∅ cs).slackOf c.form.coefficients]? ∧
      (assertAll ∅ cs').upper[(assertAll ∅ cs').slackOf c.form.coefficients]? =
        (assertAll ∅ cs).upper[(assertAll ∅ cs).slackOf c.form.coefficients]?) ∧
    ((assertAll ∅ before).contradicts c = true ↔ ¬∃ q, ∀ e ∈ before ++ [c],
      e.form.coefficients = c.form.coefficients → e.Admits q) ∧
    ((assertAll ∅ before).contradicts c = true → ¬∃ σ : String → ℚ, ∀ e ∈ before ++ [c],
      e.form.coefficients = c.form.coefficients → e.HoldsAt σ) ∧
    ∀ name, c.form.coefficients.coeff name ≠ 0 →
      ((assertAll ∅ before).contradicts c = true ↔ ¬∃ σ : String → ℚ, ∀ e ∈ before ++ [c],
        e.form.coefficients = c.form.coefficients → e.HoldsAt σ) := by
  subst h
  have hc : c ∈ before ++ c :: after := by simp
  have htightest := isTightest_assertAll hc
  refine ⟨fst_assert_eq_slackOf before c after, fun e he => slackOf_assertAll_eq_iff he hc,
    ⟨htightest.lower_eq, htightest.upper_eq⟩,
    fun cs' hperm => htightest.eq_of_perm (isTightest_assertAll (hperm.mem_iff.1 hc)) hperm,
    contradicts_iff before c, fun hcontradicts ⟨σ, hσ⟩ => ?_, fun name hname => ?_⟩
  · exact (contradicts_iff before c).1 hcontradicts (exists_admits_of_holdsAt hσ)
  · rw [contradicts_iff, exists_holdsAt_iff hname]

/-- Of `x ≤ 1`, `x < 1` and `x ≥ 1`, the last one reports a contradiction: the upper bound is the
strict one, in whatever order they come. -/
theorem assertAll_bounds_tightest_strict :
    (assertAll ∅ [⟨⟨.single "x", -1⟩, .le⟩, ⟨⟨.single "x", -1⟩, .lt⟩]).contradicts
      ⟨⟨.single "x", -1⟩, .ge⟩ = true ∧
    ¬∃ σ : String → ℚ, ∀ e ∈ [⟨⟨.single "x", -1⟩, .le⟩, ⟨⟨.single "x", -1⟩, .lt⟩] ++
      [(⟨⟨.single "x", -1⟩, .ge⟩ : Comparison)],
      e.form.coefficients = .single "x" → e.HoldsAt σ := by
  have hcontradicts : (assertAll ∅ [⟨⟨.single "x", -1⟩, .le⟩, ⟨⟨.single "x", -1⟩, .lt⟩]).contradicts
      ⟨⟨.single "x", -1⟩, .ge⟩ = true := by decide +kernel
  obtain ⟨-, -, -, -, -, -, hiff⟩ := assertAll_bounds_tightest
    (rfl : _ = [⟨⟨.single "x", -1⟩, .le⟩, ⟨⟨.single "x", -1⟩, .lt⟩] ++
      (⟨⟨.single "x", -1⟩, .ge⟩ : Comparison) :: [])
  exact ⟨hcontradicts, (hiff "x" (by simp [LinComb.coeff_single])).1 hcontradicts⟩

/-- A name with a coefficient is needed for the last part: `1 ≤ 0` holds for no values of the names,
and its assertion reports no contradiction, since the empty sum is bounded as if it took every
value. -/
theorem not_contradicts_ofConstant :
    (assertAll ∅ []).contradicts ⟨.ofConstant 1, .le⟩ = false ∧
    ¬∃ σ : String → ℚ, ∀ e ∈ [] ++ [(⟨.ofConstant 1, .le⟩ : Comparison)],
      e.form.coefficients = (LinearForm.ofConstant 1).coefficients → e.HoldsAt σ := by
  refine ⟨by decide +kernel, fun ⟨σ, hσ⟩ => ?_⟩
  have hle : (⟨.ofConstant 1, .le⟩ : Comparison).HoldsAt σ := hσ _ (by simp) rfl
  rw [Comparison.HoldsAt, LinearForm.value_ofConstant] at hle
  exact absurd hle (by decide +kernel)

end Tableau

end ExactArith
