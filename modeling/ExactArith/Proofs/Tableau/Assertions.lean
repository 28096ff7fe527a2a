import ExactArith.Proofs.Tableau.Bounds
import ExactArith.Proofs.Tableau.Transcription

set_option autoImplicit false
set_option relaxedAutoImplicit false

/-!
# Tableaux as records of assertions

After some comparisons of linear forms with zero have been asserted, the tableau is determined by
them up to the numbers of its variables: there is one slack for each combination of names among the
forms, its bounds are the tightest that the comparisons of this combination ask for, and the names
that have variables are those that occur in a form.

## Main definitions

* `ExactArith.Comparison` — the comparison of a linear form with zero.
* `ExactArith.Tableau.assertAll` — comparisons asserted one after the other.
* `ExactArith.Comparison.lowerBounds`, `ExactArith.Comparison.upperBounds` — the bounds that
  comparisons put on a combination of names.
* `ExactArith.Tableau.Keeps` — combinations have one slack each, with the tightest bounds.
* `ExactArith.Tableau.StemsFrom` — names and slacks come from the comparisons.

## Main results

* `ExactArith.Tableau.Keeps.assert`, `ExactArith.Tableau.StemsFrom.assert` — one more assertion.
* `ExactArith.Tableau.keeps_assertAll`, `ExactArith.Tableau.stemsFrom_assertAll` — any number of
  them.
* `ExactArith.Tableau.Keeps.assert_eq_self` — a comparison that follows from those of its
  combination changes nothing.
-/

namespace ExactArith

/-! ## Comparisons -/

/-- The comparison of a linear form with zero. -/
structure Comparison where
  /-- The form. -/
  form : LinearForm
  /-- How it compares with zero. -/
  relation : Relation

namespace Comparison

/-- The lower bound that a comparison puts on the combination of its form. -/
def lower? (c : Comparison) : Option DeltaRat := c.relation.lower? (-c.form.constant)

/-- The upper bound that a comparison puts on the combination of its form. -/
def upper? (c : Comparison) : Option DeltaRat := c.relation.upper? (-c.form.constant)

/-- The lower bounds that comparisons put on a combination of names. -/
def lowerBounds (cs : List Comparison) (d : LinComb String) : List DeltaRat :=
  (cs.filter fun c => c.form.coefficients = d).filterMap lower?

/-- The upper bounds that comparisons put on a combination of names. -/
def upperBounds (cs : List Comparison) (d : LinComb String) : List DeltaRat :=
  (cs.filter fun c => c.form.coefficients = d).filterMap upper?

variable {cs : List Comparison} {c : Comparison} {d : LinComb String} {b : DeltaRat}

lemma mem_lowerBounds :
    b ∈ lowerBounds cs d ↔ ∃ c ∈ cs, c.form.coefficients = d ∧ c.lower? = some b := by
  simp [lowerBounds, and_assoc]

lemma mem_upperBounds :
    b ∈ upperBounds cs d ↔ ∃ c ∈ cs, c.form.coefficients = d ∧ c.upper? = some b := by
  simp [upperBounds, and_assoc]

/-- One more comparison counts for its own combination only. -/
lemma lowerBounds_append (cs : List Comparison) (c : Comparison) (d : LinComb String) :
    lowerBounds (cs ++ [c]) d =
      lowerBounds cs d ++ if c.form.coefficients = d then c.lower?.toList else [] := by
  rw [lowerBounds, lowerBounds, List.filter_append, List.filterMap_append]
  congr 1
  split_ifs with h
  · cases hc : c.lower? <;> simp [h, hc]
  · simp [h]

lemma upperBounds_append (cs : List Comparison) (c : Comparison) (d : LinComb String) :
    upperBounds (cs ++ [c]) d =
      upperBounds cs d ++ if c.form.coefficients = d then c.upper?.toList else [] := by
  rw [upperBounds, upperBounds, List.filter_append, List.filterMap_append]
  congr 1
  split_ifs with h
  · cases hc : c.upper? <;> simp [h, hc]
  · simp [h]

/-- There are no bounds on a combination that no comparison has. -/
lemma lowerBounds_eq_nil (h : ∀ c ∈ cs, c.form.coefficients ≠ d) : lowerBounds cs d = [] :=
  List.eq_nil_iff_forall_not_mem.2 fun b hb => by
    obtain ⟨c, hc, heq, -⟩ := mem_lowerBounds.1 hb
    exact h c hc heq

lemma upperBounds_eq_nil (h : ∀ c ∈ cs, c.form.coefficients ≠ d) : upperBounds cs d = [] :=
  List.eq_nil_iff_forall_not_mem.2 fun b hb => by
    obtain ⟨c, hc, heq, -⟩ := mem_upperBounds.1 hb
    exact h c hc heq

/-- Infinitesimal distances are one or none. -/
lemma delta_of_mem_lowerBounds (h : b ∈ lowerBounds cs d) : b.delta = 0 ∨ b.delta = 1 := by
  obtain ⟨c, -, -, hc⟩ := mem_lowerBounds.1 h
  exact Relation.delta_lower? hc

lemma delta_of_mem_upperBounds (h : b ∈ upperBounds cs d) : b.delta = 0 ∨ b.delta = -1 := by
  obtain ⟨c, -, -, hc⟩ := mem_upperBounds.1 h
  exact Relation.delta_upper? hc

end Comparison

/-- The maximum of a list to which an element may be added. -/
lemma max?_append_toList (bounds : List DeltaRat) (b : Option DeltaRat) :
    (bounds ++ b.toList).max? = Option.merge max bounds.max? b := by
  cases bounds <;> cases b <;> simp [List.max?]

lemma min?_append_toList (bounds : List DeltaRat) (b : Option DeltaRat) :
    (bounds ++ b.toList).min? = Option.merge min bounds.min? b := by
  cases bounds <;> cases b <;> simp [List.min?]

namespace Tableau

open Comparison

/-! ## Slacks -/

section Slacks

variable {t : Tableau} {row : LinComb ℕ} {k : ℕ}

/-- A combination has at most one slack. -/
def SharesSlacks (t : Tableau) : Prop :=
  ∀ row j k, (row, j) ∈ t.slacks → (row, k) ∈ t.slacks → j = k

/-- Asking for the slack of a combination that has one creates none. -/
lemma SharesSlacks.slack_eq (h : t.SharesSlacks) (hk : (row, k) ∈ t.slacks) :
    t.slack row = (k, t) := by
  rw [slack]
  split
  · next j hj =>
    obtain ⟨before, after, heq, -⟩ := List.lookup_eq_some_iff.1 hj
    rw [h row j k (by rw [heq]; simp) hk]
  · next hnone =>
    have hne := List.lookup_eq_none_iff.1 hnone _ hk
    simp at hne

/-- Asking for a slack adds no other one. -/
lemma mem_slacks_slack {entry : LinComb ℕ × ℕ} :
    entry ∈ (t.slack row).2.slacks ↔ entry ∈ t.slacks ∨ entry = (row, (t.slack row).1) := by
  refine ⟨fun h => ?_, fun h => h.elim ((grows_slack t row).slack entry) fun h => ?_⟩
  · rw [slack] at h ⊢
    split at h
    · exact Or.inl h
    · next hnone => exact (List.mem_cons.1 h).symm
  · rw [h]
    exact slack_mem t row

lemma SharesSlacks.slack (h : t.SharesSlacks) (row : LinComb ℕ) : (t.slack row).2.SharesSlacks := by
  intro other j k hj hk
  rw [mem_slacks_slack, Prod.mk.injEq] at hj hk
  rcases hj with hj | ⟨hrow, hj⟩ <;> rcases hk with hk | ⟨hrow', hk⟩
  · exact h other j k hj hk
  · rw [hk, ← hrow', h.slack_eq hj]
  · rw [hj, ← hrow, h.slack_eq hk]
  · rw [hj, hk]

@[simp] lemma numbers_slack (t : Tableau) (row : LinComb ℕ) :
    (t.slack row).2.numbers = t.numbers := by
  rw [slack]
  split <;> rfl

@[simp] lemma slacks_number (t : Tableau) (name : String) :
    (t.number name).2.slacks = t.slacks := by
  rw [number]
  split <;> rfl

lemma slacks_foldl_enterEntry (entries : List (String × ℚ)) (s : LinComb ℕ × Tableau) :
    (entries.foldl enterEntry s).2.slacks = s.2.slacks := by
  induction entries generalizing s with
  | nil => rfl
  | cons e entries ih => exact (ih _).trans (slacks_number s.2 e.1)

@[simp] lemma slacks_combination (t : Tableau) (d : LinComb String) :
    (t.combination d).2.slacks = t.slacks :=
  slacks_foldl_enterEntry d.toList (∅, t)

@[simp] lemma numbers_bound (t : Tableau) (k : ℕ) (relation : Relation) (b : ℚ) :
    (t.bound k relation b).numbers = t.numbers := by
  obtain ⟨lower, upper, heq, -⟩ := t.exists_bound_eq k relation b
  rw [heq]

@[simp] lemma slacks_bound (t : Tableau) (k : ℕ) (relation : Relation) (b : ℚ) :
    (t.bound k relation b).slacks = t.slacks := by
  obtain ⟨lower, upper, heq, -⟩ := t.exists_bound_eq k relation b
  rw [heq]

end Slacks

/-! ## One slack for each combination -/

/-- Each combination of names among some comparisons has one slack, and its bounds are the tightest
that the comparisons of this combination ask for. -/
structure Keeps (t : Tableau) (cs : List Comparison) : Prop extends t.IsFresh where
  sharesSlacks : t.SharesSlacks
  /-- A slack stands for a combination of names. -/
  transcribes : ∀ row k, (row, k) ∈ t.slacks → ∃ d, t.Transcribes row d
  /-- The combination of a comparison has a slack. -/
  exists_slack : ∀ c ∈ cs, ∃ row k, (row, k) ∈ t.slacks ∧ t.Transcribes row c.form.coefficients
  /-- The lower bound of a slack is the greatest. -/
  lower_eq : ∀ row k d, (row, k) ∈ t.slacks → t.Transcribes row d →
    t.lower[k]? = (lowerBounds cs d).max?
  /-- The upper bound of a slack is the smallest. -/
  upper_eq : ∀ row k d, (row, k) ∈ t.slacks → t.Transcribes row d →
    t.upper[k]? = (upperBounds cs d).min?

namespace Keeps

variable {t : Tableau} {cs : List Comparison} {row : LinComb ℕ} {k : ℕ} {d : LinComb String}

lemma empty : (∅ : Tableau).Keeps [] :=
  { isFresh_empty with
    sharesSlacks := fun _ _ _ hj => absurd hj List.not_mem_nil
    transcribes := fun _ _ hk => absurd hk List.not_mem_nil
    exists_slack := fun _ hc => absurd hc List.not_mem_nil
    lower_eq := fun _ _ _ hk => absurd hk List.not_mem_nil
    upper_eq := fun _ _ _ hk => absurd hk List.not_mem_nil }

/-- Numbering the names of a combination keeps the slacks and what they stand for. -/
lemma combination (h : t.Keeps cs) (hd : d.IsReduced) : (t.combination d).2.Keeps cs := by
  obtain ⟨hfresh, hgrows, -⟩ := IsFresh.combination (V := ℚ) h.toIsFresh hd
  -- a slack stands for what it stood for before
  have hold : ∀ {row k e}, (row, k) ∈ (t.combination d).2.slacks →
      (t.combination d).2.Transcribes row e → (row, k) ∈ t.slacks ∧ t.Transcribes row e := by
    intro row k e hk he
    rw [slacks_combination] at hk
    obtain ⟨e', he'⟩ := h.transcribes row k hk
    obtain rfl := (he'.mono hgrows hfresh.toHasLayout).injective he
    exact ⟨hk, he'⟩
  exact
    { hfresh with
      sharesSlacks := by
        rw [SharesSlacks, slacks_combination]
        exact h.sharesSlacks
      transcribes := fun row k hk => by
        rw [slacks_combination] at hk
        exact (h.transcribes row k hk).imp fun e he => he.mono hgrows hfresh.toHasLayout
      exists_slack := fun c hc => by
        obtain ⟨row, k, hk, hrow⟩ := h.exists_slack c hc
        exact ⟨row, k, hgrows.slack _ hk, hrow.mono hgrows hfresh.toHasLayout⟩
      lower_eq := fun row k e hk he => by
        rw [hgrows.lower]
        exact h.lower_eq row k e (hold hk he).1 (hold hk he).2
      upper_eq := fun row k e hk he => by
        rw [hgrows.upper]
        exact h.upper_eq row k e (hold hk he).1 (hold hk he).2 }

/-- Asking for the slack of a combination of names: a new one has no bounds, and no comparison has
its combination. -/
lemma slack (h : t.Keeps cs) (hd : t.Transcribes row d) : (t.slack row).2.Keeps cs := by
  by_cases hslack : ∃ k, (row, k) ∈ t.slacks
  · obtain ⟨k, hk⟩ := hslack
    rw [h.sharesSlacks.slack_eq hk]
    exact h
  · have hgrows := grows_slack t row
    have hfresh := h.toIsFresh.slack hd.row_isReduced hd.support
    have hiff : ∀ {other e}, (t.slack row).2.Transcribes other e ↔ t.Transcribes other e :=
      ⟨fun he => he.congr (numbers_slack t row).symm, fun he => he.congr (numbers_slack t row)⟩
    have hnone : ∀ c ∈ cs, c.form.coefficients ≠ d := by
      rintro c hc rfl
      obtain ⟨other, k, hk, hother⟩ := h.exists_slack c hc
      exact hslack ⟨k, hother.unique hd ▸ hk⟩
    have hnew : ∀ other, (other, (t.slack row).1) ∉ t.slacks := by
      intro other hother
      have heq := hfresh.slack_inj other row _ (hgrows.slack _ hother) (slack_mem t row)
      exact hslack ⟨_, heq ▸ hother⟩
    exact
      { hfresh with
        sharesSlacks := h.sharesSlacks.slack row
        transcribes := fun other k hk => by
          rcases mem_slacks_slack.1 hk with hk | hk
          · exact (h.transcribes other k hk).imp fun e he => hiff.2 he
          · exact ⟨d, hiff.2 ((Prod.mk.inj hk).1 ▸ hd)⟩
        exists_slack := fun c hc => by
          obtain ⟨other, k, hk, hother⟩ := h.exists_slack c hc
          exact ⟨other, k, hgrows.slack _ hk, hiff.2 hother⟩
        lower_eq := fun other k e hk he => by
          rw [hgrows.lower]
          rcases mem_slacks_slack.1 hk with hk | hk
          · exact h.lower_eq other k e hk (hiff.1 he)
          · obtain ⟨rfl, rfl⟩ := Prod.mk.inj hk
            obtain rfl := (hiff.1 he).injective hd
            rw [lowerBounds_eq_nil hnone]
            exact Option.eq_none_iff_forall_ne_some.2 fun b hb =>
              (h.lower_bound _ b hb).2.elim hnew
        upper_eq := fun other k e hk he => by
          rw [hgrows.upper]
          rcases mem_slacks_slack.1 hk with hk | hk
          · exact h.upper_eq other k e hk (hiff.1 he)
          · obtain ⟨rfl, rfl⟩ := Prod.mk.inj hk
            obtain rfl := (hiff.1 he).injective hd
            rw [upperBounds_eq_nil hnone]
            exact Option.eq_none_iff_forall_ne_some.2 fun b hb =>
              (h.upper_bound _ b hb).2.elim hnew }

/-- Bounding the slack of a comparison's combination records the comparison. -/
lemma bound (h : t.Keeps cs) {c : Comparison} (hrow : t.Transcribes row c.form.coefficients)
    (hk : (row, k) ∈ t.slacks) :
    (t.bound k c.relation (-c.form.constant)).Keeps (cs ++ [c]) := by
  have hfresh := h.toIsFresh.bound hk c.relation (-c.form.constant)
  have hiff : ∀ {other e}, (t.bound k c.relation (-c.form.constant)).Transcribes other e ↔
      t.Transcribes other e :=
    ⟨fun he => he.congr (numbers_bound t k _ _).symm, fun he => he.congr (numbers_bound t k _ _)⟩
  -- the slack that is bounded is the one of the comparison's combination
  have hsame : ∀ {other j e}, (other, j) ∈ t.slacks → t.Transcribes other e →
      (k = j ↔ c.form.coefficients = e) := by
    intro other j e hj he
    refine ⟨?_, ?_⟩
    · rintro rfl
      exact hrow.injective (h.slack_inj other row k hj hk ▸ he)
    · rintro rfl
      exact h.sharesSlacks row k j hk (he.unique hrow ▸ hj)
  exact
    { hfresh with
      sharesSlacks := by
        rw [SharesSlacks, slacks_bound]
        exact h.sharesSlacks
      transcribes := fun other j hj => by
        rw [slacks_bound] at hj
        exact (h.transcribes other j hj).imp fun e he => hiff.2 he
      exists_slack := fun e he => by
        rw [slacks_bound]
        rcases List.mem_append.1 he with he | he
        · obtain ⟨other, j, hj, hother⟩ := h.exists_slack e he
          exact ⟨other, j, hj, hiff.2 hother⟩
        · obtain rfl := List.mem_singleton.1 he
          exact ⟨row, k, hk, hiff.2 hrow⟩
      lower_eq := fun other j e hj he => by
        rw [slacks_bound] at hj
        rw [hiff] at he
        rw [lower_bound_getElem?, h.lower_eq other j e hj he, lowerBounds_append]
        simp only [hsame hj he]
        split_ifs
        · exact (max?_append_toList _ _).symm
        · rw [List.append_nil]
      upper_eq := fun other j e hj he => by
        rw [slacks_bound] at hj
        rw [hiff] at he
        rw [upper_bound_getElem?, h.upper_eq other j e hj he, upperBounds_append]
        simp only [hsame hj he]
        split_ifs
        · exact (min?_append_toList _ _).symm
        · rw [List.append_nil] }

/-- **An assertion records its comparison.** -/
lemma assert (h : t.Keeps cs) {c : Comparison} (hc : c.form.IsReduced) :
    (t.assert c.form c.relation).2.Keeps (cs ++ [c]) := by
  have hrow := h.toIsFresh.transcribes_combination hc
  exact ((h.combination hc).slack hrow).bound (hrow.congr (numbers_slack _ _)) (slack_mem _ _)

end Keeps

/-! ## Names and slacks -/

/-- The names that have variables and the combinations that have slacks come from comparisons. -/
structure StemsFrom (t : Tableau) (cs : List Comparison) : Prop where
  /-- A name that has a variable occurs in a form. -/
  number : ∀ (name : String) k, t.numbers[name]? = some k →
    ∃ c ∈ cs, c.form.coefficients.coeff name ≠ 0
  /-- A slack stands for the combination of a form. -/
  slack : ∀ row k, (row, k) ∈ t.slacks → ∃ c ∈ cs, t.Transcribes row c.form.coefficients

namespace StemsFrom

variable {t : Tableau} {cs : List Comparison}

lemma empty : (∅ : Tableau).StemsFrom [] where
  number := fun name k hk => by
    change (∅ : Std.ExtTreeMap String ℕ compare)[name]? = some k at hk
    simp at hk
  slack := fun _ _ hk => absurd hk List.not_mem_nil

/-- **An assertion adds names of its form and at most the slack of its combination.** -/
lemma assert (h : t.StemsFrom cs) (ht : t.IsFresh) {c : Comparison} (hc : c.form.IsReduced) :
    (t.assert c.form c.relation).2.StemsFrom (cs ++ [c]) := by
  obtain ⟨hfresh, hgrows, -⟩ := IsFresh.combination (V := ℚ) ht hc
  have hrow := ht.transcribes_combination hc
  set row := (t.combination c.form.coefficients).1
  set u := (t.combination c.form.coefficients).2
  have hnumbers : (t.assert c.form c.relation).2.numbers = u.numbers := by
    change ((u.slack row).2.bound _ _ _).numbers = _
    rw [numbers_bound, numbers_slack]
  refine ⟨fun name k hk => ?_, fun other k hk => ?_⟩
  · rw [hnumbers] at hk
    rcases mem_numbers_combination hc hk with hk | hname
    · obtain ⟨e, he, hne⟩ := h.number name k hk
      exact ⟨e, List.mem_append_left _ he, hne⟩
    · exact ⟨c, by simp, hname⟩
  · change (other, k) ∈ ((u.slack row).2.bound _ _ _).slacks at hk
    rw [slacks_bound, mem_slacks_slack, slacks_combination, Prod.mk.injEq] at hk
    rcases hk with hk | ⟨rfl, -⟩
    · obtain ⟨e, he, hother⟩ := h.slack other k hk
      exact ⟨e, List.mem_append_left _ he, (hother.mono hgrows hfresh.toHasLayout).congr hnumbers⟩
    · exact ⟨c, by simp, hrow.congr hnumbers⟩

end StemsFrom

/-! ## Any number of assertions -/

section AssertAll

/-- The tableau after comparisons are asserted, one after the other. -/
def assertAll (t : Tableau) (cs : List Comparison) : Tableau :=
  cs.foldl (fun t c => (t.assert c.form c.relation).2) t

variable {cs : List Comparison}

/-- **Asserting comparisons keeps them**: their combinations have one slack each, with the tightest
bounds. -/
lemma keeps_assertAll (h : ∀ c ∈ cs, c.form.IsReduced) : (assertAll ∅ cs).Keeps cs := by
  induction cs using List.reverseRecOn with
  | nil => exact .empty
  | append_singleton cs c ih =>
    rw [assertAll, List.foldl_append]
    exact (ih fun e he => h e (List.mem_append_left _ he)).assert (h c (by simp))

/-- **Names and slacks come from the comparisons that are asserted.** -/
lemma stemsFrom_assertAll (h : ∀ c ∈ cs, c.form.IsReduced) : (assertAll ∅ cs).StemsFrom cs := by
  induction cs using List.reverseRecOn with
  | nil => exact .empty
  | append_singleton cs c ih =>
    have hcs := fun e he => h e (List.mem_append_left _ he)
    rw [assertAll, List.foldl_append]
    exact (ih hcs).assert (keeps_assertAll hcs).toIsFresh (h c (by simp))

end AssertAll

/-! ## Redundant assertions -/

/-- In a consistent tableau no variable has conflicting bounds. -/
lemma IsConsistent.isConflicting_eq_false {t : Tableau} (h : t.IsConsistent) (k : ℕ) :
    t.isConflicting k = false := by
  rw [isConflicting]
  split
  · next lower upper hl hu => exact decide_eq_false (h k lower upper hl hu).not_gt
  · rfl

namespace Keeps

variable {t : Tableau} {cs : List Comparison} {c : Comparison}

/-- In a consistent tableau the bounds that comparisons put on a combination do not exclude each
other. -/
lemma le_of_isConsistent (h : t.Keeps cs) (ht : t.IsConsistent) {row : LinComb ℕ} {k : ℕ}
    {d : LinComb String} (hk : (row, k) ∈ t.slacks) (hd : t.Transcribes row d) :
    ∀ l ∈ lowerBounds cs d, ∀ u ∈ upperBounds cs d, l ≤ u := by
  intro l hl u hu
  obtain ⟨greatest, hmax⟩ := Option.isSome_iff_exists.1 (List.isSome_max?_of_mem hl)
  obtain ⟨smallest, hmin⟩ := Option.isSome_iff_exists.1 (List.isSome_min?_of_mem hu)
  calc l ≤ greatest := (List.max?_eq_some_iff.1 hmax).2 l hl
    _ ≤ smallest := ht k greatest smallest ((h.lower_eq row k d hk hd).trans hmax)
        ((h.upper_eq row k d hk hd).trans hmin)
    _ ≤ u := (List.min?_eq_some_iff.1 hmin).2 u hu

/-- **A comparison that follows from those of its combination changes nothing**: its combination has
a slack, and its bounds are no tighter than those of the slack. -/
lemma assert_eq_self (h : t.Keeps cs) (ht : t.IsConsistent)
    (hexists : ∃ e ∈ cs, e.form.coefficients = c.form.coefficients)
    (himplied : ∀ q : ℚ, (∀ e ∈ cs, e.form.coefficients = c.form.coefficients →
      e.relation.Admits (-e.form.constant) (DeltaRat.ofRat q)) →
      c.relation.Admits (-c.form.constant) (DeltaRat.ofRat q)) :
    (t.assert c.form c.relation).2 = t ∧
      t.isConflicting (t.assert c.form c.relation).1 = false := by
  obtain ⟨e, he, heq⟩ := hexists
  obtain ⟨row, k, hk, hrow⟩ := h.exists_slack e he
  rw [heq] at hrow
  have hbound : t.bound k c.relation (-c.form.constant) = t := by
    refine bound_eq_self (h.lower_eq row k _ hk hrow) (h.upper_eq row k _ hk hrow)
      (fun _ => delta_of_mem_lowerBounds) (fun _ => delta_of_mem_upperBounds)
      (h.le_of_isConsistent ht hk hrow) fun q hl hu => himplied q fun e he heq => ?_
    exact Relation.admits_iff.2 ⟨fun l hel => hl l (mem_lowerBounds.2 ⟨e, he, heq, hel⟩),
      fun u heu => hu u (mem_upperBounds.2 ⟨e, he, heq, heu⟩)⟩
  have hassert : t.assert c.form c.relation = (k, t) := by
    rw [Tableau.assert, h.toIsFresh.combination_eq hrow]
    dsimp only
    rw [h.sharesSlacks.slack_eq hk]
    dsimp only
    rw [hbound]
  rw [hassert]
  exact ⟨rfl, ht.isConflicting_eq_false k⟩

end Keeps

end Tableau

end ExactArith
