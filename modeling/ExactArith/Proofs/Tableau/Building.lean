import ExactArith.Proofs.Linear.Form
import ExactArith.Proofs.Tableau.System

set_option autoImplicit false
set_option relaxedAutoImplicit false

/-!
# Entering constraints into a tableau

Asserting a constraint numbers the names of its form, takes the slack of the form and bounds it. The
points of the new tableau are points of the old one, and what the new bounds ask of them is that the
form compares with zero in the way of the constraint. Before the search, the basic variables are the
slacks, and every value is zero.

## Main definitions

* `ExactArith.Tableau.IsFresh` — what holds of a tableau before the search.
* `ExactArith.Tableau.IsConsistent` — no two bounds of a variable exclude each other.
* `ExactArith.Tableau.Grows` — a tableau has the variables of another, perhaps more, and its bounds.
* `ExactArith.Tableau.StandsFor` — a combination of problem variables says what one of names does.
* `ExactArith.Tableau.IsBuilt` — the tableaux made by assertions that contradict no earlier one.

## Main results

* `ExactArith.Tableau.IsFresh.assert` — assertions keep a tableau fresh.
* `ExactArith.Tableau.IsFresh.meets_assert` — an assertion is one more condition on the names.
* `ExactArith.Tableau.IsBuilt.isFresh`, `ExactArith.Tableau.IsBuilt.isConsistent` — built tableaux
  are fresh, and no bounds exclude each other.
-/

namespace ExactArith.Tableau

/-! ## Fresh tableaux -/

/-- What holds of a tableau before the search. -/
structure IsFresh (t : Tableau) : Prop extends t.HasLayout where
  /-- The rows are the definitions of the slacks. -/
  rows_iff : ∀ (k : ℕ) row, t.rows[k]? = some row ↔ (row, k) ∈ t.slacks
  /-- Every value is zero. -/
  value_eq : ∀ k, t.value k = 0

/-- No two bounds of a variable exclude each other. -/
def IsConsistent (t : Tableau) : Prop :=
  ∀ (k : ℕ) lower upper, t.lower[k]? = some lower → t.upper[k]? = some upper → lower ≤ upper

/-- A tableau has the variables of another, perhaps more, and its bounds. -/
structure Grows (t u : Tableau) : Prop where
  /-- Names keep their variables. -/
  number : ∀ (name : String) k, t.numbers[name]? = some k → u.numbers[name]? = some k
  /-- Slacks stay. -/
  slack : ∀ entry ∈ t.slacks, entry ∈ u.slacks
  /-- The lower bounds are the same. -/
  lower : u.lower = t.lower
  /-- The upper bounds are the same. -/
  upper : u.upper = t.upper

namespace Grows

variable {V : Type} [AddCommGroup V] [Module ℚ V] {t u v : Tableau}

lemma refl (t : Tableau) : t.Grows t := ⟨fun _ _ h => h, fun _ h => h, rfl, rfl⟩

lemma trans (h : t.Grows u) (h' : u.Grows v) : t.Grows v :=
  ⟨fun name k hk => h'.number name k (h.number name k hk),
    fun entry he => h'.slack entry (h.slack entry he),
    h'.lower.trans h.lower, h'.upper.trans h.upper⟩

lemma isPoint (h : t.Grows u) {σ : String → V} {x : ℕ → V} (hx : u.IsPoint σ x) : t.IsPoint σ x :=
  ⟨fun name k hk => hx.number name k (h.number name k hk),
    fun row k hk => hx.slack row k (h.slack _ hk)⟩

lemma meets_iff (h : t.Grows u) (x : ℕ → DeltaRat) : u.Meets x ↔ t.Meets x := by
  rw [Tableau.meets_iff, Tableau.meets_iff, h.lower, h.upper]

end Grows

lemma isFresh_empty : (∅ : Tableau).IsFresh := by
  have hnumbers : ∀ (name : String) k, (∅ : Tableau).numbers[name]? ≠ some k := by
    intro name k
    change (∅ : Std.ExtTreeMap String ℕ compare)[name]? ≠ some k
    simp
  have hslacks : ∀ entry, entry ∉ (∅ : Tableau).slacks := fun entry => List.not_mem_nil
  have hbounds : ∀ (k : ℕ) (b : DeltaRat),
      (∅ : Std.ExtTreeMap ℕ DeltaRat compare)[k]? ≠ some b := by
    simp
  have hrows : ∀ (k : ℕ) row, (∅ : Tableau).rows[k]? ≠ some row := by
    intro k row
    change (∅ : Std.ExtTreeMap ℕ (LinComb ℕ) compare)[k]? ≠ some row
    simp
  exact
    { number_lt := fun name k hk => absurd hk (hnumbers name k)
      number_inj := fun name _ k hk => absurd hk (hnumbers name k)
      slack_lt := fun row k hk => absurd hk (hslacks _)
      slack_inj := fun row _ k hk => absurd hk (hslacks _)
      slack_ne_number := fun row k _ hk => absurd hk (hslacks _)
      slack_support := fun row k _ hk => absurd hk (hslacks _)
      slack_isReduced := fun row k hk => absurd hk (hslacks _)
      lower_bound := fun k b hk => absurd hk (hbounds k b)
      upper_bound := fun k b hk => absurd hk (hbounds k b)
      rows_iff := fun k row => iff_of_false (hrows k row) (hslacks _)
      value_eq := fun k => by
        change (∅ : Std.ExtTreeMap ℕ DeltaRat compare).getD k 0 = 0
        simp }

lemma allows_empty (σ : String → DeltaRat) : (∅ : Tableau).Allows σ := by
  obtain ⟨x, hx⟩ := isFresh_empty.toHasLayout.exists_point σ
  refine ⟨x, hx, fun k => ⟨fun b hb => ?_, fun b hb => ?_⟩⟩
  · change (∅ : Std.ExtTreeMap ℕ DeltaRat compare)[k]? = some b at hb
    simp at hb
  · change (∅ : Std.ExtTreeMap ℕ DeltaRat compare)[k]? = some b at hb
    simp at hb

/-! ## Problem variables -/

lemma number_getElem? (t : Tableau) (name : String) :
    (t.number name).2.numbers[name]? = some (t.number name).1 := by
  rw [number]
  split
  · assumption
  · simp

lemma grows_number (t : Tableau) (name : String) : t.Grows (t.number name).2 := by
  rw [number]
  split
  · exact Grows.refl t
  · next hnew =>
    exact ⟨fun other k hk => (SortedMap.getElem?_insert_new_iff hnew).2 (Or.inr hk), fun _ h => h,
      rfl, rfl⟩

/-- Asking for a problem variable keeps a tableau fresh: a new variable has the next number. -/
lemma IsFresh.number {t : Tableau} (h : t.IsFresh) (name : String) : (t.number name).2.IsFresh := by
  rw [Tableau.number]
  split
  · exact h
  · next hnew =>
    have hins := fun (other : String) (k : ℕ) =>
      SortedMap.getElem?_insert_new_iff (v := t.size) (j := other) (w := k) hnew
    exact
      { number_lt := fun other k hk => by
          rcases (hins other k).1 hk with ⟨-, rfl⟩ | hk
          · exact Nat.lt_succ_self _
          · exact (h.number_lt other k hk).trans (Nat.lt_succ_self _)
        number_inj := fun first second k hfirst hsecond => by
          rcases (hins first k).1 hfirst with ⟨rfl, rfl⟩ | hfirst <;>
            rcases (hins second _).1 hsecond with ⟨rfl, hk⟩ | hsecond
          · rfl
          · exact absurd (h.number_lt second _ hsecond) (lt_irrefl _)
          · exact absurd (hk ▸ h.number_lt first _ hfirst) (lt_irrefl _)
          · exact h.number_inj first second k hfirst hsecond
        slack_lt := fun row k hk => (h.slack_lt row k hk).trans (Nat.lt_succ_self _)
        slack_inj := h.slack_inj
        slack_ne_number := fun row k other hk hother => by
          rcases (hins other k).1 hother with ⟨-, rfl⟩ | hother
          · exact absurd (h.slack_lt row _ hk) (lt_irrefl _)
          · exact h.slack_ne_number row k other hk hother
        slack_support := fun row k j hk hj => by
          obtain ⟨other, hother⟩ := h.slack_support row k j hk hj
          exact ⟨other, (hins other j).2 (Or.inr hother)⟩
        slack_isReduced := h.slack_isReduced
        lower_bound := h.lower_bound
        upper_bound := h.upper_bound
        rows_iff := h.rows_iff
        value_eq := h.value_eq }

/-! ## Combinations of problem variables -/

section Combination

variable {V : Type} [AddCommGroup V] [Module ℚ V] {t u : Tableau} {row : LinComb ℕ}
  {part : (String → V) → V}

/-- A combination of problem variables has at every point the value that `part` has at the names. -/
structure StandsFor (t : Tableau) (row : LinComb ℕ) (part : (String → V) → V) : Prop where
  isReduced : row.IsReduced
  support : ∀ j, row.coeff j ≠ 0 → ∃ name : String, t.numbers[name]? = some j
  eval_eq : ∀ (σ : String → V) (x : ℕ → V), t.IsPoint σ x → row.eval x = part σ

/-- A combination does not mention the variable of a name. -/
def Omits (t : Tableau) (row : LinComb ℕ) (name : String) : Prop :=
  ∀ k, t.numbers[name]? = some k → row.coeff k = 0

/-- New variables are not mentioned. -/
lemma StandsFor.omits_of_grows (h : t.StandsFor row part) (hgrows : t.Grows u) (hu : u.IsFresh)
    {name : String} (homits : t.Omits row name) : u.Omits row name := by
  intro k hk
  by_contra hne
  obtain ⟨other, hother⟩ := h.support k hne
  obtain rfl := hu.number_inj _ _ k (hgrows.number other k hother) hk
  exact hne (homits k hother)

/-- Setting the coefficient of a name that is not mentioned adds its part to the value. -/
lemma StandsFor.set_number (h : t.StandsFor row part) (ht : t.IsFresh) {name : String} {a : ℚ}
    (ha : a ≠ 0) (homits : t.Omits row name) :
    (t.number name).2.StandsFor (row.set (t.number name).1 a) fun σ => part σ + a • σ name := by
  have hgrows := t.grows_number name
  have hnum := t.number_getElem? name
  have hnew := h.omits_of_grows hgrows (ht.number name) homits _ hnum
  refine ⟨h.isReduced.set _ ha, fun j hj => ?_, fun σ x hx => ?_⟩
  · rw [LinComb.coeff_set] at hj
    split_ifs at hj with hk
    · exact ⟨name, hk ▸ hnum⟩
    · exact (h.support j hj).imp fun other hother => hgrows.number other j hother
  · rw [LinComb.eval_set, hnew, sub_zero, h.eval_eq σ x (hgrows.isPoint hx), hx.number name _ hnum]

/-- Reading the entries of a combination one by one: names get their variables, and the row says of
the variables what the entries say of the names.

**Proof sketch.** Induction on the entries. The names of the later entries stay unmentioned, because
the entries have distinct names and distinct names have distinct variables. -/
lemma IsFresh.foldl_number (entries : List (String × ℚ))
    (hne : entries.Pairwise fun e f => e.1 ≠ f.1) (hz : ∀ e ∈ entries, e.2 ≠ 0) :
    ∀ (row : LinComb ℕ) (t : Tableau) (part : (String → V) → V), t.IsFresh →
      t.StandsFor row part → (∀ e ∈ entries, t.Omits row e.1) →
      ∃ row' u, entries.foldl (fun (s : LinComb ℕ × Tableau) e =>
            (s.1.set (s.2.number e.1).1 e.2, (s.2.number e.1).2)) (row, t) = (row', u) ∧
        u.IsFresh ∧ t.Grows u ∧
        u.StandsFor row' fun σ => part σ + (entries.map fun e => e.2 • σ e.1).sum := by
  induction entries with
  | nil =>
    intro row t part ht hrow _
    exact ⟨row, t, rfl, ht, Grows.refl t, by simpa using hrow⟩
  | cons e entries ih =>
    intro row t part ht hrow homits
    obtain ⟨hhead, htail⟩ := List.pairwise_cons.1 hne
    have hfresh := ht.number e.1
    have hgrows := t.grows_number e.1
    have hstands := hrow.set_number ht (hz e List.mem_cons_self) (homits e List.mem_cons_self)
    -- a later name is not the one that is entered now, so it has another variable
    have hrest : ∀ f ∈ entries, (t.number e.1).2.Omits (row.set (t.number e.1).1 e.2) f.1 := by
      intro f hf k hk
      have hold := hrow.omits_of_grows hgrows hfresh (homits f (List.mem_cons_of_mem e hf)) k hk
      rw [LinComb.coeff_set, if_neg, hold]
      rintro rfl
      exact hhead f hf (hfresh.number_inj _ _ _ (t.number_getElem? e.1) hk)
    obtain ⟨row', u, hfold, hu, hgrows', hrow'⟩ :=
      ih htail (fun f hf => hz f (List.mem_cons_of_mem e hf)) _ _ _ hfresh hstands hrest
    refine ⟨row', u, hfold, hu, hgrows.trans hgrows', ?_⟩
    simpa only [List.map_cons, List.sum_cons, add_assoc] using hrow'

/-- **A combination of names becomes one of problem variables** with the same value at
every point. -/
lemma IsFresh.combination (h : t.IsFresh) {c : LinComb String} (hc : c.IsReduced) :
    (t.combination c).2.IsFresh ∧ t.Grows (t.combination c).2 ∧
      (t.combination c).2.StandsFor (t.combination c).1 fun σ : String → V => c.eval σ := by
  have hz : ∀ e ∈ c.toList, e.2 ≠ 0 := fun e he =>
    (hc.getElem?_eq_some_iff.1 (LinComb.mem_toList_iff.1 he)).2
  have hempty : t.StandsFor ∅ fun _ : String → V => 0 :=
    ⟨LinComb.isReduced_empty, fun j hj => absurd (LinComb.coeff_zero j) hj,
      fun _ x _ => LinComb.eval_empty x⟩
  obtain ⟨row, u, hfold, hu, hgrows, hrow⟩ := IsFresh.foldl_number c.toList
    (SortedMap.pairwise_toList c.coeffs) hz ∅ t _ h hempty fun _ _ k _ => LinComb.coeff_zero k
  have heq : t.combination c = (row, u) := hfold
  rw [heq]
  refine ⟨hu, hgrows, hrow.isReduced, hrow.support, fun σ x hx => ?_⟩
  rw [hrow.eval_eq σ x hx, zero_add, LinComb.eval_eq_sum]

end Combination

/-! ## Slacks -/

lemma slack_mem (t : Tableau) (row : LinComb ℕ) :
    (row, (t.slack row).1) ∈ (t.slack row).2.slacks := by
  rw [slack]
  split
  · next k hk =>
    obtain ⟨before, after, heq, -⟩ := List.lookup_eq_some_iff.1 hk
    rw [heq]
    simp
  · exact List.mem_cons_self

lemma grows_slack (t : Tableau) (row : LinComb ℕ) : t.Grows (t.slack row).2 := by
  rw [slack]
  split
  · exact Grows.refl t
  · exact ⟨fun _ _ h => h, fun _ h => List.mem_cons_of_mem _ h, rfl, rfl⟩

/-- The value of every combination is zero before the search. -/
lemma IsFresh.rowValue_eq {t : Tableau} (h : t.IsFresh) (row : LinComb ℕ) : t.rowValue row = 0 := by
  have hzero : t.value = fun _ => 0 := funext h.value_eq
  rw [rowValue_eq_eval, hzero, LinComb.eval_eq_sum]
  simp

/-- The next number is that of no variable, so it has no row yet. -/
lemma IsFresh.rows_size {t : Tableau} (h : t.IsFresh) : t.rows[t.size]? = none :=
  Option.eq_none_iff_forall_ne_some.2 fun row hrow =>
    absurd (h.slack_lt row _ ((h.rows_iff _ row).1 hrow)) (lt_irrefl _)

/-- Asking for a slack keeps a tableau fresh: a new slack has the next number, is defined by its
row, and its value is zero because all values are. -/
lemma IsFresh.slack {t : Tableau} (h : t.IsFresh) {row : LinComb ℕ} (hrow : row.IsReduced)
    (hsupp : ∀ j, row.coeff j ≠ 0 → ∃ name : String, t.numbers[name]? = some j) :
    (t.slack row).2.IsFresh := by
  rw [Tableau.slack]
  split
  · exact h
  · have hcons : ∀ r k, (r, k) ∈ (row, t.size) :: t.slacks ↔
        (row = r ∧ t.size = k) ∨ (r, k) ∈ t.slacks := by
      simp [eq_comm]
    exact
      { number_lt := fun name k hk => (h.number_lt name k hk).trans (Nat.lt_succ_self _)
        number_inj := h.number_inj
        slack_lt := fun r k hk => by
          rcases (hcons r k).1 hk with ⟨-, rfl⟩ | hk
          · exact Nat.lt_succ_self _
          · exact (h.slack_lt r k hk).trans (Nat.lt_succ_self _)
        slack_inj := fun r s k hr hs => by
          rcases (hcons r k).1 hr with ⟨rfl, rfl⟩ | hr <;>
            rcases (hcons s _).1 hs with ⟨rfl, hk⟩ | hs
          · rfl
          · exact absurd (h.slack_lt s _ hs) (lt_irrefl _)
          · exact absurd (hk ▸ h.slack_lt r _ hr) (lt_irrefl _)
          · exact h.slack_inj r s k hr hs
        slack_ne_number := fun r k name hr hname => by
          rcases (hcons r k).1 hr with ⟨-, rfl⟩ | hr
          · exact absurd (h.number_lt name _ hname) (lt_irrefl _)
          · exact h.slack_ne_number r k name hr hname
        slack_support := fun r k j hr hj => by
          rcases (hcons r k).1 hr with ⟨rfl, -⟩ | hr
          · exact hsupp j hj
          · exact h.slack_support r k j hr hj
        slack_isReduced := fun r k hr => by
          rcases (hcons r k).1 hr with ⟨rfl, -⟩ | hr
          · exact hrow
          · exact h.slack_isReduced r k hr
        lower_bound := fun k b hk =>
          ⟨(h.lower_bound k b hk).1, (h.lower_bound k b hk).2.imp fun _ => List.mem_cons_of_mem _⟩
        upper_bound := fun k b hk =>
          ⟨(h.upper_bound k b hk).1, (h.upper_bound k b hk).2.imp fun _ => List.mem_cons_of_mem _⟩
        rows_iff := fun k r => by
          rw [SortedMap.getElem?_insert_new_iff h.rows_size, hcons, h.rows_iff k r, and_comm]
        value_eq := fun k => by
          change (t.values.insert t.size (t.rowValue row)).getD k 0 = 0
          rw [Std.ExtTreeMap.getD_insert, h.rowValue_eq]
          split_ifs
          · rfl
          · exact h.value_eq k }

/-! ## Bounds -/

/-- Raising a lower bound changes that bound only. -/
lemma exists_tightenLower_eq (t : Tableau) (k : ℕ) {c : DeltaRat} (hc : 0 ≤ c.delta) :
    ∃ lower, t.tightenLower k c = { t with lower := lower } ∧
      ∀ (j : ℕ) d, lower[j]? = some d → t.lower[j]? = some d ∨ j = k ∧ 0 ≤ d.delta := by
  rw [tightenLower]
  split_ifs
  · refine ⟨_, rfl, fun j d hd => ?_⟩
    rcases SortedMap.getElem?_insert_eq_some_iff.1 hd with ⟨rfl, rfl⟩ | ⟨-, hd⟩
    · exact Or.inr ⟨rfl, hc⟩
    · exact Or.inl hd
  · exact ⟨t.lower, rfl, fun j d hd => Or.inl hd⟩

lemma exists_tightenUpper_eq (t : Tableau) (k : ℕ) {c : DeltaRat} (hc : c.delta ≤ 0) :
    ∃ upper, t.tightenUpper k c = { t with upper := upper } ∧
      ∀ (j : ℕ) d, upper[j]? = some d → t.upper[j]? = some d ∨ j = k ∧ d.delta ≤ 0 := by
  rw [tightenUpper]
  split_ifs
  · refine ⟨_, rfl, fun j d hd => ?_⟩
    rcases SortedMap.getElem?_insert_eq_some_iff.1 hd with ⟨rfl, rfl⟩ | ⟨-, hd⟩
    · exact Or.inr ⟨rfl, hc⟩
    · exact Or.inl hd
  · exact ⟨t.upper, rfl, fun j d hd => Or.inl hd⟩

/-- Bounding a variable changes the bounds of that variable only, and a new bound is on the side
of its infinitesimal part. -/
lemma exists_bound_eq (t : Tableau) (k : ℕ) (relation : Relation) (b : ℚ) :
    ∃ lower upper, t.bound k relation b = { t with lower := lower, upper := upper } ∧
      (∀ (j : ℕ) c, lower[j]? = some c → t.lower[j]? = some c ∨ j = k ∧ 0 ≤ c.delta) ∧
      ∀ (j : ℕ) c, upper[j]? = some c → t.upper[j]? = some c ∨ j = k ∧ c.delta ≤ 0 := by
  cases relation with
  | eq =>
    obtain ⟨lower, hl, hlb⟩ := t.exists_tightenLower_eq k (c := ⟨b, 0⟩) le_rfl
    obtain ⟨upper, hu, hub⟩ :=
      (t.tightenLower k ⟨b, 0⟩).exists_tightenUpper_eq k (c := ⟨b, 0⟩) le_rfl
    rw [hl] at hu hub
    exact ⟨lower, upper, by rw [bound, hl, hu], hlb, hub⟩
  | le =>
    obtain ⟨upper, hu, hub⟩ := t.exists_tightenUpper_eq k (c := ⟨b, 0⟩) le_rfl
    exact ⟨t.lower, upper, hu, fun j c hc => Or.inl hc, hub⟩
  | lt =>
    obtain ⟨upper, hu, hub⟩ := t.exists_tightenUpper_eq k (c := ⟨b, -1⟩) (by norm_num)
    exact ⟨t.lower, upper, hu, fun j c hc => Or.inl hc, hub⟩
  | ge =>
    obtain ⟨lower, hl, hlb⟩ := t.exists_tightenLower_eq k (c := ⟨b, 0⟩) le_rfl
    exact ⟨lower, t.upper, hl, hlb, fun j c hc => Or.inl hc⟩
  | gt =>
    obtain ⟨lower, hl, hlb⟩ := t.exists_tightenLower_eq k (c := ⟨b, 1⟩) zero_le_one
    exact ⟨lower, t.upper, hl, hlb, fun j c hc => Or.inl hc⟩

lemma IsFresh.bound {t : Tableau} (h : t.IsFresh) {row : LinComb ℕ} {k : ℕ}
    (hk : (row, k) ∈ t.slacks) (relation : Relation) (b : ℚ) : (t.bound k relation b).IsFresh := by
  obtain ⟨lower, upper, heq, hlower, hupper⟩ := t.exists_bound_eq k relation b
  rw [heq]
  exact
    { h with
      lower_bound := fun j c hc => by
        rcases hlower j c hc with hc | ⟨rfl, hc⟩
        · exact h.lower_bound j c hc
        · exact ⟨hc, row, hk⟩
      upper_bound := fun j c hc => by
        rcases hupper j c hc with hc | ⟨rfl, hc⟩
        · exact h.upper_bound j c hc
        · exact ⟨hc, row, hk⟩ }

lemma isPoint_bound_iff {V : Type} [AddCommGroup V] [Module ℚ V] (t : Tableau) (k : ℕ)
    (relation : Relation) (b : ℚ) (σ : String → V) (x : ℕ → V) :
    (t.bound k relation b).IsPoint σ x ↔ t.IsPoint σ x := by
  obtain ⟨lower, upper, heq, -⟩ := t.exists_bound_eq k relation b
  rw [heq]
  exact ⟨fun h => ⟨h.number, h.slack⟩, fun h => ⟨h.number, h.slack⟩⟩

/-- Bounds that do not exclude each other stay so, if those of the bounded variable do. -/
lemma IsConsistent.bound {t : Tableau} (h : t.IsConsistent) {k : ℕ} {relation : Relation} {b : ℚ}
    (hk : (t.bound k relation b).isConflicting k = false) :
    (t.bound k relation b).IsConsistent := by
  intro j lower upper hl hu
  by_cases hj : j = k
  · subst hj
    rw [isConflicting, hl, hu] at hk
    exact not_lt.1 (of_decide_eq_false hk)
  · obtain ⟨lowers, uppers, heq, hlower, hupper⟩ := t.exists_bound_eq k relation b
    rw [heq] at hl hu
    exact h j lower upper ((hlower j lower hl).resolve_right fun hk => hj hk.1)
      ((hupper j upper hu).resolve_right fun hk => hj hk.1)

/-! ## Assertions -/

section Assert

variable {t : Tableau} {form : LinearForm}

lemma IsFresh.assert (h : t.IsFresh) (hf : form.IsReduced) (relation : Relation) :
    (t.assert form relation).2.IsFresh := by
  obtain ⟨hfresh, -, hrow⟩ := IsFresh.combination (V := ℚ) h hf
  exact (hfresh.slack hrow.isReduced hrow.support).bound (slack_mem _ _) relation (-form.constant)

/-- A point of a tableau after an assertion is one before it. -/
lemma IsFresh.isPoint_of_assert {V : Type} [AddCommGroup V] [Module ℚ V] (h : t.IsFresh)
    (hf : form.IsReduced) {relation : Relation} {σ : String → V} {x : ℕ → V}
    (hx : (t.assert form relation).2.IsPoint σ x) : t.IsPoint σ x := by
  obtain ⟨-, hgrows, -⟩ := IsFresh.combination (V := V) h hf
  have hx' := (isPoint_bound_iff _ _ relation (-form.constant) σ x).1 hx
  exact hgrows.isPoint ((grows_slack _ _).isPoint hx')

/-- **An assertion is one more condition on a point**: the comparison has to admit the value of the
form's combination. -/
lemma IsFresh.meets_assert (h : t.IsFresh) (hf : form.IsReduced) {relation : Relation}
    {σ : String → DeltaRat} {x : ℕ → DeltaRat} (hx : (t.assert form relation).2.IsPoint σ x) :
    (t.assert form relation).2.Meets x ↔
      t.Meets x ∧ relation.Admits (-form.constant) (form.coefficients.eval σ) := by
  obtain ⟨-, hgrows, hrow⟩ := IsFresh.combination (V := DeltaRat) h hf
  set row := (t.combination form.coefficients).1
  set u := (t.combination form.coefficients).2
  have hx' : (u.slack row).2.IsPoint σ x := (isPoint_bound_iff _ _ relation _ σ x).1 hx
  have hslack : x (u.slack row).1 = form.coefficients.eval σ :=
    (hx'.slack row _ (slack_mem u row)).trans (hrow.eval_eq σ x ((grows_slack u row).isPoint hx'))
  change ((u.slack row).2.bound (u.slack row).1 relation (-form.constant)).Meets x ↔ _
  rw [meets_bound, (grows_slack u row).meets_iff, hgrows.meets_iff, hslack]

/-- **An assertion is one more condition on the values of the names.** -/
lemma IsFresh.allows_assert (h : t.IsFresh) (hf : form.IsReduced) (relation : Relation)
    (σ : String → DeltaRat) : (t.assert form relation).2.Allows σ ↔
      t.Allows σ ∧ relation.Admits (-form.constant) (form.coefficients.eval σ) := by
  have hlayout := (h.assert hf relation).toHasLayout
  obtain ⟨x, hx⟩ := hlayout.exists_point σ
  rw [hlayout.allows_iff_meets hx, h.meets_assert hf hx,
    h.toHasLayout.allows_iff_meets (h.isPoint_of_assert hf hx)]

/-- An assertion without a contradiction leaves no bounds that exclude each other. -/
lemma IsConsistent.assert (h : t.IsConsistent) (ht : t.IsFresh) (hf : form.IsReduced)
    {relation : Relation}
    (hk : (t.assert form relation).2.isConflicting (t.assert form relation).1 = false) :
    (t.assert form relation).2.IsConsistent := by
  obtain ⟨-, hgrows, -⟩ := IsFresh.combination (V := ℚ) ht hf
  set row := (t.combination form.coefficients).1
  set u := (t.combination form.coefficients).2
  have hgrows' := hgrows.trans (grows_slack u row)
  change ((u.slack row).2.bound (u.slack row).1 relation (-form.constant)).IsConsistent
  refine IsConsistent.bound (fun k lower upper hl hu => ?_) hk
  exact h k lower upper (hgrows'.lower ▸ hl) (hgrows'.upper ▸ hu)

end Assert

/-- The tableaux that are made by asserting reduced forms, none of which contradicts an earlier one
on the same slack. -/
inductive IsBuilt : Tableau → Prop
  /-- Nothing is asserted yet. -/
  | empty : IsBuilt ∅
  /-- One more assertion. -/
  | assert {t : Tableau} {form : LinearForm} {relation : Relation} (ht : IsBuilt t)
      (hf : form.IsReduced)
      (hk : (t.assert form relation).2.isConflicting (t.assert form relation).1 = false) :
      IsBuilt (t.assert form relation).2

lemma IsBuilt.isFresh {t : Tableau} (h : t.IsBuilt) : t.IsFresh := by
  induction h with
  | empty => exact isFresh_empty
  | assert _ hf _ ih => exact ih.assert hf _

lemma IsBuilt.isConsistent {t : Tableau} (h : t.IsBuilt) : t.IsConsistent := by
  induction h with
  | empty =>
    intro k lower upper hl
    change (∅ : Std.ExtTreeMap ℕ DeltaRat compare)[k]? = some lower at hl
    simp at hl
  | assert ht hf hk ih => exact ih.assert ht.isFresh hf hk

end ExactArith.Tableau
