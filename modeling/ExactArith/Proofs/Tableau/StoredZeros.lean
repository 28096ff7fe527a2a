import ExactArith.Proofs.Tableau.Coefficients

set_option autoImplicit false
set_option relaxedAutoImplicit false

/-!
# Coefficients that are zero

A form may store a coefficient that is zero, and then the rows of its tableau store it, too. This
changes nothing about the points of the tableau, but the search may choose the variable of such a
coefficient, and there it would have to invert zero. As long as it does not come to that, it makes
the pivots that it would make if no zeros were stored.

## Main definitions

* `ExactArith.LinComb.dropZeros`, `ExactArith.Tableau.dropZeros` — a combination, and a tableau,
  without the zeros that are stored.
* `ExactArith.Tableau.Reduces` — a tableau is another one without the zeros, at the same values.
* `ExactArith.Tableau.invertsZeroWithin` — whether the search would have to invert zero.

## Main results

* `ExactArith.Tableau.wellFormed_dropZeros` — without the zeros, a tableau of comparisons is ready
  for the search.
* `ExactArith.Tableau.Reduces.step_eq_pivot`, `ExactArith.Tableau.Reduces.final_run` — a search that
  never inverts zero is the same without the zeros.
* `ExactArith.Tableau.WellFormed.invertsZeroWithin_eq_false` — if no zeros are stored, none is ever
  inverted.
* `ExactArith.Tableau.solvesSlacks_run` — a search that never inverts zero keeps the values a
  solution of the slacks.
-/

namespace ExactArith

/-! ## Combinations -/

namespace LinComb

variable {κ : Type} [Ord κ] [Std.TransOrd κ]

/-- A combination without the zeros that it stores. -/
def dropZeros (r : LinComb κ) : LinComb κ := ⟨r.coeffs.filter fun _ a => a ≠ 0⟩

lemma toList_dropZeros (r : LinComb κ) : r.dropZeros.toList = r.toList.filter fun e => e.2 ≠ 0 :=
  Std.ExtTreeMap.toList_filter

variable [Std.LawfulEqOrd κ]

lemma getElem?_dropZeros_eq_some_iff {r : LinComb κ} {k : κ} {a : ℚ} :
    r.dropZeros.coeffs[k]? = some a ↔ r.coeffs[k]? = some a ∧ a ≠ 0 := by
  rw [← mem_toList_iff, toList_dropZeros, List.mem_filter, mem_toList_iff, decide_eq_true_iff]

lemma isReduced_dropZeros (r : LinComb κ) : r.dropZeros.IsReduced :=
  fun _ hk => (getElem?_dropZeros_eq_some_iff.1 hk).2 rfl

@[simp] lemma coeff_dropZeros (r : LinComb κ) (k : κ) : r.dropZeros.coeff k = r.coeff k := by
  by_cases hk : r.coeff k = 0
  · rw [hk]
    by_contra hne
    have hstored := getElem?_dropZeros_eq_some_iff.1 (getElem?_of_coeff_ne_zero hne)
    exact hne ((coeff_of_getElem? hstored.1).symm.trans hk)
  · exact coeff_of_getElem? (getElem?_dropZeros_eq_some_iff.2 ⟨getElem?_of_coeff_ne_zero hk, hk⟩)

/-- A combination without its zeros is the reduced one that has the same coefficients. -/
lemma dropZeros_eq {r s : LinComb κ} (hs : s.IsReduced) (h : ∀ k, r.coeff k = s.coeff k) :
    r.dropZeros = s :=
  r.isReduced_dropZeros.ext hs (Finsupp.ext fun k => (coeff_dropZeros r k).trans (h k))

@[simp] lemma eval_dropZeros {V : Type} [AddCommGroup V] [Module ℚ V] (r : LinComb κ) (x : κ → V) :
    r.dropZeros.eval x = r.eval x := by
  rw [eval, eval, show r.dropZeros.toFinsupp = r.toFinsupp from Finsupp.ext (coeff_dropZeros r)]

end LinComb

namespace Tableau

/-! ## Tableaux -/

/-- A tableau without the zeros that its slacks and rows store. -/
def dropZeros (t : Tableau) : Tableau :=
  { t with
    slacks := t.slacks.map fun e => (e.1.dropZeros, e.2)
    rows := t.rows.map fun _ row => row.dropZeros }

section DropZeros

variable {t : Tableau} {row : LinComb ℕ} {k : ℕ}

lemma mem_slacks_dropZeros :
    (row, k) ∈ t.dropZeros.slacks ↔ ∃ r, (r, k) ∈ t.slacks ∧ r.dropZeros = row := by
  simp [dropZeros]

lemma mem_slacks_mapCoeffs {f : ℚ → ℚ} :
    (row, k) ∈ (t.mapCoeffs f).slacks ↔ ∃ r, (r, k) ∈ t.slacks ∧ r.mapCoeffs f = row := by
  simp [mapCoeffs]

lemma solvesSlacks_dropZeros_iff {V : Type} [AddCommGroup V] [Module ℚ V] {x : ℕ → V} :
    t.dropZeros.SolvesSlacks x ↔ t.SolvesSlacks x := by
  constructor
  · intro h row k hk
    rw [h row.dropZeros k (mem_slacks_dropZeros.2 ⟨row, hk, rfl⟩), LinComb.eval_dropZeros]
  · intro h row k hk
    obtain ⟨r, hr, rfl⟩ := mem_slacks_dropZeros.1 hk
    rw [h r k hr, LinComb.eval_dropZeros]

/-- **Without the zeros, a tableau of comparisons is fresh.**

**Proof sketch.** With coefficients away from zero it is. Other coefficients have the same
variables, so all that a fresh tableau says of its variables holds of the tableau itself; and
without the zeros its rows are reduced. -/
lemma isFresh_dropZeros (cs : List Comparison) : (assertAll ∅ cs).dropZeros.IsFresh := by
  have h := (keeps_awayFromZero cs).toIsFresh
  set t := assertAll ∅ cs
  have hslack : ∀ {r k}, (r, k) ∈ t.slacks →
      (r.mapCoeffs awayFromZero, k) ∈ (t.mapCoeffs awayFromZero).slacks :=
    fun {r k} hr => mem_slacks_mapCoeffs.2 ⟨r, hr, rfl⟩
  have hbounded : ∀ {k}, (∃ row, (row, k) ∈ (t.mapCoeffs awayFromZero).slacks) →
      ∃ row, (row, k) ∈ t.dropZeros.slacks := by
    rintro k ⟨row, hrow⟩
    obtain ⟨r, hr, -⟩ := mem_slacks_mapCoeffs.1 hrow
    exact ⟨_, mem_slacks_dropZeros.2 ⟨r, hr, rfl⟩⟩
  have hrows : ∀ {k : ℕ} {r}, t.rows[k]? = some r ↔ (r, k) ∈ t.slacks := by
    intro k r
    have hiff := h.rows_iff k (r.mapCoeffs awayFromZero)
    rw [mem_slacks_mapCoeffs, mapCoeffs, Std.ExtTreeMap.getElem?_map,
      Option.map_eq_some_iff] at hiff
    simpa only [(LinComb.mapCoeffs_injective awayFromZero_injective).eq_iff,
      exists_eq_right] using hiff
  exact
    { number_lt := h.number_lt
      number_inj := h.number_inj
      slack_lt := fun row k hk => by
        obtain ⟨r, hr, -⟩ := mem_slacks_dropZeros.1 hk
        exact h.slack_lt _ k (hslack hr)
      slack_inj := fun row other k hk hother => by
        obtain ⟨r, hr, rfl⟩ := mem_slacks_dropZeros.1 hk
        obtain ⟨s, hs, rfl⟩ := mem_slacks_dropZeros.1 hother
        have heq := h.slack_inj _ _ k (hslack hr) (hslack hs)
        rw [LinComb.mapCoeffs_injective awayFromZero_injective heq]
      slack_ne_number := fun row k name hk => by
        obtain ⟨r, hr, -⟩ := mem_slacks_dropZeros.1 hk
        exact h.slack_ne_number _ k name (hslack hr)
      slack_support := fun row k j hk hj => by
        obtain ⟨r, hr, rfl⟩ := mem_slacks_dropZeros.1 hk
        rw [LinComb.coeff_dropZeros] at hj
        exact h.slack_support _ k j (hslack hr)
          (LinComb.coeff_mapCoeffs_ne_zero awayFromZero_ne_zero hj)
      slack_isReduced := fun row k hk => by
        obtain ⟨r, -, rfl⟩ := mem_slacks_dropZeros.1 hk
        exact r.isReduced_dropZeros
      lower_bound := fun k b hb => (h.lower_bound k b hb).imp_right hbounded
      upper_bound := fun k b hb => (h.upper_bound k b hb).imp_right hbounded
      rows_iff := fun k row => by
        rw [mem_slacks_dropZeros, dropZeros, Std.ExtTreeMap.getElem?_map, Option.map_eq_some_iff]
        simp only [hrows]
      value_eq := h.value_eq }

/-- **Without the zeros, a row transcribes a combination** if it does with other coefficients. -/
lemma Transcribes.dropZeros_of_mapCoeffs {f : ℚ → ℚ} {d : LinComb String}
    (hf : Function.Injective f) (hzero : ∀ a, f a ≠ 0)
    (h : (t.mapCoeffs f).Transcribes (row.mapCoeffs f) (d.mapCoeffs f)) :
    t.dropZeros.Transcribes row.dropZeros d.dropZeros where
  row_isReduced := row.isReduced_dropZeros
  isReduced := d.isReduced_dropZeros
  numbered := fun name hname => by
    rw [LinComb.coeff_dropZeros] at hname
    exact h.numbered name (LinComb.coeff_mapCoeffs_ne_zero hzero hname)
  coeff_eq := fun name k hk => by
    rw [LinComb.coeff_dropZeros, LinComb.coeff_dropZeros]
    exact LinComb.coeff_eq_of_mapCoeffs hf hzero (h.coeff_eq name k hk)
  support := fun k hk => by
    rw [LinComb.coeff_dropZeros] at hk
    exact h.support k (LinComb.coeff_mapCoeffs_ne_zero hzero hk)

/-- Asserting up to a contradiction asserts all comparisons if there is none. -/
lemma eq_assertAll_of_assertAll? {u : Tableau} {cs : List Comparison}
    (h : t.assertAll? cs = some u) : u = t.assertAll cs := by
  induction cs generalizing t with
  | nil => exact (Option.some.inj h).symm
  | cons c cs ih =>
    rw [assertAll?] at h
    dsimp only at h
    split_ifs at h
    exact ih h

/-- Without a contradiction, no bounds exclude each other, whatever the coefficients. -/
lemma isConsistent_of_assertAll? {cs : List Comparison} (h : assertAll? ∅ cs = some t) :
    t.IsConsistent := by
  have hmap : assertAll? ∅ (cs.map (Comparison.mapCoeffs awayFromZero)) =
      some (t.mapCoeffs awayFromZero) := by
    rw [← mapCoeffs_empty awayFromZero, assertAll?_mapCoeffs awayFromZero_injective value_empty, h]
    rfl
  exact (assertAll?_eq_some isFresh_empty IsBuilt.empty.isConsistent (isReduced_awayFromZero cs)
    hmap).2

/-- **Without the zeros, a tableau whose bounds do not exclude each other is ready for the
search.** -/
lemma wellFormed_dropZeros {cs : List Comparison} (h : (assertAll ∅ cs).IsConsistent) :
    (assertAll ∅ cs).dropZeros.WellFormed :=
  (isFresh_dropZeros cs).wellFormed h

end DropZeros

/-! ## Pivots -/

section Pivot

lemma dropZeros_solvedRow (row : LinComb ℕ) (leaving entering : ℕ) {a : ℚ} (ha : a ≠ 0) :
    (solvedRow row leaving entering a).dropZeros = solvedRow row.dropZeros leaving entering a :=
  LinComb.dropZeros_eq (isReduced_solvedRow row.isReduced_dropZeros leaving entering ha) fun k => by
    rw [coeff_solvedRow, coeff_solvedRow, LinComb.coeff_dropZeros]

lemma dropZeros_substitute (row : LinComb ℕ) (k : ℕ) (d : LinComb ℕ) :
    (substitute row k d).dropZeros = substitute row.dropZeros k d.dropZeros :=
  LinComb.dropZeros_eq (isReduced_substitute row.isReduced_dropZeros k d.dropZeros) fun j => by
    simp only [coeff_substitute, LinComb.coeff_dropZeros]

/-- The values after a pivot, where a row that does not store the entering variable counts as one
that stores zero. -/
lemma value_pivot_eq {t : Tableau} {v : Violation} {entering : ℕ} {a : ℚ}
    (hrow : t.rows[v.basic]? = some v.row) (hnone : t.rows[entering]? = none) (k : ℕ) :
    (t.pivot v entering a).value k =
      if entering = k then t.value k + t.shift v a
      else if v.basic = k then v.target
      else t.value k + ((t.rows[k]?).elim 0 fun row => row.coeff entering) • t.shift v a := by
  rw [value_pivot, getElem?_movedValues]
  by_cases he : entering = k
  · subst he
    simp [hnone]
  · by_cases hl : v.basic = k
    · subst hl
      have hbase : ((t.values.insert v.basic v.target).insert entering
          (t.value entering + t.shift v a))[v.basic]? = some v.target :=
        SortedMap.getElem?_insert_eq_some_iff.2 (Or.inr ⟨he,
          SortedMap.getElem?_insert_eq_some_iff.2 (Or.inl ⟨rfl, rfl⟩)⟩)
      rw [hrow, hbase]
      simp [he]
    · have hbase : ((t.values.insert v.basic v.target).insert entering
          (t.value entering + t.shift v a))[k]? = t.values[k]? := by
        simp [Std.ExtTreeMap.getElem?_insert, he, hl]
      have hvalue : t.value k = (t.values[k]?).getD 0 := Std.ExtTreeMap.getD_eq_getD_getElem?
      rw [hbase, if_neg he, if_neg hl]
      cases t.rows[k]? with
      | none => simp [hvalue]
      | some row =>
        cases hc : row.coeffs[entering]? with
        | none => simp [hc, LinComb.coeff_eq_getD, hvalue]
        | some c => simp [hc, LinComb.coeff_eq_getD, Ne.symm hl, DeltaRat.smul_def]

end Pivot

/-! ## The same search without the zeros -/

/-- A tableau is another one without the zeros that it stores, at the same values. -/
structure Reduces (t s : Tableau) : Prop extends t.dropZeros.SameSystem s where
  rows : s.rows = t.dropZeros.rows
  value : ∀ k, s.value k = t.value k

namespace Reduces

variable {t s : Tableau} (h : t.Reduces s)

include h

lemma getElem?_rows (k : ℕ) : s.rows[k]? = (t.rows[k]?).map LinComb.dropZeros := by
  rw [h.rows]
  exact Std.ExtTreeMap.getElem?_map

lemma violated?_eq (k : ℕ) : s.violated? k = t.violated? k := by
  rw [violated?, violated?, h.lower, h.upper, h.value]
  rfl

lemma canRepair_eq (tooSmall : Bool) (k : ℕ) (a : ℚ) :
    s.canRepair tooSmall k a = t.canRepair tooSmall k a := by
  rw [canRepair, canRepair, canIncrease, canIncrease, canDecrease, canDecrease, h.lower, h.upper,
    h.value]
  rfl

/-- The first violation is the same. -/
lemma violation?_eq :
    s.violation? = t.violation?.map fun v => { v with row := v.row.dropZeros } := by
  have hlist : s.rows.toList = t.rows.toList.map fun e => (e.1, e.2.dropZeros) := by
    rw [h.rows]
    exact Std.ExtTreeMap.toList_map
  rw [violation?, violation?, hlist, List.findSome?_map, List.map_findSome?]
  congr 1
  funext e
  simp only [Function.comp_apply, h.violated?_eq, Option.map_map]
  rfl

lemma entering?_eq (v : Violation) :
    s.entering? { v with row := v.row.dropZeros } =
      v.row.toList.find? fun e => decide (e.2 ≠ 0) && t.canRepair v.tooSmall e.1 e.2 := by
  rw [entering?, LinComb.toList_dropZeros, List.find?_filter]
  congr 1
  funext e
  simp [h.canRepair_eq]

/-- If no variable can give way, none can where the zeros are dropped. -/
lemma entering?_eq_none {v : Violation} (hv : t.entering? v = none) :
    s.entering? { v with row := v.row.dropZeros } = none := by
  have hblocked := List.find?_eq_none.1 hv
  rw [h.entering?_eq, List.find?_eq_none]
  intro e he
  rw [Bool.and_eq_true]
  exact fun hrepair => hblocked e he hrepair.2

/-- A variable that enters with a coefficient other than zero enters where the zeros are
dropped. -/
lemma entering?_eq_some {v : Violation} {entering : ℕ} {a : ℚ}
    (hv : t.entering? v = some (entering, a)) (ha : a ≠ 0) :
    s.entering? { v with row := v.row.dropZeros } = some (entering, a) := by
  obtain ⟨hrepair, before, after, heq, hbefore⟩ := List.find?_eq_some_iff_append.1 hv
  rw [h.entering?_eq, List.find?_eq_some_iff_append]
  refine ⟨by simp [ha, hrepair], before, after, heq, fun e he => ?_⟩
  rw [Bool.not_eq_true', Bool.and_eq_false_iff]
  exact Or.inr (by simpa using hbefore e he)

/-- **A pivot on a coefficient other than zero is the same without the zeros**, if the entering
variable is not basic. -/
lemma pivot {v : Violation} {entering : ℕ} {a : ℚ} (ha : a ≠ 0)
    (hrow : t.rows[v.basic]? = some v.row) (hnone : t.rows[entering]? = none) :
    (t.pivot v entering a).Reduces (s.pivot { v with row := v.row.dropZeros } entering a) := by
  have hrow' : s.rows[v.basic]? = some v.row.dropZeros := by
    rw [h.getElem?_rows, hrow, Option.map_some]
  have hnone' : s.rows[entering]? = none := by rw [h.getElem?_rows, hnone, Option.map_none]
  have hshift : s.shift { v with row := v.row.dropZeros } a = t.shift v a := by
    rw [shift, shift, h.value]
  refine ⟨⟨h.size, h.numbers, h.slacks, h.lower, h.upper⟩,
    Std.ExtTreeMap.ext_getElem? fun k => ?_, fun k => ?_⟩
  · rw [dropZeros, Std.ExtTreeMap.getElem?_map, rows_pivot, rows_pivot, h.getElem?_rows]
    split_ifs
    · rw [Option.map_some, dropZeros_solvedRow _ _ _ ha]
    · rfl
    · simp only [Option.map_map]
      congr 1
      funext row
      simp only [Function.comp_apply, dropZeros_substitute, dropZeros_solvedRow _ _ _ ha]
  · rw [value_pivot_eq hrow' hnone', value_pivot_eq hrow hnone, hshift, h.value, h.getElem?_rows]
    cases t.rows[k]? <;> simp

end Reduces

/-! ## Searching without inverting zero -/

/-- Whether the next step of the search would invert zero. -/
def invertsZero (t : Tableau) : Bool :=
  match t.violation? with
  | none => false
  | some violation =>
    match t.entering? violation with
    | none => false
    | some (_, a) => a = 0

/-- Whether the search would invert zero within a budget of pivots. -/
def invertsZeroWithin : ℕ → Tableau → Bool
  | 0, _ => false
  | budget + 1, t =>
    match t.step with
    | .feasible | .noRepair _ => false
    | .pivot _ _ next => t.invertsZero || invertsZeroWithin budget next

/-- Without a budget the search stays where it is. -/
lemma final_run_zero (t : Tableau) : (t.run 0).final = t := by
  rw [run]
  cases t.step <;> rfl

lemma run_of_feasible {t : Tableau} (ht : t.step = .feasible) (budget : ℕ) :
    t.run budget = ⟨[], .feasible, t⟩ := by
  cases budget <;> rw [run, ht]

lemma run_of_noRepair {t : Tableau} {basic : ℕ} (ht : t.step = .noRepair basic) (budget : ℕ) :
    t.run budget = ⟨[], .noRepair basic, t⟩ := by
  cases budget <;> rw [run, ht]

namespace WellFormed

variable {t : Tableau}

/-- Without stored zeros, no step inverts zero. -/
lemma invertsZero_eq_false (h : t.WellFormed) : t.invertsZero = false := by
  rw [invertsZero]
  split
  · rfl
  · next v hv =>
    split
    · rfl
    · next entering a he =>
      have hstored := (SortedMap.find?_toList_eq_some
        (p := fun k a => t.canRepair v.tooSmall k a) he).1
      exact decide_eq_false (h.row_entry (violation?_eq_some hv).1 hstored).1

/-- **If no zeros are stored, none is ever inverted.** -/
lemma invertsZeroWithin_eq_false (h : t.WellFormed) (budget : ℕ) :
    t.invertsZeroWithin budget = false := by
  induction budget generalizing t with
  | zero => rfl
  | succ budget ih =>
    rw [invertsZeroWithin]
    cases hstep : t.step with
    | feasible => rfl
    | noRepair basic => rfl
    | pivot leaving entering next =>
      have hnext := (h.pivotsTo ⟨leaving, entering, hstep⟩).1
      simp only [h.invertsZero_eq_false, ih hnext, Bool.or_self]

end WellFormed

namespace Reduces

variable {t s : Tableau}

lemma step_eq_feasible (h : t.Reduces s) (ht : t.step = .feasible) : s.step = .feasible := by
  rw [step, h.violation?_eq, Tableau.step_eq_feasible ht]
  rfl

lemma step_eq_noRepair (h : t.Reduces s) {basic : ℕ} (ht : t.step = .noRepair basic) :
    s.step = .noRepair basic := by
  rw [step] at ht
  split at ht
  · simp at ht
  · next v hv =>
    split at ht
    · next he =>
      obtain rfl := Step.noRepair.inj ht
      simp only [step, h.violation?_eq, hv, Option.map_some, h.entering?_eq_none he]
    · simp at ht

/-- **A pivot that inverts a number other than zero is the same without the zeros.** -/
lemma step_eq_pivot (h : t.Reduces s) (hs : s.WellFormed) {leaving entering : ℕ} {u : Tableau}
    (ht : t.step = .pivot leaving entering u) (hz : t.invertsZero = false) :
    ∃ u', s.step = .pivot leaving entering u' ∧ u.Reduces u' := by
  rw [step] at ht
  rw [invertsZero] at hz
  split at ht
  · simp at ht
  · next v hv =>
    rw [hv] at hz
    dsimp only at hz
    split at ht
    · simp at ht
    · next e a he =>
      rw [he] at hz
      have ha : a ≠ 0 := of_decide_eq_false hz
      obtain ⟨rfl, rfl, rfl⟩ := Step.pivot.inj ht
      have hstep : s.step = .pivot v.basic e (s.pivot { v with row := v.row.dropZeros } e a) := by
        simp only [step, h.violation?_eq, hv, Option.map_some, h.entering?_eq_some he ha]
      refine ⟨_, hstep, h.pivot ha (violation?_eq_some hv).1 ?_⟩
      -- the entering variable is not basic because it is not without the zeros
      obtain ⟨w, b, hchoice, -, -⟩ := Tableau.step_eq_pivot hstep
      have hnone := (hs.rows_entering hchoice).2
      rwa [h.getElem?_rows, Option.map_eq_none_iff] at hnone

/-- **A search that never inverts zero is the same without the zeros.**

**Proof sketch.** Induction on the budget: the first step is the same, and if it is a pivot, it
leads to tableaux that are the same without the zeros. -/
lemma final_run {budget : ℕ} (h : t.Reduces s) (hs : s.WellFormed)
    (hz : t.invertsZeroWithin budget = false) :
    (t.run budget).final.Reduces (s.run budget).final := by
  induction budget generalizing t s with
  | zero =>
    rw [final_run_zero, final_run_zero]
    exact h
  | succ budget ih =>
    cases ht : t.step with
    | feasible =>
      rw [run_of_feasible ht, run_of_feasible (h.step_eq_feasible ht)]
      exact h
    | noRepair basic =>
      rw [run_of_noRepair ht, run_of_noRepair (h.step_eq_noRepair ht)]
      exact h
    | pivot leaving entering next =>
      rw [invertsZeroWithin, ht] at hz
      obtain ⟨hzero, hrest⟩ := Bool.or_eq_false_iff.1 hz
      obtain ⟨next', hs', hnext⟩ := h.step_eq_pivot hs ht hzero
      rw [run, run, ht, hs']
      exact ih hnext (hs.pivotsTo ⟨leaving, entering, hs'⟩).1 hrest

end Reduces

lemma reduces_dropZeros (t : Tableau) : t.Reduces t.dropZeros := ⟨.refl _, rfl, fun _ => rfl⟩

/-- **A search that never inverts zero keeps the values a solution of the slacks**, whatever the
coefficients. -/
lemma solvesSlacks_run {cs : List Comparison} (hc : (assertAll ∅ cs).IsConsistent) {budget : ℕ}
    (hz : (assertAll ∅ cs).invertsZeroWithin budget = false) :
    (assertAll ∅ cs).SolvesSlacks ((assertAll ∅ cs).run budget).final.value := by
  have hs := wellFormed_dropZeros hc
  have hfinal := (reduces_dropZeros _).final_run hs hz
  have hvalue := funext hfinal.value
  obtain ⟨hwf, hsystem⟩ := hs.run budget
  rw [← solvesSlacks_dropZeros_iff, ← hsystem.solvesSlacks_iff, ← hwf.solvesRows_iff, ← hvalue]
  exact hwf.value_solves

end Tableau

end ExactArith
