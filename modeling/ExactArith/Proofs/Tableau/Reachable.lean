import ExactArith.Proofs.Tableau.Basis
import ExactArith.Proofs.Tableau.OneRow

set_option autoImplicit false
set_option relaxedAutoImplicit false

/-!
# The tableaux of a search

A search starts from the tableau of some comparisons, none of which contradicts the earlier ones on
its slack, and goes through the tableaux that pivots lead to. In all of them there is one row for
each combination of names that is compared, the rows say of the variables what the comparisons'
forms say of the names, and every variable that is not basic is where it was last put: at one of its
bounds, or at zero.

Therefore nothing that a step looks up is missing. This is stated for a form of the step that looks
up the row, the bound and the coefficient again where it uses them, as an implementation would that
keeps no proof of their presence.

## Main definitions

* `ExactArith.Tableau.assertAll?` — comparisons asserted one after the other, up to a contradiction.
* `ExactArith.Tableau.IsSlackOf` — the slack of a combination of names.
* `ExactArith.Tableau.guardedStep?` — the next step of the search, given up where something is
  missing.
* `ExactArith.Tableau.SearchInvariant` — what holds of all tableaux of a search.

## Main results

* `ExactArith.Tableau.WellFormed.guardedStep?_eq` — nothing is ever missing.
* `ExactArith.Tableau.WellFormed.number_stays` — a problem variable that is basic stays so.
* `ExactArith.Tableau.searchInvariant_of_reaches` — the invariant holds throughout a search.
-/

namespace ExactArith.Tableau

/-! ## Asserting up to a contradiction -/

/-- The tableau after comparisons are asserted one after the other, unless one of them contradicts
the earlier ones on its slack. -/
def assertAll? (t : Tableau) : List Comparison → Option Tableau
  | [] => some t
  | c :: cs =>
    let (k, u) := t.assert c.form c.relation
    if u.isConflicting k then none else u.assertAll? cs

/-- Without a contradiction, all comparisons are asserted and no bounds exclude each other. -/
lemma assertAll?_eq_some {t u : Tableau} {cs : List Comparison} (ht : t.IsFresh)
    (hc : t.IsConsistent) (hcs : ∀ c ∈ cs, c.form.IsReduced) (h : t.assertAll? cs = some u) :
    u = t.assertAll cs ∧ u.IsConsistent := by
  induction cs generalizing t with
  | nil =>
    obtain rfl := Option.some.inj h
    exact ⟨rfl, hc⟩
  | cons c cs ih =>
    rw [assertAll?] at h
    dsimp only at h
    split_ifs at h with hk
    have hform := hcs c List.mem_cons_self
    exact ih (ht.assert hform c.relation) (hc.assert ht hform (Bool.not_eq_true _ ▸ hk))
      (fun e he => hcs e (List.mem_cons_of_mem c he)) h

/-! ## Slacks of combinations of names -/

section Names

variable {V : Type} [AddCommGroup V] [Module ℚ V] {t : Tableau} {row : LinComb ℕ}
  {c : LinComb String}

/-- A variable is the slack of a combination of names. -/
def IsSlackOf (t : Tableau) (k : ℕ) (c : LinComb String) : Prop :=
  ∃ row, (row, k) ∈ t.slacks ∧ t.Transcribes row c

/-- The values of the names, where the variables have the values `x`. -/
def valuesOfNames (t : Tableau) (x : ℕ → V) (name : String) : V := x (t.numbers.getD name 0)

/-- A combination of names and its transcription have the same value. -/
lemma Transcribes.eval_eq (h : t.Transcribes row c) (ht : t.HasLayout) (x : ℕ → V) :
    row.eval x = c.eval (t.valuesOfNames x) := by
  have hnumber : ∀ {name}, c.coeff name ≠ 0 → t.numbers[name]? = some (t.numbers.getD name 0) := by
    intro name hname
    obtain ⟨k, hk⟩ := h.numbered name hname
    rw [Std.ExtTreeMap.getD_eq_getD_getElem?, hk, Option.getD_some]
  rw [LinComb.eval, LinComb.eval, Finsupp.linearCombination_apply, Finsupp.linearCombination_apply]
  -- the names of the combination correspond to the variables of the row
  refine (Finset.sum_nbij (fun name => t.numbers.getD name 0) ?_ ?_ ?_ ?_).symm
  · intro name hname
    rw [Finsupp.mem_support_iff, LinComb.toFinsupp_apply] at hname ⊢
    rwa [h.coeff_eq name _ (hnumber hname)]
  · intro name hname other hother heq
    simp only [Finset.mem_coe, Finsupp.mem_support_iff, LinComb.toFinsupp_apply] at hname hother
    refine ht.number_inj name other _ (hnumber hname) ?_
    rw [hnumber hother]
    exact congrArg some heq.symm
  · intro k hk
    simp only [Finset.mem_coe, Finsupp.mem_support_iff, LinComb.toFinsupp_apply] at hk
    obtain ⟨name, hname⟩ := h.support k hk
    refine ⟨name, ?_, by simp [Std.ExtTreeMap.getD_eq_getD_getElem?, hname]⟩
    rw [Finset.mem_coe, Finsupp.mem_support_iff, LinComb.toFinsupp_apply]
    rwa [← h.coeff_eq name k hname]
  · intro name hname
    rw [Finsupp.mem_support_iff, LinComb.toFinsupp_apply] at hname
    simp only [LinComb.toFinsupp_apply, valuesOfNames]
    rw [h.coeff_eq name _ (hnumber hname)]

variable {cs : List Comparison}

/-- **Each combination that is compared has one slack.** -/
lemma Keeps.existsUnique_slack (h : t.Keeps cs) {d : Comparison} (hd : d ∈ cs) :
    ∃! k, t.IsSlackOf k d.form.coefficients := by
  obtain ⟨row, k, hk, hrow⟩ := h.exists_slack d hd
  refine ⟨k, ⟨row, hk, hrow⟩, ?_⟩
  rintro j ⟨other, hj, hother⟩
  exact h.sharesSlacks row j k (hother.unique hrow ▸ hj) hk

/-- **The slacks say of the variables what the comparisons' forms say of the names.** -/
lemma Keeps.solvesSlacks_iff (h : t.Keeps cs) (hcs : t.StemsFrom cs) (x : ℕ → V) :
    t.SolvesSlacks x ↔ ∀ c ∈ cs, ∀ k, t.IsSlackOf k c.form.coefficients →
      x k = c.form.coefficients.eval (t.valuesOfNames x) := by
  have hlayout := h.toHasLayout
  refine ⟨fun hx c _ k hk => ?_, fun hx row k hk => ?_⟩
  · obtain ⟨row, hrow, htranscribes⟩ := hk
    rw [hx row k hrow, htranscribes.eval_eq hlayout]
  · obtain ⟨c, hc, htranscribes⟩ := hcs.slack row k hk
    rw [hx c hc k ⟨row, hk, htranscribes⟩, htranscribes.eval_eq hlayout]

/-- Slacks of combinations are not changed by a search. -/
lemma SameSystem.isSlackOf_iff {u : Tableau} (h : t.SameSystem u) {k : ℕ} :
    u.IsSlackOf k c ↔ t.IsSlackOf k c := by
  rw [IsSlackOf, IsSlackOf, h.slacks]
  exact exists_congr fun row => and_congr_right fun _ =>
    ⟨fun hrow => hrow.congr h.numbers.symm, fun hrow => hrow.congr h.numbers⟩

end Names

/-! ## Steps that look things up -/

section Guarded

/-- Whether a variable is below its lower bound. -/
def isBelow (t : Tableau) (k : ℕ) : Bool := (t.lower[k]?).any (t.value k < ·)

/-- Whether a variable is above its upper bound. -/
def isAbove (t : Tableau) (k : ℕ) : Bool := (t.upper[k]?).any (· < t.value k)

/-- The lower bound of a variable that is below it, and the upper bound of any other. -/
def target? (t : Tableau) (k : ℕ) : Option DeltaRat :=
  if t.isBelow k then t.lower[k]? else t.upper[k]?

/-- The basic variables and those that their rows store are variables of the tableau. -/
def InRange (t : Tableau) : Prop :=
  ∀ e ∈ t.rows.toList, e.1 < t.size ∧ ∀ j ∈ e.2.support, j < t.size

instance (t : Tableau) : Decidable t.InRange :=
  inferInstanceAs (Decidable (∀ e ∈ t.rows.toList, e.1 < t.size ∧ ∀ j ∈ e.2.support, j < t.size))

/-- The next step of the search, which looks up the bound, the row and the coefficient where it uses
them. It is given up where one of them is missing, where the coefficient to be inverted is zero, and
where a row belongs to, or stores, a number that is not one of a variable. -/
def guardedStep? (t : Tableau) : Option Step :=
  if t.InRange then
    match t.rows.keys.find? fun k => t.isBelow k || t.isAbove k with
    | none => some .feasible
    | some leaving => do
      let target ← t.target? leaving
      let row ← t.rows[leaving]?
      match row.support.find? fun k => t.canRepair (t.isBelow leaving) k (row.coeff k) with
      | none => some (.noRepair leaving)
      | some entering => do
        let a ← row.coeffs[entering]?
        if a = 0 then none
        else
          let violation := ⟨leaving, row, t.isBelow leaving, target⟩
          some (.pivot leaving entering (t.pivot violation entering a))
  else
    none

variable {t : Tableau}

lemma isSome_violated? (t : Tableau) (k : ℕ) :
    (t.violated? k).isSome = (t.isBelow k || t.isAbove k) := by
  rw [violated?, isBelow, isAbove, ← Option.isSome_filter, ← Option.isSome_filter]
  split
  · next hb =>
    rw [hb]
    rfl
  · next hb => rw [hb, Option.isSome_map, Option.isSome_none, Bool.false_or]

/-- The bound that a variable violates is its lower bound if it is below that, and its upper bound
otherwise. -/
lemma isBelow_of_violated?_eq_some {k : ℕ} {tooSmall : Bool} {target : DeltaRat}
    (h : t.violated? k = some (tooSmall, target)) :
    t.isBelow k = tooSmall ∧ t.target? k = some target := by
  rw [target?, isBelow, ← Option.isSome_filter]
  rw [violated?] at h
  split at h
  · next bound hb =>
    obtain ⟨rfl, rfl⟩ := Prod.mk.inj (Option.some.inj h)
    rw [hb]
    exact ⟨rfl, (Option.filter_eq_some_iff.1 hb).1⟩
  · next hb =>
    obtain ⟨bound, hbound, heq⟩ := Option.map_eq_some_iff.1 h
    obtain ⟨rfl, rfl⟩ := Prod.mk.inj heq
    rw [hb]
    exact ⟨rfl, (Option.filter_eq_some_iff.1 hbound).1⟩

/-- Looking for the first key with a property is looking for the first entry whose key has it. -/
lemma find?_keys {β : Type} (m : Std.ExtTreeMap ℕ β compare) (p : ℕ → Bool) :
    m.keys.find? p = (m.toList.find? fun e => p e.1).map Prod.fst := by
  rw [← Std.ExtTreeMap.map_fst_toList_eq_keys, List.find?_map]
  rfl

/-- The variable that the search takes is the first one that is below or above a bound. -/
lemma find?_keys_eq (t : Tableau) :
    (t.rows.keys.find? fun k => t.isBelow k || t.isAbove k) = t.violation?.map Violation.basic := by
  have hlist : ∀ entries : List (ℕ × LinComb ℕ),
      (entries.find? fun e => t.isBelow e.1 || t.isAbove e.1).map Prod.fst =
        (entries.findSome? fun e => t.violationAt? e.1 e.2).map Violation.basic := by
    intro entries
    induction entries with
    | nil => rfl
    | cons e entries ih =>
      rw [List.find?_cons, List.findSome?_cons, violationAt?, ← isSome_violated?]
      cases t.violated? e.1 with
      | none => exact ih
      | some p => rfl
  rw [find?_keys]
  exact hlist t.rows.toList

/-- The entering variable of the search is the first one in the row that can give way. -/
lemma find?_support_eq (t : Tableau) (v : Violation) :
    (v.row.support.find? fun k => t.canRepair v.tooSmall k (v.row.coeff k)) =
      (t.entering? v).map Prod.fst := by
  rw [LinComb.support, find?_keys, entering?, LinComb.toList]
  congr 1
  refine List.find?_congr fun e he => ?_
  rw [LinComb.coeff_of_getElem? (LinComb.mem_toList_iff.1 he)]

namespace WellFormed

variable (h : t.WellFormed)

include h

lemma row_entry {k j : ℕ} {row : LinComb ℕ} {a : ℚ} (hk : t.rows[k]? = some row)
    (hj : row.coeffs[j]? = some a) : a ≠ 0 ∧ j < t.size ∧ t.rows[j]? = none := by
  obtain ⟨rfl, ha⟩ := (h.row_isReduced k row hk).getElem?_eq_some_iff.1 hj
  exact ⟨ha, h.row_support k row j hk ha⟩

lemma inRange : t.InRange := by
  rintro ⟨k, row⟩ he
  have hk := Std.ExtTreeMap.mem_toList_iff_getElem?_eq_some.1 he
  refine ⟨h.row_lt k row hk, fun j hj => ?_⟩
  rw [LinComb.support, Std.ExtTreeMap.mem_keys, Std.ExtTreeMap.mem_iff_isSome_getElem?,
    Option.isSome_iff_exists] at hj
  obtain ⟨a, ha⟩ := hj
  exact (h.row_entry hk ha).2.1

/-- **Nothing that a step looks up is missing**: the violated variable has a row and the violated
bound, and the entering variable has a coefficient in the row, which is not zero. -/
lemma guardedStep?_eq : t.guardedStep? = some t.step := by
  rw [guardedStep?, if_pos h.inRange, find?_keys_eq, step]
  cases hv : t.violation? with
  | none => rfl
  | some v =>
    obtain ⟨hrow, hviolated, -⟩ := violation?_eq_some hv
    obtain ⟨htooSmall, htarget⟩ := isBelow_of_violated?_eq_some hviolated
    simp only [Option.map_some, htooSmall, htarget, hrow, Option.bind_eq_bind, Option.bind_some,
      find?_support_eq]
    cases he : t.entering? v with
    | none => rfl
    | some e =>
      obtain ⟨entering, a⟩ := e
      have hstored := (SortedMap.find?_toList_eq_some
        (p := fun k a => t.canRepair v.tooSmall k a) he).1
      simp only [Option.map_some, hstored, Option.bind_some, if_neg (h.row_entry hrow hstored).1]

/-- **A problem variable that is basic stays so**: only a variable with a bound leaves. -/
lemma number_stays {u : Tableau} {name : String} {k : ℕ} (hk : t.numbers[name]? = some k)
    (hbasic : t.rows[k]? ≠ none) (hu : t.PivotsTo u) : u.rows[k]? ≠ none := by
  obtain ⟨leaving, entering, hstep⟩ := hu
  obtain ⟨v, a, hc, -, rfl⟩ := step_eq_pivot hstep
  intro hnone
  obtain ⟨-, rfl | hnone⟩ := rows_pivot_eq_none_iff.1 hnone
  · simpa [h.violated?_number hk] using hc.violated
  · exact hbasic hnone

end WellFormed

end Guarded

/-! ## The invariant -/

/-- What holds of all tableaux of a search on some comparisons. -/
structure SearchInvariant (t : Tableau) (cs : List Comparison) : Prop extends t.WellFormed where
  /-- There is one row for each combination. -/
  size_rows : t.rows.size = (cs.map fun c => c.form.coefficients).dedup.length
  /-- Each combination has one slack. -/
  existsUnique_slack : ∀ c ∈ cs, ∃! k, t.IsSlackOf k c.form.coefficients
  /-- Rows store coefficients other than zero, of variables that are not basic. -/
  row_entry : ∀ (k : ℕ) row j a, t.rows[k]? = some row → row.coeffs[j]? = some a →
    a ≠ 0 ∧ j < t.size ∧ t.rows[j]? = none
  /-- The solutions of the rows give each slack the value of its combination. -/
  solvesRows_iff_slacks : ∀ (V : Type) [AddCommGroup V] [Module ℚ V] (x : ℕ → V),
    t.SolvesRows x ↔ ∀ c ∈ cs, ∀ k, t.IsSlackOf k c.form.coefficients →
      x k = c.form.coefficients.eval (t.valuesOfNames x)
  /-- Variables that are not basic are within their bounds. -/
  nonbasic_inBounds : ∀ k : ℕ, t.rows[k]? = none → t.InBounds k (t.value k)
  /-- Problem variables have no bounds. -/
  number_unbounded : ∀ (name : String) k, t.numbers[name]? = some k →
    t.lower[k]? = none ∧ t.upper[k]? = none
  /-- Problem variables that are basic stay so. -/
  number_stays : ∀ (name : String) k u, t.numbers[name]? = some k → t.rows[k]? ≠ none →
    t.PivotsTo u → u.rows[k]? ≠ none
  /-- Nothing that the next step looks up is missing. -/
  guardedStep?_eq : t.guardedStep? = some t.step

/-- **The invariant of a search.** Let `t` be the tableau of comparisons, none of which contradicts
the earlier ones on its slack. Then the invariant holds of every tableau that pivots lead to from
`t`.

**Proof sketch.** The tableau `t` is well-formed, and pivots keep it so. They also keep the number
of rows, the names and the slacks, so what these have to do with the comparisons need be seen for
`t` only. -/
theorem searchInvariant_of_reaches {cs : List Comparison} {t u : Tableau}
    (hcs : ∀ c ∈ cs, c.form.coefficients.IsReduced) (ht : assertAll? ∅ cs = some t)
    (hu : Relation.ReflTransGen PivotsTo t u) : u.SearchInvariant cs := by
  obtain ⟨rfl, hconsistent⟩ := assertAll?_eq_some isFresh_empty IsBuilt.empty.isConsistent hcs ht
  have hkeeps := keeps_assertAll hcs
  have hstems := stemsFrom_assertAll hcs
  have hstart := hkeeps.toIsFresh.wellFormed hconsistent
  obtain ⟨hwf, hsame⟩ := hstart.reaches hu
  exact
    { hwf with
      size_rows := (hstart.size_rows_of_reaches hu).trans (hkeeps.size_rows_eq hstems)
      existsUnique_slack := fun c hc => by
        simp only [hsame.isSlackOf_iff]
        exact hkeeps.existsUnique_slack hc
      row_entry := fun k row j a hk hj => hwf.row_entry hk hj
      solvesRows_iff_slacks := fun V _ _ x => by
        have hnames : u.valuesOfNames x = (assertAll ∅ cs).valuesOfNames x := by
          funext name
          rw [valuesOfNames, valuesOfNames, hsame.numbers]
        rw [hwf.solvesRows_iff, hsame.solvesSlacks_iff, hkeeps.solvesSlacks_iff hstems, hnames]
        simp only [hsame.isSlackOf_iff]
      nonbasic_inBounds := fun k hk => hwf.inBounds_of_nonbasic hk
      number_unbounded := fun name k hk =>
        ⟨hwf.toHasLayout.lower_number hk, hwf.toHasLayout.upper_number hk⟩
      number_stays := fun name k w hk hbasic hw => hwf.number_stays hk hbasic hw
      guardedStep?_eq := hwf.guardedStep?_eq }

/-- For `0 < x` and `y ≤ 0`, the slack of `x` makes place for `x`. -/
theorem searchInvariant_of_reaches_pivot :
    assertAll? ∅ [⟨.ofVariable "x", .gt⟩, ⟨.ofVariable "y", .le⟩] =
      some (assertAll ∅ [⟨.ofVariable "x", .gt⟩, ⟨.ofVariable "y", .le⟩]) ∧
    ((assertAll ∅ [⟨.ofVariable "x", .gt⟩, ⟨.ofVariable "y", .le⟩]).run 1).pivots = [(1, 0)] ∧
    (((assertAll ∅ [⟨.ofVariable "x", .gt⟩, ⟨.ofVariable "y", .le⟩]).run
        1).final.rows[0]?).isSome = true ∧
    ((assertAll ∅ [⟨.ofVariable "x", .gt⟩, ⟨.ofVariable "y", .le⟩]).run 1).final.rows[1]? = none ∧
    ((assertAll ∅ [⟨.ofVariable "x", .gt⟩, ⟨.ofVariable "y", .le⟩]).run 1).final.SearchInvariant
      [⟨.ofVariable "x", .gt⟩, ⟨.ofVariable "y", .le⟩] := by
  have ht : assertAll? ∅ [⟨.ofVariable "x", .gt⟩, ⟨.ofVariable "y", .le⟩] =
      some (assertAll ∅ [⟨.ofVariable "x", .gt⟩, ⟨.ofVariable "y", .le⟩]) := by
    rfl
  refine ⟨ht, by decide +kernel, by decide +kernel, by decide +kernel,
    searchInvariant_of_reaches (fun c hc => ?_) ht (run_reaches 1 _).1⟩
  simp only [List.mem_cons, List.not_mem_nil, or_false] at hc
  rcases hc with rfl | rfl <;> exact LinearForm.isReduced_ofVariable _

end ExactArith.Tableau
