import ExactArith.Proofs.Tableau.Building

set_option autoImplicit false
set_option relaxedAutoImplicit false

/-!
# The invariant of the search

During the search the rows describe the points of the tableau, the values are one of these points,
and each variable that is not basic stays at one of its bounds, or at zero if it is a problem
variable. In each step the search takes the smallest violated variable, and the smallest one in its
row that can give way.

## Main definitions

* `ExactArith.Tableau.SameSystem` — two tableaux with the same names, slacks and bounds.
* `ExactArith.Tableau.WellFormed` — what holds of a tableau during the search.
* `ExactArith.Tableau.IsChoice` — the violation and the entering variable that the search takes.

## Main results

* `ExactArith.Tableau.IsFresh.wellFormed` — the invariant holds before the search.
* `ExactArith.Tableau.step_eq_pivot`, `ExactArith.Tableau.step_eq_noRepair`,
  `ExactArith.Tableau.step_eq_feasible` — what each kind of step says of the tableau.
-/

namespace ExactArith.Tableau

/-! ## The invariant -/

/-- Two tableaux with the same names, slacks and bounds. -/
structure SameSystem (t u : Tableau) : Prop where
  size : u.size = t.size
  numbers : u.numbers = t.numbers
  slacks : u.slacks = t.slacks
  lower : u.lower = t.lower
  upper : u.upper = t.upper

namespace SameSystem

variable {V : Type} [AddCommGroup V] [Module ℚ V] {t u v : Tableau}

lemma refl (t : Tableau) : t.SameSystem t := ⟨rfl, rfl, rfl, rfl, rfl⟩

lemma trans (h : t.SameSystem u) (h' : u.SameSystem v) : t.SameSystem v :=
  ⟨h'.size.trans h.size, h'.numbers.trans h.numbers, h'.slacks.trans h.slacks,
    h'.lower.trans h.lower, h'.upper.trans h.upper⟩

lemma hasLayout (h : t.SameSystem u) (ht : t.HasLayout) : u.HasLayout := by
  obtain ⟨size, numbers, slacks, rows, lower, upper, values⟩ := u
  obtain ⟨rfl, rfl, rfl, rfl, rfl⟩ := h
  exact { ht with }

lemma isPoint_iff (h : t.SameSystem u) {σ : String → V} {x : ℕ → V} :
    u.IsPoint σ x ↔ t.IsPoint σ x := by
  obtain ⟨size, numbers, slacks, rows, lower, upper, values⟩ := u
  obtain ⟨rfl, rfl, rfl, rfl, rfl⟩ := h
  exact ⟨fun hx => ⟨hx.number, hx.slack⟩, fun hx => ⟨hx.number, hx.slack⟩⟩

lemma solvesSlacks_iff (h : t.SameSystem u) {x : ℕ → V} : u.SolvesSlacks x ↔ t.SolvesSlacks x := by
  rw [SolvesSlacks, SolvesSlacks, h.slacks]

lemma inBounds_iff (h : t.SameSystem u) {k : ℕ} {b : DeltaRat} :
    u.InBounds k b ↔ t.InBounds k b := by
  rw [InBounds, InBounds, h.lower, h.upper]

lemma meets_iff (h : t.SameSystem u) {x : ℕ → DeltaRat} : u.Meets x ↔ t.Meets x :=
  forall_congr' fun _ => h.inBounds_iff

lemma allows_iff (h : t.SameSystem u) {σ : String → DeltaRat} : u.Allows σ ↔ t.Allows σ :=
  exists_congr fun _ => and_congr h.isPoint_iff h.meets_iff

lemma isConsistent (h : t.SameSystem u) (ht : t.IsConsistent) : u.IsConsistent := by
  rw [IsConsistent, h.lower, h.upper]
  exact ht

end SameSystem

/-- What holds of a tableau during the search. -/
structure WellFormed (t : Tableau) : Prop extends t.HasLayout where
  /-- No two bounds of a variable exclude each other. -/
  consistent : t.IsConsistent
  /-- Basic variables are variables. -/
  row_lt : ∀ (k : ℕ) row, t.rows[k]? = some row → k < t.size
  /-- Rows are reduced. -/
  row_isReduced : ∀ (k : ℕ) row, t.rows[k]? = some row → row.IsReduced
  /-- Rows mention variables that are not basic. -/
  row_support : ∀ (k : ℕ) row j, t.rows[k]? = some row → row.coeff j ≠ 0 →
    j < t.size ∧ t.rows[j]? = none
  /-- The rows have the solutions that the slacks have. -/
  solvesRows_iff : ∀ (V : Type) [AddCommGroup V] [Module ℚ V] (x : ℕ → V),
    t.SolvesRows x ↔ t.SolvesSlacks x
  /-- The values are a solution. -/
  value_solves : t.SolvesRows t.value
  /-- A slack that is not basic is at one of its bounds. -/
  nonbasic_slack : ∀ row k, (row, k) ∈ t.slacks → t.rows[k]? = none →
    t.lower[k]? = some (t.value k) ∨ t.upper[k]? = some (t.value k)
  /-- A problem variable that is not basic is zero. -/
  nonbasic_number : ∀ (name : String) k, t.numbers[name]? = some k → t.rows[k]? = none →
    t.value k = 0

/-- A fresh tableau whose bounds do not exclude each other is ready for the search. -/
lemma IsFresh.wellFormed {t : Tableau} (h : t.IsFresh) (hc : t.IsConsistent) : t.WellFormed :=
  { h.toHasLayout with
    consistent := hc
    row_lt := fun k row hk => h.slack_lt row k ((h.rows_iff k row).1 hk)
    row_isReduced := fun k row hk => h.slack_isReduced row k ((h.rows_iff k row).1 hk)
    row_support := fun k row j hk hj => by
      obtain ⟨name, hname⟩ := h.slack_support row k j ((h.rows_iff k row).1 hk) hj
      refine ⟨h.number_lt name j hname, Option.eq_none_iff_forall_ne_some.2 fun r hr => ?_⟩
      exact h.slack_ne_number r j name ((h.rows_iff j r).1 hr) hname
    solvesRows_iff := fun V _ _ x =>
      ⟨fun hx row k hk => hx k row ((h.rows_iff k row).2 hk),
        fun hx k row hk => hx row k ((h.rows_iff k row).1 hk)⟩
    value_solves := fun k row _ => by
      rw [h.value_eq, ← rowValue_eq_eval, h.rowValue_eq]
    nonbasic_slack := fun row k hk hnone => by
      rw [(h.rows_iff k row).2 hk] at hnone
      simp at hnone
    nonbasic_number := fun _ k _ _ => h.value_eq k }

/-- A variable that is not basic is within its bounds. -/
lemma WellFormed.inBounds_of_nonbasic {t : Tableau} (h : t.WellFormed) {k : ℕ}
    (hk : t.rows[k]? = none) : t.InBounds k (t.value k) := by
  refine ⟨fun b hb => ?_, fun b hb => ?_⟩
  · obtain ⟨-, row, hrow⟩ := h.lower_bound k b hb
    rcases h.nonbasic_slack row k hrow hk with hv | hv
    · exact (Option.some.inj (hb.symm.trans hv)).le
    · exact h.consistent k b _ hb hv
  · obtain ⟨-, row, hrow⟩ := h.upper_bound k b hb
    rcases h.nonbasic_slack row k hrow hk with hv | hv
    · exact h.consistent k _ b hv hb
    · exact (Option.some.inj (hb.symm.trans hv)).ge

/-! ## Choices -/

/-- A bound that is violated is a lower bound above the value, or an upper bound below it. -/
lemma violated?_eq_some {t : Tableau} {k : ℕ} {tooSmall : Bool} {target : DeltaRat}
    (h : t.violated? k = some (tooSmall, target)) :
    tooSmall = true ∧ t.lower[k]? = some target ∧ t.value k < target ∨
      tooSmall = false ∧ t.upper[k]? = some target ∧ target < t.value k := by
  rw [violated?] at h
  split at h
  · next bound hb =>
    obtain ⟨rfl, rfl⟩ := Prod.mk.inj (Option.some.inj h)
    obtain ⟨hl, hv⟩ := Option.filter_eq_some_iff.1 hb
    exact Or.inl ⟨rfl, hl, of_decide_eq_true hv⟩
  · obtain ⟨bound, hb, heq⟩ := Option.map_eq_some_iff.1 h
    obtain ⟨rfl, rfl⟩ := Prod.mk.inj heq
    obtain ⟨hu, hv⟩ := Option.filter_eq_some_iff.1 hb
    exact Or.inr ⟨rfl, hu, of_decide_eq_true hv⟩

/-- A variable that violates no bound is within its bounds. -/
lemma inBounds_of_violated?_eq_none {t : Tableau} {k : ℕ} (h : t.violated? k = none) :
    t.InBounds k (t.value k) := by
  rw [violated?] at h
  split at h
  · simp at h
  · next hl =>
    rw [Option.map_eq_none_iff] at h
    refine ⟨fun b hb => not_lt.1 fun hv => ?_, fun b hb => not_lt.1 fun hv => ?_⟩
    · simp [hb, Option.filter, hv] at hl
    · simp [hb, Option.filter, hv] at h

/-- The violation and the entering variable that the search takes: the smallest of each. -/
structure IsChoice (t : Tableau) (v : Violation) (entering : ℕ) (a : ℚ) : Prop where
  row_eq : t.rows[v.basic]? = some v.row
  violated : t.violated? v.basic = some (v.tooSmall, v.target)
  first : ∀ k < v.basic, ∀ row, t.rows[k]? = some row → t.violated? k = none
  coeff_eq : v.row.coeffs[entering]? = some a
  canRepair : t.canRepair v.tooSmall entering a = true
  first_entering : ∀ k < entering, ∀ c, v.row.coeffs[k]? = some c →
    t.canRepair v.tooSmall k c = false

/-- The violation of a basic variable with a given row. -/
def violationAt? (t : Tableau) (k : ℕ) (row : LinComb ℕ) : Option Violation :=
  (t.violated? k).map fun p => ⟨k, row, p.1, p.2⟩

/-- What the search takes as the violation. -/
lemma violation?_eq_some {t : Tableau} {v : Violation} (h : t.violation? = some v) :
    t.rows[v.basic]? = some v.row ∧ t.violated? v.basic = some (v.tooSmall, v.target) ∧
      ∀ k < v.basic, ∀ row, t.rows[k]? = some row → t.violated? k = none := by
  obtain ⟨k, row, hk, hv, hfirst⟩ := SortedMap.findSome?_toList_eq_some
    (m := t.rows) (f := t.violationAt?) h
  obtain ⟨⟨tooSmall, target⟩, hviol, rfl⟩ := Option.map_eq_some_iff.1 hv
  exact ⟨hk, hviol, fun j hj r hr => Option.map_eq_none_iff.1 (hfirst j hj r hr)⟩

/-- Without a violation, every basic variable is within its bounds. -/
lemma violated?_of_violation?_eq_none {t : Tableau} (h : t.violation? = none) (k : ℕ)
    (row : LinComb ℕ) (hk : t.rows[k]? = some row) : t.violated? k = none :=
  Option.map_eq_none_iff.1 <| SortedMap.findSome?_toList_eq_none
    (m := t.rows) (f := t.violationAt?) h k row hk

/-- **A step that is a pivot makes the choice of the search.** -/
lemma step_eq_pivot {t u : Tableau} {leaving entering : ℕ}
    (h : t.step = .pivot leaving entering u) :
    ∃ v a, t.IsChoice v entering a ∧ v.basic = leaving ∧ u = t.pivot v entering a := by
  rw [step] at h
  split at h
  · simp at h
  · next v hv =>
    split at h
    · simp at h
    · next k a he =>
      obtain ⟨rfl, rfl, rfl⟩ := Step.pivot.inj h
      obtain ⟨hrow, hviol, hfirst⟩ := violation?_eq_some hv
      obtain ⟨hk, hrep, hfirst'⟩ := SortedMap.find?_toList_eq_some
        (p := fun k a => t.canRepair v.tooSmall k a) he
      exact ⟨v, a, ⟨hrow, hviol, hfirst, hk, hrep, hfirst'⟩, rfl, rfl⟩

/-- A step that finds no repair has a violated row in which no variable can give way. -/
lemma step_eq_noRepair {t : Tableau} {basic : ℕ} (h : t.step = .noRepair basic) :
    ∃ v : Violation, v.basic = basic ∧ t.rows[v.basic]? = some v.row ∧
      t.violated? v.basic = some (v.tooSmall, v.target) ∧
      ∀ (k : ℕ) c, v.row.coeffs[k]? = some c → t.canRepair v.tooSmall k c = false := by
  rw [step] at h
  split at h
  · simp at h
  · next v hv =>
    split at h
    · next he =>
      obtain ⟨hrow, hviol, -⟩ := violation?_eq_some hv
      exact ⟨v, Step.noRepair.inj h, hrow, hviol, fun k c hk => SortedMap.find?_toList_eq_none
        (p := fun k a => t.canRepair v.tooSmall k a) he k c hk⟩
    · simp at h

/-- A step that ends the search as feasible has seen no violation. -/
lemma step_eq_feasible {t : Tableau} (h : t.step = .feasible) : t.violation? = none := by
  rw [step] at h
  split at h
  · assumption
  · split at h <;> simp at h

end ExactArith.Tableau
