import ExactArith.Proofs.Tableau.Invariant
import Mathlib.Tactic.Abel

set_option autoImplicit false
set_option relaxedAutoImplicit false

/-!
# Pivots keep the invariant

A pivot solves the row of the leaving variable for the entering one and puts the result into the
other rows, so it describes the same points by other rows. The values move along: the entering
variable changes, the leaving one reaches its bound, and the other basic variables follow by their
rows.

## Main results

* `ExactArith.Tableau.rows_pivot`, `ExactArith.Tableau.WellFormed.value_pivot_basic` and
  its neighbours — the rows and the values after a pivot.
* `ExactArith.Tableau.WellFormed.solvesRows_pivot_iff` — a pivot keeps the solutions of the rows.
* `ExactArith.Tableau.WellFormed.pivot` — a pivot keeps a tableau well-formed.
-/

namespace ExactArith.Tableau

/-! ## Rows -/

section Rows

variable {V : Type} [AddCommGroup V] [Module ℚ V]

/-- Substituting a definition for an index changes the value by what the definition is off. -/
lemma eval_substitute (row : LinComb ℕ) (k : ℕ) (d : LinComb ℕ) (x : ℕ → V) :
    (substitute row k d).eval x = row.eval x + row.coeff k • (d.eval x - x k) := by
  rw [substitute]
  split
  · next c hc =>
    rw [LinComb.eval_addScaled, LinComb.eval_erase, LinComb.coeff_of_getElem? hc, smul_sub]
    abel
  · next hc => rw [LinComb.coeff_eq_getD, hc, Option.getD_none, zero_smul, add_zero]

lemma coeff_substitute (row : LinComb ℕ) (k : ℕ) (d : LinComb ℕ) (j : ℕ) :
    (substitute row k d).coeff j =
      (if k = j then 0 else row.coeff j) + row.coeff k * d.coeff j := by
  rw [substitute]
  split
  · next c hc =>
    rw [LinComb.coeff_addScaled, LinComb.coeff_erase, LinComb.coeff_of_getElem? hc]
  · next hc =>
    have hz : row.coeff k = 0 := by rw [LinComb.coeff_eq_getD, hc, Option.getD_none]
    rw [hz, zero_mul, add_zero]
    split_ifs with hk
    · rw [← hk, hz]
    · rfl

lemma isReduced_substitute {row : LinComb ℕ} (h : row.IsReduced) (k : ℕ) (d : LinComb ℕ) :
    (substitute row k d).IsReduced := by
  rw [substitute]
  split
  · exact (h.erase k).addScaled _ d
  · exact h

lemma coeff_solvedRow (row : LinComb ℕ) (leaving entering : ℕ) (a : ℚ) (j : ℕ) :
    (solvedRow row leaving entering a).coeff j =
      if leaving = j then a⁻¹ else if entering = j then 0 else -a⁻¹ * row.coeff j := by
  rw [solvedRow, LinComb.coeff_set, LinComb.coeff_scale, LinComb.coeff_erase, mul_ite, mul_zero]

lemma isReduced_solvedRow {row : LinComb ℕ} (h : row.IsReduced) (leaving entering : ℕ) {a : ℚ}
    (ha : a ≠ 0) : (solvedRow row leaving entering a).IsReduced :=
  ((h.erase entering).scale (neg_ne_zero.2 (inv_ne_zero ha))).set leaving (inv_ne_zero ha)

/-- The solved row gives the entering variable its value, up to what the row of the leaving variable
is off. -/
lemma eval_solvedRow {row : LinComb ℕ} {leaving entering : ℕ} {a : ℚ} (ha : a ≠ 0)
    (hleaving : row.coeff leaving = 0) (hentering : row.coeff entering = a) (x : ℕ → V) :
    (solvedRow row leaving entering a).eval x =
      x entering + a⁻¹ • (x leaving - row.eval x) := by
  have hz : ((row.erase entering).scale (-a⁻¹)).coeff leaving = 0 := by
    rw [LinComb.coeff_scale, LinComb.coeff_erase, hleaving, ite_self, mul_zero]
  have hone : a⁻¹ • a • x entering = x entering := by rw [smul_smul, inv_mul_cancel₀ ha, one_smul]
  rw [solvedRow, LinComb.eval_set, hz, sub_zero, LinComb.eval_scale, LinComb.eval_erase, hentering,
    neg_smul, smul_sub, smul_sub, hone]
  abel

end Rows

/-! ## Values -/

/-- Inserting new values for some of the entries of a list: the entry of a key gives it its new
value, or leaves the one that it had.

**Proof sketch.** Induction on the list. Once the entry of the key is read, no later one touches the
key again. -/
lemma getElem?_foldl_insert {entries : List (ℕ × LinComb ℕ)} (g : ℕ → LinComb ℕ → Option DeltaRat)
    {k : ℕ} {o : Option (LinComb ℕ)} (m : Std.ExtTreeMap ℕ DeltaRat compare)
    (h : SortedMap.Lists entries k o) :
    (entries.foldl (fun m e => match g e.1 e.2 with
      | some b => m.insert e.1 b
      | none => m) m)[k]? = (o.bind (g k)).or m[k]? := by
  induction entries generalizing m o with
  | nil => simp [h.of_nil]
  | cons e entries ih =>
    rw [List.foldl_cons]
    rcases h.of_cons with ⟨rfl, rfl, hrest⟩ | ⟨hk, hrest⟩
    · rw [ih _ hrest, Option.bind_some]
      cases g e.1 e.2 <;> simp
    · rw [ih _ hrest]
      cases g e.1 e.2 <;> simp [Std.ExtTreeMap.getElem?_insert, hk]

/-- The values after a change of the entering variable. -/
lemma getElem?_movedValues (t : Tableau) (leaving entering : ℕ) (target change : DeltaRat) (k : ℕ) :
    (t.movedValues leaving entering target change)[k]? =
      ((t.rows[k]?).bind fun row => if k = leaving then none
        else (row.coeffs[entering]?).map fun c => t.value k + c * change).or
      ((t.values.insert leaving target).insert entering (t.value entering + change))[k]? := by
  let g : ℕ → LinComb ℕ → Option DeltaRat := fun k row => if k = leaving then none
    else (row.coeffs[entering]?).map fun c => t.value k + c * change
  have hfold : t.movedValues leaving entering target change =
      t.rows.toList.foldl (fun m e => match g e.1 e.2 with
        | some b => m.insert e.1 b
        | none => m)
        ((t.values.insert leaving target).insert entering (t.value entering + change)) := by
    rw [movedValues, Std.ExtTreeMap.foldl_eq_foldl_toList]
    refine congrArg (fun f => List.foldl f _ _) (funext fun m => funext fun e => ?_)
    by_cases hk : e.1 = leaving
    · simp [g, hk]
    · cases hc : e.2.coeffs[entering]? <;> simp [g, hk, hc]
  rw [hfold]
  exact getElem?_foldl_insert g _ (SortedMap.lists_toList t.rows k)

/-- The change of the entering variable that brings the leaving one to its bound. -/
def shift (t : Tableau) (v : Violation) (a : ℚ) : DeltaRat := a⁻¹ • (v.target - t.value v.basic)

/-! ## The tableau after a pivot -/

variable {t : Tableau} {v : Violation} {entering : ℕ} {a : ℚ}

lemma sameSystem_pivot (t : Tableau) (v : Violation) (entering : ℕ) (a : ℚ) :
    t.SameSystem (t.pivot v entering a) := ⟨rfl, rfl, rfl, rfl, rfl⟩

/-- **The rows after a pivot**: the entering variable has the solved row, the leaving variable none,
and in the others the entering variable is replaced. -/
lemma rows_pivot (t : Tableau) (v : Violation) (entering : ℕ) (a : ℚ) (k : ℕ) :
    (t.pivot v entering a).rows[k]? =
      if entering = k then some (solvedRow v.row v.basic entering a)
      else if v.basic = k then none
      else (t.rows[k]?).map fun row =>
        substitute row entering (solvedRow v.row v.basic entering a) := by
  rw [Tableau.pivot, Std.ExtTreeMap.getElem?_insert]
  by_cases he : entering = k
  · simp [he]
  · rw [Std.ExtTreeMap.getElem?_map, Std.ExtTreeMap.getElem?_erase]
    by_cases hl : v.basic = k
    · simp [he, hl]
    · simp [he, hl]

/-- A variable is not basic after a pivot if it leaves, or if it was not basic and does
not enter. -/
lemma rows_pivot_eq_none_iff {k : ℕ} :
    (t.pivot v entering a).rows[k]? = none ↔ entering ≠ k ∧ (v.basic = k ∨ t.rows[k]? = none) := by
  rw [rows_pivot]
  split_ifs with he hl
  · simp [he]
  · simp [he, hl]
  · simp [he, hl]

/-- The value after a pivot, read off the moved values. -/
lemma value_pivot (k : ℕ) :
    (t.pivot v entering a).value k =
      ((t.movedValues v.basic entering v.target (t.shift v a))[k]?).getD 0 :=
  Std.ExtTreeMap.getD_eq_getD_getElem?

lemma value_pivot_nonbasic (hc : t.IsChoice v entering a) {k : ℕ} (hk : t.rows[k]? = none)
    (hne : k ≠ entering) : (t.pivot v entering a).value k = t.value k := by
  have hl : v.basic ≠ k := by
    rintro rfl
    rw [hc.row_eq] at hk
    simp at hk
  rw [value_pivot, getElem?_movedValues, hk, value, Std.ExtTreeMap.getD_eq_getD_getElem?]
  simp [Std.ExtTreeMap.getElem?_insert, hne.symm, hl]

namespace WellFormed

/-- The coefficient of the entering variable is not zero. -/
lemma coeff_entering (h : t.WellFormed) (hc : t.IsChoice v entering a) :
    v.row.coeff entering = a ∧ a ≠ 0 :=
  (h.row_isReduced v.basic v.row hc.row_eq).getElem?_eq_some_iff.1 hc.coeff_eq

/-- The entering variable is not basic. -/
lemma rows_entering (h : t.WellFormed) (hc : t.IsChoice v entering a) :
    entering < t.size ∧ t.rows[entering]? = none := by
  obtain ⟨hcoeff, ha⟩ := h.coeff_entering hc
  exact h.row_support v.basic v.row entering hc.row_eq (hcoeff ▸ ha)

/-- A basic variable is not the one that enters. -/
lemma entering_ne (h : t.WellFormed) (hc : t.IsChoice v entering a) {k : ℕ} {row : LinComb ℕ}
    (hk : t.rows[k]? = some row) : entering ≠ k := by
  rintro rfl
  rw [(h.rows_entering hc).2] at hk
  simp at hk

lemma leaving_ne_entering (h : t.WellFormed) (hc : t.IsChoice v entering a) :
    v.basic ≠ entering :=
  (h.entering_ne hc hc.row_eq).symm

/-- A row does not mention a basic variable. -/
lemma coeff_basic (h : t.WellFormed) {k j : ℕ} {row other : LinComb ℕ}
    (hk : t.rows[k]? = some row) (hj : t.rows[j]? = some other) : row.coeff j = 0 := by
  by_contra hne
  rw [(h.row_support k row j hk hne).2] at hj
  simp at hj

lemma value_pivot_entering (h : t.WellFormed) (hc : t.IsChoice v entering a) :
    (t.pivot v entering a).value entering = t.value entering + t.shift v a := by
  rw [value_pivot, getElem?_movedValues, (h.rows_entering hc).2]
  simp

lemma value_pivot_leaving (h : t.WellFormed) (hc : t.IsChoice v entering a) :
    (t.pivot v entering a).value v.basic = v.target := by
  have hbase : ((t.values.insert v.basic v.target).insert entering
      (t.value entering + t.shift v a))[v.basic]? = some v.target :=
    SortedMap.getElem?_insert_eq_some_iff.2 (Or.inr ⟨(h.leaving_ne_entering hc).symm,
      SortedMap.getElem?_insert_eq_some_iff.2 (Or.inl ⟨rfl, rfl⟩)⟩)
  rw [value_pivot, getElem?_movedValues, hc.row_eq, hbase]
  simp

lemma value_pivot_basic (h : t.WellFormed) (hc : t.IsChoice v entering a) {k : ℕ} {row : LinComb ℕ}
    (hk : t.rows[k]? = some row) (hne : k ≠ v.basic) :
    (t.pivot v entering a).value k = t.value k + row.coeff entering • t.shift v a := by
  have he := h.entering_ne hc hk
  rw [value_pivot, getElem?_movedValues, hk, LinComb.coeff_eq_getD]
  cases hcoeff : row.coeffs[entering]? with
  | some c => simp [hne, hcoeff, DeltaRat.smul_def]
  | none =>
    simp [hne, hcoeff, Std.ExtTreeMap.getElem?_insert, he, hne.symm, value,
      Std.ExtTreeMap.getD_eq_getD_getElem?]

/-! ## Solutions -/

/-- **A pivot keeps the solutions of the rows.**

**Proof sketch.** On either side the solved row gives the entering variable its value: it is the row
of the leaving variable, solved. So substituting it changes the value of no other row. -/
lemma solvesRows_pivot_iff (h : t.WellFormed) (hc : t.IsChoice v entering a) {V : Type}
    [AddCommGroup V] [Module ℚ V] (x : ℕ → V) :
    (t.pivot v entering a).SolvesRows x ↔ t.SolvesRows x := by
  obtain ⟨hcoeff, ha⟩ := h.coeff_entering hc
  have hsolved := eval_solvedRow ha (h.coeff_basic hc.row_eq hc.row_eq) hcoeff x
  set d := solvedRow v.row v.basic entering a
  constructor
  · intro hx k row hk
    have hd : x entering = d.eval x := hx entering d (by rw [rows_pivot, if_pos rfl])
    by_cases hl : v.basic = k
    · -- the solved row is off by a multiple of what the row of the leaving variable is off
      subst hl
      obtain rfl : v.row = row := Option.some.inj (hc.row_eq.symm.trans hk)
      rw [hsolved, left_eq_add, (inv_ne_zero ha).isUnit.smul_eq_zero, sub_eq_zero] at hd
      exact hd
    · have he := h.entering_ne hc hk
      have hk' := hx k (substitute row entering d)
        (by rw [rows_pivot, if_neg he, if_neg hl, hk]; rfl)
      rwa [eval_substitute, ← hd, sub_self, smul_zero, add_zero] at hk'
  · intro hx
    have hd : d.eval x = x entering := by
      rw [hsolved, ← hx v.basic v.row hc.row_eq, sub_self, smul_zero, add_zero]
    intro k row hk
    rw [rows_pivot] at hk
    split_ifs at hk with he hl
    · rw [← he, ← Option.some.inj hk, hd]
    · obtain ⟨old, hold, rfl⟩ := Option.map_eq_some_iff.1 hk
      rw [eval_substitute, hd, sub_self, smul_zero, add_zero, hx k old hold]

/-- The values after a pivot solve the rows before it.

**Proof sketch.** Of the variables that a row mentions only the entering one changes, so the value
of the row changes by its coefficient times the shift. That is how the basic variables move. -/
lemma value_pivot_solvesRows (h : t.WellFormed) (hc : t.IsChoice v entering a) :
    t.SolvesRows (t.pivot v entering a).value := by
  obtain ⟨hcoeff, ha⟩ := h.coeff_entering hc
  intro k row hk
  have hmove : row.eval (t.pivot v entering a).value =
      row.eval t.value + row.coeff entering • t.shift v a := by
    have hpoint : row.eval (t.pivot v entering a).value =
        row.eval (fun j => t.value j + if entering = j then t.shift v a else 0) := by
      refine LinComb.eval_congr fun j hj => ?_
      by_cases he : entering = j
      · rw [if_pos he, ← he, h.value_pivot_entering hc]
      · have hnone := (h.row_support k row j hk hj).2
        rw [if_neg he, add_zero, value_pivot_nonbasic hc hnone (Ne.symm he)]
    rw [hpoint, ← sub_eq_iff_eq_add', LinComb.eval_sub,
      LinComb.eval_eq_coeff_smul (k := entering) fun j hj => by simp [Ne.symm hj]]
    simp
  by_cases hl : k = v.basic
  · subst hl
    obtain rfl : v.row = row := Option.some.inj (hc.row_eq.symm.trans hk)
    rw [hmove, h.value_pivot_leaving hc, hcoeff, shift, smul_smul, mul_inv_cancel₀ ha, one_smul,
      ← h.value_solves v.basic v.row hk]
    abel
  · rw [hmove, h.value_pivot_basic hc hk hl, h.value_solves k row hk]

/-! ## The invariant -/

/-- The rows after a pivot are reduced. -/
lemma row_isReduced_pivot (h : t.WellFormed) (hc : t.IsChoice v entering a) (k : ℕ)
    (row : LinComb ℕ) (hk : (t.pivot v entering a).rows[k]? = some row) : row.IsReduced := by
  have hrow := h.row_isReduced v.basic v.row hc.row_eq
  rw [rows_pivot] at hk
  split_ifs at hk with he hl
  · exact Option.some.inj hk ▸ isReduced_solvedRow hrow _ _ (h.coeff_entering hc).2
  · obtain ⟨old, hold, rfl⟩ := Option.map_eq_some_iff.1 hk
    exact isReduced_substitute (h.row_isReduced k old hold) _ _

/-- The rows after a pivot mention variables that are not basic after it.

**Proof sketch.** The solved row mentions the leaving variable and what the old row mentions but the
entering variable. Another row mentions what it did before, again without the entering variable, and
what the solved row mentions. -/
lemma row_support_pivot (h : t.WellFormed) (hc : t.IsChoice v entering a) (k : ℕ) (row : LinComb ℕ)
    (j : ℕ) (hk : (t.pivot v entering a).rows[k]? = some row) (hj : row.coeff j ≠ 0) :
    j < t.size ∧ (t.pivot v entering a).rows[j]? = none := by
  have hsolved : ∀ j, (solvedRow v.row v.basic entering a).coeff j ≠ 0 →
      j < t.size ∧ (t.pivot v entering a).rows[j]? = none := by
    intro j hj
    rw [coeff_solvedRow] at hj
    split_ifs at hj with hl he
    · subst hl
      exact ⟨h.row_lt _ _ hc.row_eq,
        rows_pivot_eq_none_iff.2 ⟨(h.leaving_ne_entering hc).symm, Or.inl rfl⟩⟩
    · exact absurd rfl hj
    · obtain ⟨hlt, hnone⟩ := h.row_support _ _ j hc.row_eq (right_ne_zero_of_mul hj)
      exact ⟨hlt, rows_pivot_eq_none_iff.2 ⟨he, Or.inr hnone⟩⟩
  rw [rows_pivot] at hk
  split_ifs at hk with he hl
  · exact hsolved j (Option.some.inj hk ▸ hj)
  · obtain ⟨old, hold, rfl⟩ := Option.map_eq_some_iff.1 hk
    by_cases hs : (solvedRow v.row v.basic entering a).coeff j = 0
    · rw [coeff_substitute, hs, mul_zero, add_zero] at hj
      have hej : entering ≠ j := fun hej => hj (if_pos hej)
      rw [if_neg hej] at hj
      obtain ⟨hlt, hnone⟩ := h.row_support k old j hold hj
      exact ⟨hlt, rows_pivot_eq_none_iff.2 ⟨hej, Or.inr hnone⟩⟩
    · exact hsolved j hs

/-- The bound that the leaving variable moves to is one of its bounds. -/
lemma bound_target (hc : t.IsChoice v entering a) :
    t.lower[v.basic]? = some v.target ∨ t.upper[v.basic]? = some v.target :=
  (violated?_eq_some hc.violated).imp (fun hv => hv.2.1) fun hv => hv.2.1

/-- **A pivot keeps a tableau well-formed.** -/
lemma pivot (h : t.WellFormed) (hc : t.IsChoice v entering a) :
    (t.pivot v entering a).WellFormed :=
  have hsame := sameSystem_pivot t v entering a
  have htarget := bound_target hc
  { hsame.hasLayout h.toHasLayout with
    consistent := hsame.isConsistent h.consistent
    row_lt := fun k row hk => by
      rw [rows_pivot] at hk
      split_ifs at hk with he hl
      · exact he ▸ (h.rows_entering hc).1
      · obtain ⟨old, hold, -⟩ := Option.map_eq_some_iff.1 hk
        exact h.row_lt k old hold
    row_isReduced := h.row_isReduced_pivot hc
    row_support := h.row_support_pivot hc
    solvesRows_iff := fun V _ _ x => (h.solvesRows_pivot_iff hc x).trans (h.solvesRows_iff V x)
    value_solves := (h.solvesRows_pivot_iff hc _).2 (h.value_pivot_solvesRows hc)
    nonbasic_slack := fun row k hk hnone => by
      obtain ⟨he, hl | hold⟩ := rows_pivot_eq_none_iff.1 hnone
      · subst hl
        rw [h.value_pivot_leaving hc]
        exact htarget
      · rw [value_pivot_nonbasic hc hold he.symm]
        exact h.nonbasic_slack row k hk hold
    nonbasic_number := fun name k hk hnone => by
      obtain ⟨he, hl | hold⟩ := rows_pivot_eq_none_iff.1 hnone
      · subst hl
        obtain ⟨row, hrow⟩ : ∃ row, (row, v.basic) ∈ t.slacks :=
          htarget.elim (fun hb => (h.lower_bound _ _ hb).2) fun hb =>
            (h.upper_bound _ _ hb).2
        exact absurd hk (h.slack_ne_number row _ name hrow)
      · rw [value_pivot_nonbasic hc hold he.symm]
        exact h.nonbasic_number name k hk hold }

end WellFormed

end ExactArith.Tableau
