import ExactArith.Proofs.Tableau.Search
import Mathlib.Order.WellFounded

set_option autoImplicit false
set_option relaxedAutoImplicit false

/-!
# The search ends

No measure falls from one pivot to the next, so the proof assumes a search without end and looks at
the largest variable that it moves again and again. Between a pivot in which this variable leaves
and the next one in which it enters, the row of the second pivot does not fit the values of the
first: by the choice of the smallest numbers no term of the row helps, and yet the violated variable
was within its bounds before.

## Main definitions

* `ExactArith.Tableau.EndlessSearch` — a search that never stops.

## Main results

* `ExactArith.Tableau.EndlessSearch.not_enters_after_leaving` — the variable of the largest number
  among those that move does not enter after it has left.
* `ExactArith.Tableau.EndlessSearch.not_moves_below` — no search goes on forever.
* `ExactArith.Tableau.WellFormed.exists_budget` — some budget of pivots is enough.
-/

namespace ExactArith.Tableau

/-! ## Searches without end -/

/-- A search that never stops: in each tableau a violation and an entering variable are chosen. -/
structure EndlessSearch where
  tableau : ℕ → Tableau
  violation : ℕ → Violation
  entering : ℕ → ℕ
  coeff : ℕ → ℚ
  wellFormed : ∀ n, (tableau n).WellFormed
  isChoice : ∀ n, (tableau n).IsChoice (violation n) (entering n) (coeff n)
  next : ∀ n, tableau (n + 1) = (tableau n).pivot (violation n) (entering n) (coeff n)

namespace EndlessSearch

/-- The variable that leaves in a pivot. -/
def leaving (s : EndlessSearch) (n : ℕ) : ℕ := (s.violation n).basic

/-- The search from a later pivot on. -/
def drop (s : EndlessSearch) (N : ℕ) : EndlessSearch where
  tableau n := s.tableau (N + n)
  violation n := s.violation (N + n)
  entering n := s.entering (N + n)
  coeff n := s.coeff (N + n)
  wellFormed n := s.wellFormed (N + n)
  isChoice n := s.isChoice (N + n)
  next n := s.next (N + n)

variable (s : EndlessSearch)

lemma sameSystem {m n : ℕ} (h : m ≤ n) : (s.tableau m).SameSystem (s.tableau n) := by
  induction n, h using Nat.le_induction with
  | base => exact SameSystem.refl _
  | succ n _ ih =>
    rw [s.next n]
    exact ih.trans (sameSystem_pivot _ _ _ _)

/-- A variable is not basic after a pivot if it leaves, or if it was not basic and does
not enter. -/
lemma rows_succ_eq_none_iff (n k : ℕ) : (s.tableau (n + 1)).rows[k]? = none ↔
    s.entering n ≠ k ∧ (s.leaving n = k ∨ (s.tableau n).rows[k]? = none) := by
  rw [s.next n]
  exact rows_pivot_eq_none_iff

lemma rows_entering (n : ℕ) : s.entering n < (s.tableau n).size ∧
    (s.tableau n).rows[s.entering n]? = none :=
  (s.wellFormed n).rows_entering (s.isChoice n)

lemma rows_leaving (n : ℕ) : (s.tableau n).rows[s.leaving n]? = some (s.violation n).row :=
  (s.isChoice n).row_eq

/-- A variable that is not basic keeps its value until it enters. -/
lemma nonbasic_of_not_entering {k m n : ℕ} (h : m ≤ n) (hk : (s.tableau m).rows[k]? = none)
    (hne : ∀ i, m ≤ i → i < n → s.entering i ≠ k) :
    (s.tableau n).rows[k]? = none ∧ (s.tableau n).value k = (s.tableau m).value k := by
  induction n, h using Nat.le_induction with
  | base => exact ⟨hk, rfl⟩
  | succ n hmn ih =>
    obtain ⟨hrow, hval⟩ := ih fun i hi hin => hne i hi (by omega)
    have he := hne n hmn (by omega)
    refine ⟨(s.rows_succ_eq_none_iff n k).2 ⟨he, Or.inr hrow⟩, ?_⟩
    rw [s.next n, value_pivot_nonbasic (s.isChoice n) hrow he.symm, hval]

/-- A basic variable stays basic until it leaves. -/
lemma basic_of_not_leaving {k m n : ℕ} (h : m ≤ n) (hk : (s.tableau m).rows[k]? ≠ none)
    (hne : ∀ i, m ≤ i → i < n → s.leaving i ≠ k) : (s.tableau n).rows[k]? ≠ none := by
  induction n, h using Nat.le_induction with
  | base => exact hk
  | succ n hmn ih =>
    intro hnone
    rcases ((s.rows_succ_eq_none_iff n k).1 hnone).2 with hl | hrow
    · exact hne n hmn (by omega) hl
    · exact ih (fun i hi hin => hne i hi (by omega)) hrow

/-! ## The largest variable that moves -/

/-- The values at an earlier time solve the rows at a later one. -/
lemma solvesRows_value {m n : ℕ} (h : m ≤ n) : (s.tableau n).SolvesRows (s.tableau m).value := by
  have hslacks := ((s.wellFormed m).solvesRows_iff DeltaRat _).1 (s.wellFormed m).value_solves
  exact ((s.wellFormed n).solvesRows_iff DeltaRat _).2 ((s.sameSystem h).solvesSlacks_iff.2 hslacks)

/-- The variables below the one that leaves are within their bounds. -/
lemma inBounds_of_lt_leaving {k n : ℕ} (h : k < s.leaving n) :
    (s.tableau n).InBounds k ((s.tableau n).value k) := by
  cases hk : (s.tableau n).rows[k]? with
  | none => exact (s.wellFormed n).inBounds_of_nonbasic hk
  | some row => exact inBounds_of_violated?_eq_none ((s.isChoice n).first k h row hk)

/-- A variable that left keeps the value of the violated bound until it enters, so its value before
it left is beyond the bound where it is now. -/
lemma beyond_of_left {m n : ℕ} (h : m < n) (hne : ∀ i, m < i → i < n → s.entering i ≠ s.leaving m) :
    (s.tableau n).lower[s.leaving m]? = some ((s.tableau n).value (s.leaving m)) ∧
        (s.tableau m).value (s.leaving m) < (s.tableau n).value (s.leaving m) ∨
      (s.tableau n).upper[s.leaving m]? = some ((s.tableau n).value (s.leaving m)) ∧
        (s.tableau n).value (s.leaving m) < (s.tableau m).value (s.leaving m) := by
  have hleft : (s.tableau (m + 1)).rows[s.leaving m]? = none :=
    (s.rows_succ_eq_none_iff m _).2
      ⟨((s.wellFormed m).leaving_ne_entering (s.isChoice m)).symm, Or.inl rfl⟩
  have hkeep := (s.nonbasic_of_not_entering h hleft fun i hi hin => hne i (by omega) hin).2
  have hval : (s.tableau n).value (s.leaving m) = (s.violation m).target := by
    rw [hkeep, s.next m]
    exact (s.wellFormed m).value_pivot_leaving (s.isChoice m)
  rw [hval, (s.sameSystem h.le).lower, (s.sameSystem h.le).upper]
  exact (violated?_eq_some (s.isChoice m).violated).imp And.right And.right

/-- **The largest variable that moves does not enter after it has left.**

**Proof sketch.** Let `p` leave at time `m` and next enter at time `n`. At time `m` the variable
that leaves at time `n` is within its bounds, since it is smaller than `p`. But no term of its row
moves it towards its bound, from the values at `n` to those at `m`: a variable below `p` cannot give
way at `n` and is within its bounds at `m`, the variable `p` can give way at `n` only in the other
direction, and a variable above `p` never moves. -/
lemma not_enters_after_leaving {m n : ℕ} (h : m < n) (henter : s.entering n = s.leaving m)
    (hne : ∀ i, m < i → i < n → s.entering i ≠ s.leaving m)
    (hle : ∀ i, s.leaving i ≤ s.leaving m ∧ s.entering i ≤ s.leaving m) : False := by
  have hsame := s.sameSystem h.le
  have hlt : s.leaving n < s.leaving m := lt_of_le_of_ne (hle n).1
    (henter ▸ (s.wellFormed n).leaving_ne_entering (s.isChoice n))
  refine (s.wellFormed n).not_inBounds_of_row (s.isChoice n).row_eq (s.isChoice n).violated
    (s.solvesRows_value h.le) (fun j hj => ?_) (hsame.inBounds_iff.2 (s.inBounds_of_lt_leaving hlt))
  have hcoeff := LinComb.getElem?_of_coeff_ne_zero hj
  rcases lt_trichotomy j (s.leaving m) with hjp | rfl | hjp
  · -- the search passed over `j` when it chose the entering variable at time `n`
    refine smul_nonpos_of_canRepair_eq_false hj ?_
      (hsame.inBounds_iff.2 (s.inBounds_of_lt_leaving hjp))
    exact (s.isChoice n).first_entering j (henter ▸ hjp) _ hcoeff
  · -- the variable that left can give way at time `n`, but away from where it was at time `m`
    rw [← henter, (s.isChoice n).coeff_eq, Option.some.injEq] at hcoeff
    refine smul_nonpos_of_canRepair hj ?_ (s.beyond_of_left h hne)
    rw [← henter, ← hcoeff]
    exact (s.isChoice n).canRepair
  · -- no variable above the largest one that moves has another value than before
    have hnone := ((s.wellFormed n).row_support _ _ j (s.isChoice n).row_eq hj).2
    have hrow : (s.tableau m).rows[j]? = none := by
      by_contra hbasic
      exact s.basic_of_not_leaving h.le hbasic (fun i _ _ => ((hle i).1.trans_lt hjp).ne) hnone
    have hkeep := (s.nonbasic_of_not_entering h.le hrow
      fun i _ _ => ((hle i).2.trans_lt hjp).ne).2
    rw [hkeep, sub_self, smul_zero]

/-- Between two times at which a variable leaves there is a first one at which it enters. -/
lemma exists_first_entering {m n : ℕ} (h : m < n) (hleave : s.leaving n = s.leaving m) :
    ∃ i, m < i ∧ s.entering i = s.leaving m ∧ ∀ j, m < j → j < i → s.entering j ≠ s.leaving m := by
  classical
  have hex : ∃ i, m < i ∧ s.entering i = s.leaving m := by
    -- a variable that never enters is not basic, so it does not leave a second time
    by_contra hnone
    push Not at hnone
    have hleft : (s.tableau (m + 1)).rows[s.leaving m]? = none :=
      (s.rows_succ_eq_none_iff m _).2
        ⟨((s.wellFormed m).leaving_ne_entering (s.isChoice m)).symm, Or.inl rfl⟩
    have hrow := (s.nonbasic_of_not_entering h hleft fun i hi _ => hnone i (by omega)).1
    rw [← hleave, s.rows_leaving n] at hrow
    simp at hrow
  refine ⟨Nat.find hex, (Nat.find_spec hex).1, (Nat.find_spec hex).2, fun j hmj hj heq => ?_⟩
  exact Nat.find_min hex hj ⟨hmj, heq⟩

/-- A variable that leaves only finitely often is unmoved from some time on: once it has entered
after that, it stays basic. -/
lemma exists_unmoved {p N : ℕ} (h : ∀ n ≥ N, s.leaving n ≠ p) :
    ∃ M, ∀ n ≥ M, s.leaving n ≠ p ∧ s.entering n ≠ p := by
  by_cases hex : ∃ n ≥ N, s.entering n = p
  · obtain ⟨m, hm, henter⟩ := hex
    have hbasic : (s.tableau (m + 1)).rows[p]? ≠ none := fun hnone =>
      ((s.rows_succ_eq_none_iff m p).1 hnone).1 henter
    refine ⟨m + 1, fun n hn => ⟨h n (by omega), fun heq => ?_⟩⟩
    exact s.basic_of_not_leaving hn hbasic (fun i hi _ => h i (by omega))
      (heq ▸ (s.rows_entering n).2)
  · push Not at hex
    exact ⟨N, fun n hn => ⟨h n hn, hex n hn⟩⟩

/-- **No search goes on forever.**

**Proof sketch.** Induction on a bound for the variables that move. If the largest of them leaves
again and again, it enters in between, which is impossible. Otherwise it is unmoved from some time
on, and the search from then on moves smaller variables only. -/
lemma not_moves_below (m : ℕ) :
    ∀ s : EndlessSearch, ¬∀ n, s.leaving n < m ∧ s.entering n < m := by
  induction m with
  | zero =>
    intro s h
    exact absurd (h 0).1 (Nat.not_lt_zero _)
  | succ m ih =>
    intro s h
    by_cases hoften : ∃ N, ∀ n ≥ N, s.leaving n ≠ m
    · obtain ⟨N, hN⟩ := hoften
      obtain ⟨M, hM⟩ := s.exists_unmoved hN
      refine ih (s.drop M) fun n => ?_
      have hlt := h (M + n)
      have hne := hM (M + n) (by omega)
      exact ⟨show s.leaving (M + n) < m by omega, show s.entering (M + n) < m by omega⟩
    · push Not at hoften
      obtain ⟨first, -, hfirst⟩ := hoften 0
      obtain ⟨again, hlt, hagain⟩ := hoften (first + 1)
      obtain ⟨enter, hle, henter, hmid⟩ :=
        s.exists_first_entering (Nat.lt_of_succ_le hlt) (hagain.trans hfirst.symm)
      refine s.not_enters_after_leaving hle henter hmid fun i => ?_
      have hi := h i
      rw [hfirst]
      omega

end EndlessSearch

/-! ## Budgets -/

/-- From a well-formed tableau there is no endless sequence of pivots. -/
lemma WellFormed.acc {t : Tableau} (h : t.WellFormed) : Acc (fun u t => PivotsTo t u) t := by
  by_contra hacc
  obtain ⟨seq, rfl, hseq⟩ := not_acc_iff_exists_descending_chain.1 hacc
  have hwf : ∀ n, (seq n).WellFormed := fun n => by
    induction n with
    | zero => exact h
    | succ n ih => exact (ih.pivotsTo (hseq n)).1
  have hchoice : ∀ n, ∃ v entering a, (seq n).IsChoice v entering a ∧
      seq (n + 1) = (seq n).pivot v entering a := fun n => by
    obtain ⟨leaving, entering, hstep⟩ := hseq n
    obtain ⟨v, a, hc, -, hnext⟩ := step_eq_pivot hstep
    exact ⟨v, entering, a, hc, hnext⟩
  choose violation entering a hc hnext using hchoice
  -- no variable has a number beyond the size, which is the same all along
  let s : EndlessSearch := ⟨seq, violation, entering, a, hwf, hc, hnext⟩
  refine EndlessSearch.not_moves_below (seq 0).size s fun n => ?_
  rw [← (s.sameSystem (Nat.zero_le n)).size]
  exact ⟨(hwf n).row_lt _ _ (s.rows_leaving n), (s.rows_entering n).1⟩

/-- **Some budget of pivots is enough**: a search that may make more pivots ends within it. -/
lemma WellFormed.exists_budget {t : Tableau} (h : t.WellFormed) :
    ∃ N, ∀ n ≥ N, (t.run n).ending ≠ .exhausted ∧ (t.run n).pivots.length ≤ N := by
  have hacc := h.acc
  clear h
  induction hacc with
  | intro t _ ih =>
    cases hstep : t.step with
    | feasible =>
      refine ⟨0, fun n _ => ?_⟩
      rw [Tableau.run.eq_def, hstep]
      simp
    | noRepair basic =>
      refine ⟨0, fun n _ => ?_⟩
      rw [Tableau.run.eq_def, hstep]
      simp
    | pivot leaving entering next =>
      obtain ⟨N, hN⟩ := ih next ⟨leaving, entering, hstep⟩
      refine ⟨N + 1, fun n hn => ?_⟩
      obtain ⟨n, rfl⟩ : ∃ m, n = m + 1 := ⟨n - 1, by omega⟩
      obtain ⟨hending, hpivots⟩ := hN n (by omega)
      rw [Tableau.run, hstep]
      exact ⟨hending, Nat.succ_le_succ hpivots⟩

end ExactArith.Tableau
