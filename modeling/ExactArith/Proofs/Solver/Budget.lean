import ExactArith.Proofs.Solver.Answer
import ExactArith.Proofs.Solver.Scopes

set_option autoImplicit false
set_option relaxedAutoImplicit false

/-!
# The budget of pivots

A search does not look ahead to the end of its budget: whatever the budget, it makes the same pivots
in the same order, and a budget only cuts the sequence short. So a larger budget never changes an
answer. It can only give one where a smaller budget ran out.

## Main definitions

* `ExactArith.Solver.Search.pivots` — the pivots that a decision takes.

## Main results

* `ExactArith.Tableau.run_eq_of_le` — a search that ends within a budget is the same within a larger
  one.
* `ExactArith.Tableau.pivots_run_eq_take` — the pivots within a budget are the first ones.
* `ExactArith.Solver.solve_eq_of_budget_le` — a larger budget never changes an answer.
-/

namespace ExactArith

/-! ## Searches -/

namespace Tableau

/-- One more pivot is of no use to a search that has ended.

**Proof sketch.** Induction on the budget. If the first step is no pivot, it ends both searches;
else both go on from the same tableau. -/
lemma run_succ_eq {budget : ℕ} {t : Tableau} (h : (t.run budget).ending ≠ .exhausted) :
    t.run (budget + 1) = t.run budget := by
  induction budget generalizing t with
  | zero =>
    cases hstep : t.step with
    | feasible => rw [run, run, hstep]
    | noRepair basic => rw [run, run, hstep]
    | pivot leaving entering next => simp [run, hstep] at h
  | succ budget ih =>
    cases hstep : t.step with
    | feasible => rw [run, run, hstep]
    | noRepair basic => rw [run, run, hstep]
    | pivot leaving entering next =>
      rw [run, hstep] at h
      have hrest : next.run (budget + 1) = next.run budget := ih h
      rw [run, run, hstep]
      dsimp only
      rw [hrest]

/-- **A search that ends within a budget is the same within a larger one.** -/
lemma run_eq_of_le {n m : ℕ} (hle : n ≤ m) {t : Tableau} (h : (t.run n).ending ≠ .exhausted) :
    t.run m = t.run n := by
  induction m, hle using Nat.le_induction with
  | base => rfl
  | succ m _ ih => rw [run_succ_eq (ih ▸ h), ih]

/-- A budget with one more pivot leaves the pivots before it as they are. -/
lemma pivots_run_eq_take_succ (budget : ℕ) (t : Tableau) :
    (t.run budget).pivots = (t.run (budget + 1)).pivots.take budget := by
  induction budget generalizing t with
  | zero =>
    cases hstep : t.step with
    | feasible => simp [run, hstep]
    | noRepair basic => simp [run, hstep]
    | pivot leaving entering next => simp [run, hstep]
  | succ budget ih =>
    cases hstep : t.step with
    | feasible => simp [run, hstep]
    | noRepair basic => simp [run, hstep]
    | pivot leaving entering next =>
      rw [run, run, hstep]
      dsimp only
      rw [List.take_succ_cons, ← ih next]

/-- **The pivots within a budget are the first ones within any larger budget.** -/
lemma pivots_run_eq_take {n m : ℕ} (hle : n ≤ m) (t : Tableau) :
    (t.run n).pivots = (t.run m).pivots.take n := by
  induction m, hle using Nat.le_induction with
  | base => rw [pivots_run_eq_take_succ n t, List.take_take, min_self]
  | succ m hle ih => rw [ih, pivots_run_eq_take_succ m t, List.take_take, min_eq_left hle]

end Tableau

/-! ## Decisions -/

namespace Solver

/-- The pivots that a decision takes: none if a contradiction shows before the search. -/
def Search.pivots (search : Search) : List (ℕ × ℕ) :=
  match search.outcome with
  | .error _ => []
  | .ok run => run.pivots

variable {n m : ℕ} {s : Solver}

/-- The answer within a budget, from the ending of the search. -/
lemma solve_withBudget {t : Tableau} (h : (enter s.asserted ∅).result = .ok t) (n : ℕ) :
    (s.withBudget n).solve = match (t.run n).ending with
      | .feasible => .ok (.sat (s.completeModel (t.run n).final))
      | .noRepair _ => .ok .unsat
      | .exhausted => .error (.pivotLimit n) :=
  solve_of_ok (s := s.withBudget n) h

/-- A decision fails only by running out of its budget. -/
lemma solve_eq_error {error : SolverError} (h : s.solve = .error error) :
    error = .pivotLimit s.budget := by
  cases hresult : (enter s.asserted ∅).result with
  | error contradiction => simp [solve_of_error hresult] at h
  | ok t =>
    rw [solve_of_ok hresult] at h
    split at h
    · simp at h
    · simp at h
    · exact (Except.error.inj h).symm

/-- The pivots within a budget are the first ones within any larger budget. -/
lemma pivots_search_eq_take (hle : n ≤ m) (s : Solver) :
    (s.withBudget n).search.pivots = (s.withBudget m).search.pivots.take n := by
  rw [search, search, withBudget, withBudget]
  cases hresult : (enter s.asserted ∅).result with
  | error contradiction => exact List.take_nil.symm
  | ok t => exact Tableau.pivots_run_eq_take hle t

/-- **A decision that does not run out of its budget is the same with a larger one.** -/
lemma search_eq_of_le (hle : n ≤ m) (h : (s.withBudget n).solve ≠ .error (.pivotLimit n)) :
    (s.withBudget m).solve = (s.withBudget n).solve ∧
      (s.withBudget m).search = (s.withBudget n).search := by
  cases hresult : (enter s.asserted ∅).result with
  | error contradiction =>
    refine ⟨?_, ?_⟩
    · rw [solve_of_error (s := s.withBudget m) hresult,
        solve_of_error (s := s.withBudget n) hresult]
    · simp only [search, withBudget, hresult, Except.map]
  | ok t =>
    have hending : (t.run n).ending ≠ .exhausted := fun hexhausted =>
      h (by rw [solve_withBudget hresult, hexhausted])
    have hrun : t.run m = t.run n := Tableau.run_eq_of_le hle hending
    refine ⟨?_, ?_⟩
    · rw [solve_withBudget hresult, solve_withBudget hresult, hrun]
      cases hend : (t.run n).ending with
      | feasible => rfl
      | noRepair basic => rfl
      | exhausted => exact absurd hend hending
    · simp only [search, withBudget, hresult, Except.map, hrun]

/-- **A larger budget never changes an answer**, for every list of requests. The pivots within the
smaller budget are the first ones within the larger. If the smaller budget does not run out, the
larger one gives the same answer by the same pivots, of which there are no more than the smaller
budget allows; and if the larger one runs out, so does the smaller.

**Proof sketch.** The budget has no influence on what is asserted, so both searches start from the
same tableau and stay in step until one of them ends. -/
theorem solve_eq_of_budget_le (requests : List Request) {n m : ℕ} (hle : n ≤ m) :
    (after n requests).search.pivots = (after m requests).search.pivots.take n ∧
      ((after n requests).solve ≠ .error (.pivotLimit n) →
        (after m requests).solve = (after n requests).solve ∧
          (after m requests).search.pivots = (after n requests).search.pivots ∧
          (after n requests).search.pivots.length ≤ n) ∧
      ((after m requests).solve = .error (.pivotLimit m) →
        (after n requests).solve = .error (.pivotLimit n)) := by
  rw [← after_withBudget 0 n, ← after_withBudget 0 m]
  have htake := pivots_search_eq_take hle (after 0 requests)
  refine ⟨htake, fun hsolve => ?_, fun hlimit => ?_⟩
  · obtain ⟨hsame, hsearch⟩ := search_eq_of_le hle hsolve
    rw [hsearch] at htake ⊢
    exact ⟨hsame, rfl, htake ▸ List.length_take_le _ _⟩
  · by_contra hsolve
    have hsame := (search_eq_of_le hle hsolve).1
    -- the smaller budget fails as well, and it can only fail by running out
    have herror := solve_eq_error (hsame.symm.trans hlimit)
    exact hsolve ((hsame.symm.trans hlimit).trans (congrArg Except.error herror))

/-- The search for `x + y ≥ 2` and `x < 0` takes two pivots: it gives the same model within seven as
within two, and since it runs out of one pivot it runs out of none. -/
theorem solve_eq_of_budget_le_two :
    (after 7 [.add ⟨.node .add (.var "x") (.var "y"), .ge, .lit 2⟩,
        .add ⟨.var "x", .lt, .lit 0⟩]).solve = .ok (.sat (Model.ofList [("x", -1), ("y", 3)])) ∧
      (after 2 [.add ⟨.node .add (.var "x") (.var "y"), .ge, .lit 2⟩,
        .add ⟨.var "x", .lt, .lit 0⟩]).search.pivots.length ≤ 2 ∧
      (after 0 [.add ⟨.node .add (.var "x") (.var "y"), .ge, .lit 2⟩,
        .add ⟨.var "x", .lt, .lit 0⟩]).solve = .error (.pivotLimit 0) := by
  have htwo : (after 2 [.add ⟨.node .add (.var "x") (.var "y"), .ge, .lit 2⟩,
      .add ⟨.var "x", .lt, .lit 0⟩]).solve = .ok (.sat (Model.ofList [("x", -1), ("y", 3)])) := by
    cbv
  have hone : (after 1 [.add ⟨.node .add (.var "x") (.var "y"), .ge, .lit 2⟩,
      .add ⟨.var "x", .lt, .lit 0⟩]).solve = .error (.pivotLimit 1) := by
    cbv
  obtain ⟨hseven, -, hlength⟩ :=
    (solve_eq_of_budget_le _ (by omega : 2 ≤ 7)).2.1 (by rw [htwo]; simp)
  exact ⟨hseven.trans htwo, hlength, (solve_eq_of_budget_le _ (by omega : 0 ≤ 1)).2.2 hone⟩

end Solver

end ExactArith
