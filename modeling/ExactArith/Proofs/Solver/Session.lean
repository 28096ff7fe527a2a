import ExactArith.Solver.Basic
import Mathlib.Data.Nat.Notation
import Mathlib.Tactic.Lemma

set_option autoImplicit false
set_option relaxedAutoImplicit false

/-!
# Sessions

A session sends requests to a solver, one after the other. What the solver remembers of them is a
list of constraints, each with its form; a request that fails changes nothing.

## Main definitions

* `ExactArith.Solver.Request`, `ExactArith.Solver.perform` — what can be asked of a solver, and the
  state after it.
* `ExactArith.Solver.after` — the state after a list of requests.
* `ExactArith.Solver.HasForms` — each assertion keeps the form of its constraint.

## Main results

* `ExactArith.Solver.after_withBudget` — the budget has no influence on what is asserted.
* `ExactArith.Solver.hasForms_after` — after any requests, each assertion keeps its form.
-/

namespace ExactArith.Solver

/-- What can be asked of a solver. -/
inductive Request where
  /-- To assert a constraint. -/
  | add (c : Constraint)
  /-- To open a scope. -/
  | push
  /-- To close the latest scope. -/
  | pop
  /-- To forget everything. -/
  | reset
  /-- To decide the asserted constraints. -/
  | solve

/-- The state after a request. It is the old one if the request fails. -/
def perform (s : Solver) : Request → Solver
  | .add c =>
    match s.add c with
    | .ok next => next
    | .error _ => s
  | .push => s.push
  | .pop =>
    match s.pop with
    | .ok next => next
    | .error _ => s
  | .reset => s.reset
  | .solve => s

/-- The state after a list of requests to a new solver. -/
def after (budget : ℕ) (requests : List Request) : Solver :=
  requests.foldl perform (new budget)

/-- A solver with another budget. -/
def withBudget (s : Solver) (budget : ℕ) : Solver := { s with budget := budget }

lemma perform_withBudget (s : Solver) (budget : ℕ) (request : Request) :
    (s.withBudget budget).perform request = (s.perform request).withBudget budget := by
  cases request with
  | add c =>
    rw [perform, perform, add, add]
    cases c.form <;> rfl
  | push => rfl
  | pop =>
    obtain ⟨budget, asserted, marks⟩ := s
    cases marks <;> rfl
  | reset => rfl
  | solve => rfl

/-- **The budget has no influence on what a session asserts.** -/
lemma after_withBudget (budget other : ℕ) (requests : List Request) :
    (after budget requests).withBudget other = after other requests :=
  (List.foldl_hom (fun s => withBudget s other)
    fun s request => perform_withBudget s other request).symm

/-- Each assertion keeps the form of its constraint. -/
def HasForms (s : Solver) : Prop := ∀ a ∈ s.asserted, a.constraint.form = .ok a.form

lemma add_eq_ok {s next : Solver} {c : Constraint} (h : s.add c = .ok next) :
    ∃ form, c.form = .ok form ∧ next = { s with asserted := s.asserted ++ [⟨c, form⟩] } := by
  rw [add] at h
  cases hform : c.form with
  | error error => simp [hform, Except.map] at h
  | ok form => exact ⟨form, rfl, by simpa [hform, Except.map] using h.symm⟩

lemma pop_eq_ok {s next : Solver} (h : s.pop = .ok next) :
    ∃ mark marks, s.marks = mark :: marks ∧
      next = { s with asserted := s.asserted.take mark, marks := marks } := by
  rw [pop] at h
  cases hmarks : s.marks with
  | nil => simp [hmarks] at h
  | cons mark marks => exact ⟨mark, marks, rfl, by simpa [hmarks] using h.symm⟩

lemma HasForms.perform {s : Solver} (h : s.HasForms) (request : Request) :
    (s.perform request).HasForms := by
  cases request with
  | add c =>
    rw [Solver.perform]
    split
    · next hok =>
      obtain ⟨form, hform, rfl⟩ := add_eq_ok hok
      intro a ha
      rcases List.mem_append.1 ha with ha | ha
      · exact h a ha
      · obtain rfl := List.mem_singleton.1 ha
        exact hform
    · exact h
  | push => exact h
  | pop =>
    rw [Solver.perform]
    split
    · next hok =>
      obtain ⟨mark, marks, -, rfl⟩ := pop_eq_ok hok
      exact fun a ha => h a (List.mem_of_mem_take ha)
    · exact h
  | reset => exact fun a ha => absurd ha List.not_mem_nil
  | solve => exact h

/-- **After any requests, each assertion keeps the form of its constraint.** -/
lemma hasForms_after (budget : ℕ) (requests : List Request) : (after budget requests).HasForms :=
  List.foldlRecOn requests perform (fun _ ha => absurd ha List.not_mem_nil)
    fun _ h request _ => h.perform request

end ExactArith.Solver
