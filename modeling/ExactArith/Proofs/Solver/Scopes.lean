import ExactArith.Proofs.Linear.Form
import ExactArith.Proofs.Solver.Session
import Mathlib.Data.List.Forall2

set_option autoImplicit false
set_option relaxedAutoImplicit false

/-!
# Scopes as frames

A solver keeps one list of assertions and a mark for each open scope. What it asserts are the
constraints of a stack of frames, one frame for each scope: opening a scope puts an empty frame on
the stack, and closing it takes the top frame away. Nothing else of a session matters for an answer,
so solving after any requests is solving the constraints of the frames from scratch.

An assertion and its form are kept together. Columns that are cut each for itself would stay in step
as well, which is what `ExactArith.Solver.columns_after` says.

## Main definitions

* `ExactArith.Solver.Frames` — the stacks of frames, and `ExactArith.Solver.framesAfter` what
  requests make of them.
* `ExactArith.Solver.Represents` — a solver asserts the constraints of a stack.
* `ExactArith.Solver.Columns` — constraints, forms and marks in columns of their own.

## Main results

* `ExactArith.Solver.Represents.respond` — a request has the same effect on a solver and on a stack.
* `ExactArith.Solver.represents_after` — so do any requests.
* `ExactArith.Solver.foldlM_add` — constraints with forms can be asserted from scratch.
* `ExactArith.Solver.solve_after_eq_fresh` — all of this, for every session.
-/

namespace ExactArith.Solver

/-! ## Responses -/

/-- The state after a request, or the reason why it is refused. -/
def respond (s : Solver) : Request → Except SolverError Solver
  | .add c => s.add c
  | .push => .ok s.push
  | .pop => s.pop
  | .reset => .ok s.reset
  | .solve => .ok s

/-- The state that a response leads to: the old one if the request was refused. -/
def keep {α : Type} (old : α) : Except SolverError α → α
  | .ok next => next
  | .error _ => old

lemma perform_eq_keep (s : Solver) (request : Request) :
    s.perform request = keep s (s.respond request) := by
  cases request with
  | add c => rw [perform, respond]; cases s.add c <;> rfl
  | push => rfl
  | pop => rw [perform, respond]; cases s.pop <;> rfl
  | reset => rfl
  | solve => rfl

lemma map_keep {α β : Type} (view : α → β) (old : α) (response : Except SolverError α) :
    view (keep old response) = keep (view old) (response.map view) := by
  cases response <;> rfl

/-! ## Frames -/

/-- A stack of frames of constraints. -/
inductive Frames where
  /-- The frame outside of all scopes. -/
  | base (frame : List Constraint)
  /-- The frame of an open scope, on top of the older ones. -/
  | scope (below : Frames) (frame : List Constraint)

namespace Frames

/-- The frames, the oldest first. -/
def toList : Frames → List (List Constraint)
  | .base frame => [frame]
  | .scope below frame => below.toList ++ [frame]

/-- The constraints of all frames, the oldest first. -/
def constraints (f : Frames) : List Constraint := f.toList.flatten

/-- For each scope, the latest first, how many constraints lie below its frame. -/
def marks : Frames → List ℕ
  | .base _ => []
  | .scope below _ => below.constraints.length :: below.marks

/-- Puts a constraint into the top frame. -/
def append (f : Frames) (c : Constraint) : Frames :=
  match f with
  | .base frame => .base (frame ++ [c])
  | .scope below frame => .scope below (frame ++ [c])

/-- The stack after a request, or the reason why it is refused: a constraint with a side that is not
linear, the left one first, or the closing of a scope when none is open. -/
def respond (f : Frames) : Request → Except SolverError Frames
  | .add c =>
    match LinearForm.ofTerm c.left, LinearForm.ofTerm c.right with
    | .error error, _ => .error error
    | .ok _, .error error => .error error
    | .ok _, .ok _ => .ok (f.append c)
  | .push => .ok (.scope f [])
  | .pop =>
    match f with
    | .base _ => .error .emptyScope
    | .scope below _ => .ok below
  | .reset => .ok (.base [])
  | .solve => .ok f

@[simp] lemma constraints_base (frame : List Constraint) : (base frame).constraints = frame := by
  simp [constraints, toList]

@[simp] lemma constraints_scope (below : Frames) (frame : List Constraint) :
    (scope below frame).constraints = below.constraints ++ frame := by
  simp [constraints, toList]

@[simp] lemma constraints_append (f : Frames) (c : Constraint) :
    (f.append c).constraints = f.constraints ++ [c] := by
  cases f <;> simp [append]

@[simp] lemma marks_append (f : Frames) (c : Constraint) : (f.append c).marks = f.marks := by
  cases f <;> rfl

/-- No mark lies beyond the constraints. -/
lemma le_of_mem_marks {f : Frames} {mark : ℕ} (h : mark ∈ f.marks) :
    mark ≤ f.constraints.length := by
  induction f with
  | base frame => exact absurd h List.not_mem_nil
  | scope below frame ih =>
    rw [constraints_scope, List.length_append]
    rcases List.mem_cons.1 h with rfl | h
    · omega
    · have hmark := ih h
      omega

/-- A later scope has at least as many constraints below it. -/
lemma pairwise_marks (f : Frames) : f.marks.Pairwise fun later earlier => earlier ≤ later := by
  induction f with
  | base frame => exact .nil
  | scope below frame ih => exact .cons (fun mark hmark => le_of_mem_marks hmark) ih

end Frames

/-- The stack after a list of requests. -/
def framesAfter (requests : List Request) : Frames :=
  requests.foldl (fun f request => keep f (f.respond request)) (.base [])

/-! ## Solvers and frames -/

/-- A solver asserts the constraints of a stack and has a mark below the frame of each scope. -/
structure Represents (s : Solver) (f : Frames) : Prop where
  constraints : s.constraints = f.constraints
  marks : s.marks = f.marks

/-- A solver and a stack respond alike: both refuse for the same reason, or the new solver
represents the new stack. -/
inductive RespondAlike : Except SolverError Solver → Except SolverError Frames → Prop
  | ok {s : Solver} {f : Frames} (h : s.Represents f) : RespondAlike (.ok s) (.ok f)
  | error (error : SolverError) : RespondAlike (.error error) (.error error)

namespace RespondAlike

variable {response : Except SolverError Solver} {frames : Except SolverError Frames}

lemma keep (h : RespondAlike response frames) {s : Solver} {f : Frames} (hold : s.Represents f) :
    (keep s response).Represents (keep f frames) := by
  cases h with
  | ok hnext => exact hnext
  | error error => exact hold

/-- What is asserted after a response, or why the request is refused, shows in the stack. -/
lemma map_constraints (h : RespondAlike response frames) :
    response.map Solver.constraints = frames.map Frames.constraints := by
  cases h with
  | ok hnext => exact congrArg Except.ok hnext.constraints
  | error error => rfl

end RespondAlike

lemma length_constraints (s : Solver) : s.constraints.length = s.asserted.length :=
  List.length_map Assertion.constraint

namespace Represents

variable {s : Solver} {f : Frames}

lemma add (h : s.Represents f) (c : Constraint) :
    RespondAlike (s.respond (.add c)) (f.respond (.add c)) := by
  rw [Solver.respond, Solver.add, Constraint.form, Frames.respond]
  cases LinearForm.ofTerm c.left with
  | error error => exact .error error
  | ok p =>
    cases LinearForm.ofTerm c.right with
    | error error => exact .error error
    | ok q =>
      refine .ok ⟨?_, ?_⟩
      · rw [Frames.constraints_append, ← h.constraints, Solver.constraints, Solver.constraints,
          List.map_append, List.map_singleton]
      · rw [Frames.marks_append, ← h.marks]

lemma push (h : s.Represents f) : s.push.Represents (.scope f []) where
  constraints := by rw [Frames.constraints_scope, List.append_nil]; exact h.constraints
  marks := by
    rw [Frames.marks, ← h.constraints, ← h.marks, length_constraints]
    rfl

/-- Cutting the assertions at the latest mark leaves those of the frames below. -/
lemma pop (h : s.Represents f) : RespondAlike (s.respond .pop) (f.respond .pop) := by
  rw [Solver.respond, Solver.pop, h.marks]
  cases f with
  | base frame => exact .error .emptyScope
  | scope below frame =>
    refine .ok ⟨?_, rfl⟩
    have hall := h.constraints
    rw [Frames.constraints_scope] at hall
    rw [Solver.constraints, List.map_take]
    change s.constraints.take _ = _
    rw [hall, List.take_left]

/-- **A request has the same effect on a solver and on the stack that it represents.** -/
lemma respond (h : s.Represents f) (request : Request) :
    RespondAlike (s.respond request) (f.respond request) := by
  cases request with
  | add c => exact h.add c
  | push => exact .ok h.push
  | pop => exact h.pop
  | reset => exact .ok ⟨(Frames.constraints_base []).symm, rfl⟩
  | solve => exact .ok h

end Represents

/-- **After any requests, a solver represents the stack of frames.** -/
lemma represents_after (budget : ℕ) (requests : List Request) :
    (after budget requests).Represents (framesAfter requests) := by
  refine List.foldl_rel (r := Represents) ⟨(Frames.constraints_base []).symm, rfl⟩ ?_
  intro request _ s f h
  rw [perform_eq_keep]
  exact (h.respond request).keep h

/-! ## Columns -/

/-- The bookkeeping of a solver in three columns. -/
structure Columns where
  /-- The asserted constraints, the oldest first. -/
  constraints : List Constraint
  /-- Their forms, in the same order. -/
  forms : List LinearForm
  /-- For each open scope, the latest first, how many constraints are older than it. -/
  marks : List ℕ

namespace Columns

/-- The columns after a request, or the reason why it is refused. -/
def respond (k : Columns) : Request → Except SolverError Columns
  | .add c =>
    c.form.map fun form =>
      { k with constraints := k.constraints ++ [c], forms := k.forms ++ [form] }
  | .push => .ok { k with marks := k.constraints.length :: k.marks }
  | .pop =>
    match k.marks with
    | [] => .error .emptyScope
    | mark :: marks => .ok ⟨k.constraints.take mark, k.forms.take mark, marks⟩
  | .reset => .ok ⟨[], [], []⟩
  | .solve => .ok k

end Columns

/-- The columns after a list of requests. -/
def columnsAfter (requests : List Request) : Columns :=
  requests.foldl (fun k request => keep k (k.respond request)) ⟨[], [], []⟩

/-- What a solver keeps, in columns. -/
def columns (s : Solver) : Columns := ⟨s.constraints, s.asserted.map Assertion.form, s.marks⟩

/-- A request has the same effect on a solver and on its columns. -/
lemma map_columns_respond (s : Solver) (request : Request) :
    (s.respond request).map columns = s.columns.respond request := by
  cases request with
  | add c =>
    rw [respond, add, Columns.respond]
    cases c.form with
    | error error => rfl
    | ok form => simp [Except.map, columns, constraints]
  | push =>
    rw [Columns.respond, columns, length_constraints]
    rfl
  | pop =>
    rw [respond, pop, Columns.respond, columns]
    cases s.marks with
    | nil => rfl
    | cons mark marks => simp [Except.map, columns, constraints, List.map_take]
  | reset => rfl
  | solve => rfl

/-- **After any requests, the columns of a solver are those that are kept each for itself.** -/
lemma columns_after (budget : ℕ) (requests : List Request) :
    (after budget requests).columns = columnsAfter requests := by
  refine (List.foldl_hom columns fun s request => ?_).symm
  rw [perform_eq_keep, map_keep columns, map_columns_respond]

/-- The assertions are the pairs of the constraints and the forms of the columns. -/
lemma zipWith_columns (s : Solver) :
    List.zipWith Assertion.mk s.columns.constraints s.columns.forms = s.asserted := by
  rw [columns, constraints, List.zipWith_map, List.zipWith_self, List.map_id']

/-- Each constraint stands beside the difference of the forms of its sides. -/
lemma HasForms.forall₂ {s : Solver} (h : s.HasForms) :
    List.Forall₂ (fun c form => ∃ p q, LinearForm.ofTerm c.left = .ok p ∧
        LinearForm.ofTerm c.right = .ok q ∧ form = p.minus q)
      s.columns.constraints s.columns.forms := by
  rw [columns, constraints, List.forall₂_map_left_iff, List.forall₂_map_right_iff,
    List.forall₂_same]
  intro a ha
  obtain ⟨p, q, hp, hq, hform⟩ := Constraint.form_eq_ok (h a ha)
  exact ⟨p, q, hp, hq, hform.symm⟩

/-! ## Solving from scratch -/

/-- No request changes the budget. -/
lemma budget_after (budget : ℕ) (requests : List Request) :
    (after budget requests).budget = budget :=
  congrArg Solver.budget (after_withBudget budget budget requests).symm

/-- The answer depends on the budget and the assertions alone. -/
lemma solve_congr {s t : Solver} (hbudget : s.budget = t.budget)
    (hasserted : s.asserted = t.asserted) : s.solve = t.solve := by
  obtain ⟨budget, asserted, marks⟩ := s
  obtain rfl : budget = t.budget := hbudget
  obtain rfl : asserted = t.asserted := hasserted
  rfl

/-- **Constraints with forms can be asserted one after the other.** -/
lemma foldlM_add (assertions : List Assertion)
    (h : ∀ a ∈ assertions, a.constraint.form = .ok a.form) (s : Solver) :
    (assertions.map Assertion.constraint).foldlM add s =
      .ok { s with asserted := s.asserted ++ assertions } := by
  induction assertions generalizing s with
  | nil => simp [pure, Except.pure]
  | cons a assertions ih =>
    have hadd : s.add a.constraint = .ok { s with asserted := s.asserted ++ [a] } := by
      rw [add, h a List.mem_cons_self]
      rfl
    rw [List.map_cons, List.foldlM_cons, hadd]
    change (assertions.map Assertion.constraint).foldlM add _ = _
    rw [ih fun b hb => h b (List.mem_cons_of_mem a hb), List.append_assoc, List.singleton_append]

/-- **A session asserts the constraints of its frames, and solving is solving from scratch.** After
any requests, those that failed included, the asserted constraints are those of the frames, and the
next request is refused or changes them as it does the frames. Constraints, forms and marks, cut
each for itself, are in step: a constraint stands beside its form, and the marks rise with the
scopes and stay within the list. The answer is that of a new solver of the same budget to which the
constraints of the frames are added in their order.

**Proof sketch.** The solver represents the frames after each request, so after all of them. The
answer depends on the budget and the assertions alone, and adding the constraints again makes the
same assertions, since each has its form. -/
theorem solve_after_eq_fresh (budget : ℕ) (requests : List Request) :
    ((after budget requests).constraints = (framesAfter requests).toList.flatten ∧
      ∀ request, ((after budget requests).respond request).map constraints =
        ((framesAfter requests).respond request).map Frames.constraints) ∧
    ((after budget requests).columns = columnsAfter requests ∧
      (after budget requests).asserted =
        List.zipWith Assertion.mk (columnsAfter requests).constraints
          (columnsAfter requests).forms ∧
      List.Forall₂ (fun c form => ∃ p q, LinearForm.ofTerm c.left = .ok p ∧
          LinearForm.ofTerm c.right = .ok q ∧ form = p.minus q)
        (columnsAfter requests).constraints (columnsAfter requests).forms ∧
      ((columnsAfter requests).marks.Pairwise fun later earlier => earlier ≤ later) ∧
      ∀ mark ∈ (columnsAfter requests).marks, mark ≤ (columnsAfter requests).constraints.length) ∧
    ∃ fresh, (framesAfter requests).constraints.foldlM add (new budget) = .ok fresh ∧
      (after budget requests).solve = fresh.solve := by
  have hframes := represents_after budget requests
  have hforms := hasForms_after budget requests
  have hmarks : (columnsAfter requests).marks = (framesAfter requests).marks := by
    rw [← columns_after budget]
    exact hframes.marks
  have hconstraints : (columnsAfter requests).constraints = (framesAfter requests).constraints := by
    rw [← columns_after budget]
    exact hframes.constraints
  refine ⟨⟨hframes.constraints, fun request => (hframes.respond request).map_constraints⟩,
    ⟨columns_after budget requests, ?_, ?_, ?_, ?_⟩, ?_⟩
  · rw [← columns_after budget, zipWith_columns]
  · rw [← columns_after budget]
    exact hforms.forall₂
  · rw [hmarks]
    exact Frames.pairwise_marks _
  · rw [hmarks, hconstraints]
    exact fun mark hmark => Frames.le_of_mem_marks hmark
  · rw [← hframes.constraints]
    refine ⟨_, foldlM_add _ hforms (new budget), solve_congr (budget_after budget requests) ?_⟩
    exact (List.nil_append _).symm

/-- A session that closes no scope, asserts a constraint in a scope after one that is not linear,
and closes the scope, is left with the constraint of its base frame. -/
theorem solve_after_eq_fresh_closed :
    (after 3 [.pop, .add ⟨.var "x", .le, .lit 0⟩, .push,
      .add ⟨.node .mul (.var "x") (.var "x"), .lt, .lit 0⟩, .add ⟨.var "x", .gt, .lit 0⟩,
      .solve, .pop]).constraints = [⟨.var "x", .le, .lit 0⟩] ∧
    ∃ fresh, [⟨.var "x", .le, .lit 0⟩].foldlM add (new 3) = .ok fresh ∧
      (after 3 [.pop, .add ⟨.var "x", .le, .lit 0⟩, .push,
        .add ⟨.node .mul (.var "x") (.var "x"), .lt, .lit 0⟩, .add ⟨.var "x", .gt, .lit 0⟩,
        .solve, .pop]).solve = fresh.solve := by
  obtain ⟨⟨hconstraints, -⟩, -, hsolve⟩ := solve_after_eq_fresh 3 [.pop,
    .add ⟨.var "x", .le, .lit 0⟩, .push, .add ⟨.node .mul (.var "x") (.var "x"), .lt, .lit 0⟩,
    .add ⟨.var "x", .gt, .lit 0⟩, .solve, .pop]
  have hframes : (framesAfter [.pop, .add ⟨.var "x", .le, .lit 0⟩, .push,
      .add ⟨.node .mul (.var "x") (.var "x"), .lt, .lit 0⟩, .add ⟨.var "x", .gt, .lit 0⟩,
      .solve, .pop]) = .base [⟨.var "x", .le, .lit 0⟩] := by
    cbv
  rw [hframes] at hconstraints hsolve
  rw [Frames.constraints_base] at hsolve
  exact ⟨hconstraints, hsolve⟩

end ExactArith.Solver
