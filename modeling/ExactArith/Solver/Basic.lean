import ExactArith.Tableau.Pivot
import ExactArith.Translation.Context

set_option autoImplicit false
set_option relaxedAutoImplicit false

/-!
# The solver

The solver keeps a list of linear constraints and decides whether some assignment satisfies all of
them. Constraints are asserted in *scopes*: closing a scope takes back what was asserted since it
was opened. Each decision starts from a fresh tableau, so its answer depends on the constraints
that are asserted and on nothing else that was done before.

## Main definitions

* `ExactArith.Solver` — the state: assertions, open scopes and the budget of pivots.
* `ExactArith.Solver.add`, `push`, `pop`, `reset` — its changes.
* `ExactArith.Solver.search` — the decision with all that led to it.
* `ExactArith.Solver.solve` — the decision alone.
* `ExactArith.Solver.assertExprs` — asserts a comparison of two expressions.
* `ExactArith.findModel` — a solution of a single comparison of two expressions.
-/

namespace ExactArith

/-- An asserted constraint with the form that it compares with zero. -/
structure Assertion where
  /-- The constraint as it was asserted. -/
  constraint : Constraint
  /-- Its left side minus its right side. -/
  form : LinearForm
  deriving DecidableEq

/-- The state of a solver. -/
structure Solver where
  /-- The number of pivots after which a search gives up. -/
  budget : Nat
  /-- The assertions, the oldest first. -/
  asserted : List Assertion
  /-- For each open scope, the latest first, how many assertions are older than it. -/
  marks : List Nat
  deriving DecidableEq

/-- The answer to the question whether the constraints have a solution. -/
inductive Verdict where
  /-- They have this one. -/
  | sat (model : Model)
  /-- They have none. -/
  | unsat
  deriving DecidableEq

namespace Solver

/-- The budget of a solver for which none is given. -/
def defaultBudget : Nat := 10000

/-- A solver without assertions. -/
def new (budget : Nat) : Solver := ⟨budget, [], []⟩

/-- A solver without assertions, with the usual budget. -/
def default : Solver := new defaultBudget

instance : Inhabited Solver := ⟨default⟩

/-! ## Assertions and scopes -/

/-- The asserted constraints, the oldest first. -/
def constraints (s : Solver) : List Constraint := s.asserted.map Assertion.constraint

/-- The variables of the asserted constraints, whether or not their forms mention them. -/
def vars (s : Solver) : Names :=
  s.constraints.foldl (fun names c => names ∪ c.vars) ∅

/-- Asserts a constraint, unless one of its sides is not linear. -/
def add (s : Solver) (c : Constraint) : Except SolverError Solver :=
  c.form.map fun form => { s with asserted := s.asserted ++ [⟨c, form⟩] }

/-- Opens a scope. -/
def push (s : Solver) : Solver := { s with marks := s.asserted.length :: s.marks }

/-- Closes the latest scope and takes its assertions back. -/
def pop (s : Solver) : Except SolverError Solver :=
  match s.marks with
  | [] => .error .emptyScope
  | mark :: marks => .ok { s with asserted := s.asserted.take mark, marks := marks }

/-- Takes all assertions back and closes all scopes. -/
def reset (s : Solver) : Solver := { s with asserted := [], marks := [] }

/-! ## Deciding -/

/-- A contradiction that shows while the assertions are entered into a tableau. -/
inductive Contradiction where
  /-- A constraint whose form is constant does not hold. -/
  | falseConstant (constraint : Constraint)
  /-- A constraint contradicts the earlier ones on the same slack. -/
  | bounds (slack : Nat) (constraint : Constraint)
  deriving DecidableEq

/-- What comes of entering assertions into a tableau. -/
structure Entry where
  /-- The constraints with constant forms that hold and so say nothing, in their order. -/
  idle : List Constraint
  /-- The tableau with all other constraints, or the first contradiction. -/
  result : Except Contradiction Tableau

/-- Enters assertions into a tableau, up to the first contradiction. -/
def enter : List Assertion → Tableau → Entry
  | [], t => ⟨[], .ok t⟩
  | a :: rest, t =>
    if a.form.isConstant then
      if a.constraint.relation.holds a.form.constant 0 then
        let entry := enter rest t
        { entry with idle := a.constraint :: entry.idle }
      else
        ⟨[], .error (.falseConstant a.constraint)⟩
    else
      let (slack, t) := t.assert a.form a.constraint.relation
      if t.isConflicting slack then ⟨[], .error (.bounds slack a.constraint)⟩ else enter rest t

/-- A decision with what led to it. -/
structure Search where
  /-- The constraints that say nothing. -/
  idle : List Constraint
  /-- The simplex search, or the contradiction that made it unnecessary. -/
  outcome : Except Contradiction Tableau.Run

/-- Decides the asserted constraints. -/
def search (s : Solver) : Search :=
  let entry := enter s.asserted ∅
  ⟨entry.idle, entry.result.map (Tableau.run s.budget)⟩

/-- The model of a tableau, with zero for the solver's variables that the tableau leaves out: they
cancel in every form, so any value would do. -/
def completeModel (s : Solver) (t : Tableau) : Model :=
  s.vars.foldl (fun m name => m.insertIfNew name 0) t.model

/-- What a search says about the asserted constraints. -/
def conclude (s : Solver) (search : Search) : Except SolverError Verdict :=
  match search.outcome with
  | .error _ => .ok .unsat
  | .ok run =>
    match run.ending with
    | .feasible => .ok (.sat (s.completeModel run.final))
    | .noRepair _ => .ok .unsat
    | .exhausted => .error (.pivotLimit s.budget)

/-- Decides whether the asserted constraints have a solution. -/
def solve (s : Solver) : Except SolverError Verdict := s.conclude s.search

end Solver

/-! ## Single questions -/

/-- The constraint that compares two expressions, built in a new context. -/
def Constraint.ofExprs (left : Expr) (relation : Relation) (right : Expr) :
    Except SolverError Constraint :=
  ((∅ : Context LinearTerm).constraint linearBackend left relation right).1.mapError Refusal.error

/-- Asserts the comparison of two expressions. -/
def Solver.assertExprs (s : Solver) (left : Expr) (relation : Relation) (right : Expr) :
    Except SolverError Solver :=
  (Constraint.ofExprs left relation right).bind s.add

/-- Looks for values of the symbols that make a comparison of two expressions true. -/
def findModel (left : Expr) (relation : Relation) (right : Expr) : Except SolverError Verdict :=
  (Solver.default.assertExprs left relation right).bind Solver.solve

end ExactArith
