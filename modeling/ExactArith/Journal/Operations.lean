import ExactArith.Expr.Constant
import ExactArith.Journal.Event

set_option autoImplicit false
set_option relaxedAutoImplicit false

/-!
# The journals of the operations

Each operation of the library with the events that it is reported by. An evaluation stops at its
first failure, so its result tells which of the two reported failures was met on the way.

## Main definitions

* `ExactArith.Journal.readNumeral`, `constantOfText`, `checkName` — reading numbers and names.
* `ExactArith.Journal.apply`, `evaluate`, `evaluateAll` — an operator on two numbers, and evaluation
  under one binding and under several.
* `ExactArith.Journal.declare`, `translate`, `constraint` — what a translation context is asked.
* `ExactArith.Journal.add`, `solve`, `assertExprs`, `findModel` — what a solver is asked.

## Main results

* `ExactArith.Journal.result_evaluateAll`, `ExactArith.Journal.result_assertExprs`,
  `ExactArith.Journal.result_findModel` — operations that are put together from others have the
  results that they have without a journal.
-/

namespace ExactArith.Journal

variable {τ φ α : Type}

/-! ## Reading -/

/-- Reads a numeral. -/
def readNumeral (text : String) : Logged (Except NumberError Rat) where
  result := Numeral.read text
  events := .readingNumeral text ::
    match Numeral.diagnose text with
    | .ok value => [.readNumeral text value]
    | .error .zeroDenominator => [.zeroDenominator text]
    | .error .malformed => []

/-- Reads a numeral as a constant of an expression. -/
def constantOfText (text : String) : Logged (Except ExprError Rat) where
  result := Constant.ofText text
  events := (readNumeral text).events

/-- Checks the name of a symbol. -/
def checkName (name : String) : Logged (Except NameError Unit) where
  result := Identifier.check name
  events := .checkingName name ::
    match Identifier.check name with
    | .ok () => [.acceptedName]
    | .error reason => [.refusedName reason]

/-! ## Evaluating -/

/-- The event that comes with a failure of evaluation. -/
def failureEvents : ExprError → List Event
  | .divisionByZero => [.dividingByZero]
  | .cyclicBinding name => [.cyclicSubstitution name]
  | _ => []

/-- Applies an operator. -/
def apply (op : Operator) (left right : Rat) : Logged (Except ExprError Rat) where
  result := op.apply left right
  events :=
    match op.apply left right with
    | .ok _ => []
    | .error error => failureEvents error

/-- Evaluates an expression under a binding. -/
def evaluate (e : Expr) (b : Binding) : Logged (Except ExprError Rat) :=
  let result := e.evaluate b
  { result := result
    events := .evaluating e ::
      match result with
      | .ok value => [.evaluated value]
      | .error error => failureEvents error ++ [.evaluationFailed error] }

/-- Evaluates an expression under each of several bindings. -/
def evaluateAll (e : Expr) (bindings : List Binding) : Logged (List (Except ExprError Rat)) := do
  Logged.report (.evaluatingAll e bindings.length)
  bindings.mapM (evaluate e)

theorem result_evaluateAll (e : Expr) (bindings : List Binding) :
    (evaluateAll e bindings).result = bindings.map e.evaluate :=
  Logged.result_mapM (evaluate e) bindings

/-! ## Translating -/

/-- The events of the calls that a translation has added to the history of its context. -/
def callEvents (backend : Backend τ φ) (before after : Context τ) : List Event :=
  let calls := (after.history.take (after.history.length - before.history.length)).reverse
  calls.filterMap fun
    | .var name => some (.declaring name backend.name)
    | _ => none

/-- The event of a refused operation; a refused comparison is not reported. -/
def refusalEvents : Except Refusal α → List Event
  | .error ⟨error, some node⟩ => [.translationFailed node error]
  | _ => []

/-- The variable of a name. -/
def declare (backend : Backend τ φ) (name : String) (ctx : Context τ) : Logged (τ × Context τ) :=
  let result := ctx.declare backend name
  ⟨result, callEvents backend ctx result.2⟩

/-- Translates an expression. -/
def translate (backend : Backend τ φ) (e : Expr) (ctx : Context τ) :
    Logged (Except Refusal τ × Context τ) :=
  let result := Context.translate backend e ctx
  ⟨result, callEvents backend ctx result.2 ++ refusalEvents result.1⟩

/-- Translates a comparison of two expressions. -/
def constraint (backend : Backend τ φ) (left : Expr) (relation : Relation) (right : Expr)
    (ctx : Context τ) : Logged (Except Refusal φ × Context τ) :=
  let result := ctx.constraint backend left relation right
  ⟨result, callEvents backend ctx result.2 ++ refusalEvents result.1⟩

/-! ## Solving -/

/-- Asserts a constraint. -/
def add (s : Solver) (c : Constraint) : Logged (Except SolverError Solver) where
  result := s.add c
  events :=
    match s.add c with
    | .ok _ => [.asserting c]
    | .error _ => []

/-- The events of the pivots of a search. -/
def pivotEvents (pivots : List (Nat × Nat)) : List Event :=
  pivots.mapIdx fun i (leaving, entering) => .pivot (i + 1) leaving entering

/-- The events at the end of a search. -/
def outcomeEvents (verdict : Except SolverError Verdict) :
    Except Solver.Contradiction Tableau.Run → List Event
  | .error (.falseConstant c) => [.constantFails c]
  | .error (.bounds slack c) => [.conflictingBounds slack, .boundsConflict c]
  | .ok run =>
    pivotEvents run.pivots ++
      match run.ending, verdict with
      | .feasible, .ok (.sat model) => [.feasible run.pivots.length, .satisfiable model]
      | .noRepair basic, _ => [.noRepair basic, .unsatisfiable run.pivots.length]
      | _, _ => []

/-- Decides the asserted constraints. -/
def solve (s : Solver) : Logged (Except SolverError Verdict) :=
  let search := s.search
  let verdict := s.conclude search
  { result := verdict
    events := .solving s.asserted.length ::
      search.idle.map .constantHolds ++ outcomeEvents verdict search.outcome }

/-- Asserts a comparison of two expressions, translated in a new context. -/
def assertExprs (s : Solver) (left : Expr) (relation : Relation) (right : Expr) :
    Logged (Except SolverError Solver) := do
  match (← constraint linearBackend left relation right ∅).1 with
  | .error refusal => return .error refusal.error
  | .ok c => add s c

/-- **The journal has no influence on what is asserted.** -/
theorem result_assertExprs (s : Solver) (left : Expr) (relation : Relation) (right : Expr) :
    (assertExprs s left relation right).result = s.assertExprs left relation right := by
  have hbuilt : (constraint linearBackend left relation right ∅).result =
      (∅ : Context LinearTerm).constraint linearBackend left relation right := rfl
  rw [assertExprs, Solver.assertExprs, Constraint.ofExprs, Logged.result_bind, hbuilt]
  cases ((∅ : Context LinearTerm).constraint linearBackend left relation right).1 <;> rfl

/-- Looks for values of the symbols that make a comparison of two expressions true. -/
def findModel (left : Expr) (relation : Relation) (right : Expr) :
    Logged (Except SolverError Verdict) := do
  match ← assertExprs .default left relation right with
  | .error error => return .error error
  | .ok s => solve s

/-- **The journal has no influence on the answer.** -/
theorem result_findModel (left : Expr) (relation : Relation) (right : Expr) :
    (findModel left relation right).result = ExactArith.findModel left relation right := by
  rw [findModel, ExactArith.findModel, Logged.result_bind, result_assertExprs]
  cases Solver.default.assertExprs left relation right <;> rfl

end ExactArith.Journal
