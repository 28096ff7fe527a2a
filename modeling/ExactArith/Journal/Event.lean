import ExactArith.Expr.Evaluation
import ExactArith.Solver.Basic
import ExactArith.Text

set_option autoImplicit false
set_option relaxedAutoImplicit false

/-!
# Events and journals

What the library reports about its work, for those who want to follow it. An event is a fact about
a computation; its level and its text are functions of the fact. The operations of the library
compute and report nothing. Those of `ExactArith.Journal` give the same results together with the
events of the computation; a journal never has an influence on a result.

## Main definitions

* `ExactArith.Level` — how much a reader wants to see.
* `ExactArith.Event` — the facts, with `ExactArith.Event.level` and `ExactArith.Event.message`.
* `ExactArith.Logged` — a result with a journal.
* `ExactArith.Logged.bind` — one computation after another; their journals are joined.

## Main results

* `ExactArith.Logged.result_bind`, `ExactArith.Logged.result_mapM` — the result of computations one
  after another is that of their results.
-/

namespace ExactArith

/-- How important an event is. -/
inductive Level where
  | warn
  | info
  | debug
  | trace
  deriving DecidableEq

namespace Level

/-- Every level, the most important first. -/
def all : List Level := [.warn, .info, .debug, .trace]

/-- The text of a level. -/
def text : Level → String
  | .warn => "warn"
  | .info => "info"
  | .debug => "debug"
  | .trace => "trace"

/-- The level with a given text. -/
def ofText? (text : String) : Option Level := all.find? (·.text == text)

/-- Whether a reader of level `limit` sees what has this level. -/
def isWithin (level limit : Level) : Bool := all.idxOf level ≤ all.idxOf limit

end Level

/-- A fact about a computation. -/
inductive Event where
  /-- A numeral is about to be read. -/
  | readingNumeral (text : String)
  /-- A fraction has the denominator zero. -/
  | zeroDenominator (text : String)
  /-- A numeral has been read. -/
  | readNumeral (text : String) (value : Rat)
  /-- A name is about to be checked. -/
  | checkingName (name : String)
  /-- A name has been refused. -/
  | refusedName (reason : NameError)
  /-- A name has been accepted. -/
  | acceptedName
  /-- A division by zero has been met. -/
  | dividingByZero
  /-- A symbol has been met again while its replacement was evaluated. -/
  | cyclicSubstitution (name : String)
  /-- An expression is about to be evaluated. -/
  | evaluating (e : Expr)
  /-- An evaluation has given a value. -/
  | evaluated (value : Rat)
  /-- An evaluation has failed. -/
  | evaluationFailed (error : ExprError)
  /-- An expression is about to be evaluated under several bindings. -/
  | evaluatingAll (e : Expr) (count : Nat)
  /-- A backend is asked for a new variable. -/
  | declaring (name : String) (backend : String)
  /-- A backend has refused an operation. -/
  | translationFailed (node : Expr) (error : SolverError)
  /-- A constraint is being asserted. -/
  | asserting (c : Constraint)
  /-- A number of constraints is about to be decided. -/
  | solving (count : Nat)
  /-- A constraint with a constant form holds. -/
  | constantHolds (c : Constraint)
  /-- A constraint with a constant form does not hold. -/
  | constantFails (c : Constraint)
  /-- The bounds of a slack exclude each other. -/
  | conflictingBounds (slack : Nat)
  /-- A constraint has led to conflicting bounds. -/
  | boundsConflict (c : Constraint)
  /-- A search has exchanged two variables. -/
  | pivot (count leaving entering : Nat)
  /-- A search has met all bounds. -/
  | feasible (pivots : Nat)
  /-- A search has found a row that excludes a solution. -/
  | noRepair (basic : Nat)
  /-- The constraints have a solution. -/
  | satisfiable (model : Model)
  /-- A search has shown that the constraints have none. -/
  | unsatisfiable (pivots : Nat)

namespace Event

/-- The level of an event. -/
def level : Event → Level
  | .zeroDenominator _ | .refusedName _ => .warn
  | .evaluatingAll _ _ | .solving _ | .constantFails _ | .boundsConflict _ | .satisfiable _
  | .unsatisfiable _ => .info
  | .pivot _ _ _ => .trace
  | _ => .debug

/-- A text in single quotes. -/
def quote (text : String) : String := "'" ++ text ++ "'"

/-- The text of an event. -/
def message : Event → String
  | .readingNumeral text => "Parsing rational from " ++ quote text
  | .zeroDenominator text => "Zero denominator in " ++ quote text
  | .readNumeral text value => "Parsed " ++ quote text ++ " as " ++ Numeral.write value
  | .checkingName name => "Validating symbol name: " ++ quote name
  | .refusedName .empty => "Symbol name is empty"
  | .refusedName (.notIdentifier name) => "Symbol name is not an identifier: " ++ quote name
  | .acceptedName => "Symbol name validation successful"
  | .dividingByZero => "Division by zero attempted"
  | .cyclicSubstitution name => "Cyclic substitution through symbol " ++ quote name
  | .evaluating e => "Evaluating expression: " ++ e.render
  | .evaluated value => "Expression evaluated to: " ++ Numeral.write value
  | .evaluationFailed error => "Expression evaluation failed: " ++ error.message
  | .evaluatingAll e count =>
    "Evaluating " ++ e.render ++ " against " ++ count.repr ++ " bindings"
  | .declaring name backend => "Declaring real variable " ++ quote name ++ " on " ++ backend
  | .translationFailed node error =>
    "Translation of " ++ node.render ++ " failed: " ++ error.message
  | .asserting c => "Asserting constraint: " ++ c.render
  | .solving count => "Solving " ++ count.repr ++ " constraints"
  | .constantHolds c => "Constant constraint holds: " ++ c.render
  | .constantFails c => "Constant constraint is false: " ++ c.render
  | .conflictingBounds slack => "Conflicting bounds on slack " ++ slack.repr
  | .boundsConflict c => "Bounds conflict while asserting: " ++ c.render
  | .pivot count leaving entering =>
    "Pivot " ++ count.repr ++ ": variable " ++ leaving.repr ++ " leaves, variable " ++
      entering.repr ++ " enters"
  | .feasible pivots => "Simplex feasible after " ++ pivots.repr ++ " pivots"
  | .noRepair basic => "Row of basic variable " ++ basic.repr ++ " admits no repair"
  | .satisfiable model => "Satisfiable: " ++ model.render
  | .unsatisfiable pivots => "Unsatisfiable after " ++ pivots.repr ++ " pivots"

end Event

/-! ## Results with their journal -/

/-- A result with the events that led to it, in their order. -/
structure Logged (α : Type) where
  /-- The result. -/
  result : α
  /-- The events. -/
  events : List Event

namespace Logged

variable {α β : Type}

/-- A result that took no event. -/
def pure (a : α) : Logged α := ⟨a, []⟩

/-- Goes on from a result; the events of both computations count. -/
def bind (x : Logged α) (f : α → Logged β) : Logged β :=
  let y := f x.result
  ⟨y.result, x.events ++ y.events⟩

instance : Monad Logged where
  pure := pure
  bind := bind

@[simp] theorem result_pure (a : α) : (Pure.pure a : Logged α).result = a := rfl

@[simp] theorem result_map (f : α → β) (x : Logged α) : (f <$> x).result = f x.result := rfl

/-- A computation goes on from the result of the one before it, whatever the events. -/
@[simp] theorem result_bind (x : Logged α) (f : α → Logged β) :
    (x >>= f).result = (f x.result).result := rfl

instance : LawfulMonad Logged :=
  .mk' Logged
    (fun x => by cases x; exact congrArg (Logged.mk _) (List.append_nil _))
    (fun a f => congrArg (Logged.mk _) (List.nil_append _))
    (fun x f g => congrArg (Logged.mk _) (List.append_assoc _ _ _))

/-- **The results of computations one after the other are their results.** -/
theorem result_mapM (f : α → Logged β) (xs : List α) :
    (xs.mapM f).result = xs.map fun x => (f x).result := by
  induction xs with
  | nil => rfl
  | cons x xs ih => simp [List.mapM_cons, ih]

/-- Reports an event. -/
def report (event : Event) : Logged Unit := ⟨(), [event]⟩

/-- The events that a reader of level `limit` sees. -/
def eventsWithin (x : Logged α) (limit : Level) : List Event :=
  x.events.filter (·.level.isWithin limit)

end Logged

end ExactArith
