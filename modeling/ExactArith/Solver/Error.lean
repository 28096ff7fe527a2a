import ExactArith.Linear.Term

set_option autoImplicit false
set_option relaxedAutoImplicit false

/-!
# Failures of solvers

A solver fails when it cannot say anything; that a set of constraints has no solution is an answer
and no failure.

## Main definitions

* `ExactArith.Unsupported` — what a theory cannot express.
* `ExactArith.SolverError` — the causes of failure.
* `ExactArith.SolverError.message` — their wording.
-/

namespace ExactArith

/-- Something that the theory of a solver cannot express. -/
inductive Unsupported where
  /-- A product of two factors that both depend on variables. -/
  | nonlinearProduct (product : Term)
  /-- A division by a term that depends on variables. -/
  | nonConstantDivisor (divisor : Term)
  /-- A division by a constant term that is zero. -/
  | zeroDivisor (quotient : Term)
  /-- An operation or comparison that a backend refuses, by its text. -/
  | operation (text : String)
  deriving DecidableEq

/-- The wording of what is not supported. -/
def Unsupported.message : Unsupported → String
  | .nonlinearProduct product => "nonlinear product " ++ product.render
  | .nonConstantDivisor divisor => "division by non-constant term " ++ divisor.render
  | .zeroDivisor quotient => "division by constant zero in " ++ quotient.render
  | .operation text => text

/-- Why a solver gives no answer. -/
inductive SolverError where
  /-- A term or formula lies outside the solver's theory. -/
  | unsupported (what : Unsupported)
  /-- The search used up its budget of pivots. -/
  | pivotLimit (budget : Nat)
  /-- There is no open scope to close. -/
  | emptyScope
  /-- A term without operands is treated as an operation. -/
  | leafOperation (leaf : Term)
  /-- A backend fails for a reason of its own. -/
  | backend (reason : String)
  deriving DecidableEq

/-- The wording of a failure. -/
def SolverError.message : SolverError → String
  | .unsupported what => "Not expressible in the solver theory: " ++ what.message
  | .pivotLimit budget => "Gave up after " ++ budget.repr ++ " pivots"
  | .emptyScope => "No assertion scope to pop"
  | .leafOperation leaf => "Solver backend error: " ++ leaf.render ++ " has no operands"
  | .backend reason => "Solver backend error: " ++ reason

end ExactArith
