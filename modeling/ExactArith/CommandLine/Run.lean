import ExactArith.CommandLine.Options
import ExactArith.Journal.Operations

set_option autoImplicit false
set_option relaxedAutoImplicit false

/-!
# The program

The program evaluates `x - y * 2` for given values of `x` and `y`, and then solves the equation
`x - y * 2 = target`.

## Main definitions

* `ExactArith.CommandLine.run` — what the program answers to its arguments.
-/

namespace ExactArith.CommandLine

/-- What a run of the program leaves behind. -/
structure Report where
  /-- The exit code: `1` for a failure, `2` for unusable arguments. -/
  exitCode : Nat := 0
  /-- The answer. -/
  stdout : String := ""
  /-- The failure. -/
  stderr : String := ""
  /-- What happened on the way, up to the level that was asked for. -/
  events : List Event := []

/-- The text of a version request. -/
def versionText : String := "symex 0.1.0\n"

/-- The text of a help request. -/
def helpText : String :=
  "Evaluate x - y * 2 for concrete values and solve x - y * 2 = target\n\n" ++
  "Usage: symex [OPTIONS]\n\n" ++
  "Options:\n" ++
  "      --x <X>                    Value bound to x [default: 3]\n" ++
  "      --y <Y>                    Value bound to y [default: 4]\n" ++
  "  -t, --target <TARGET>          Right-hand side of the query [default: 10]\n" ++
  "  -b, --backend <BACKEND>        Solver backend [possible values: linear]\n" ++
  "      --max-pivots <MAX_PIVOTS>  Pivot budget of the search [default: 10000]\n" ++
  "  -l, --log-level <LOG_LEVEL>    error, warn, info, debug or trace [default: warn]\n" ++
  "  -h, --help                     Print help\n" ++
  "  -V, --version                  Print version\n"

/-- The expression `x - y * 2`. -/
def query : Expr := .symbol "x" - .symbol "y" * 2

/-- The three numbers of a run. -/
structure Input where
  /-- The value of `x`. -/
  x : Rat
  /-- The value of `y`. -/
  y : Rat
  /-- The value that the expression is to have. -/
  target : Rat

/-- Reads the value of the option `name`. -/
def readValue (name text : String) : Except String Rat :=
  (Constant.ofText text).mapError fun error =>
    "Invalid value for " ++ name ++ ": " ++ error.message

/-- Reads the three numbers; the first that is none decides the failure. -/
def Input.ofOptions (options : Options) : Except String Input := do
  let x ← readValue "x" options.x
  let y ← readValue "y" options.y
  let target ← readValue "target" options.target
  return ⟨x, y, target⟩

/-- The report of a run that fails after giving a part of its answer. -/
def Report.failed (stdout message : String) : Report :=
  { exitCode := 1, stdout := stdout, stderr := "Error: " ++ message ++ "\n" }

/-- Evaluates the expression and solves the equation. -/
def answer (input : Input) (budget : Nat) : Logged Report := do
  let shown := "Expression: " ++ query.render ++ "\n"
  match ← Journal.evaluate query (.ofList [("x", input.x), ("y", input.y)]) with
  | .error error => return .failed shown ("Failed to evaluate expression: " ++ error.message)
  | .ok value =>
    let shown := shown ++ "Result with concrete values: " ++ Numeral.write value ++ "\n"
    match ← Journal.assertExprs (.new budget) query .eq input.target with
    | .error error => return .failed shown ("Failed to add constraint: " ++ error.message)
    | .ok solver =>
      match ← Journal.solve solver with
      | .error error => return .failed shown ("Solver failed: " ++ error.message)
      | .ok .unsat => return { stdout := shown ++ "No solution found.\n" }
      | .ok (.sat model) =>
        return { stdout := shown ++ "SMT Solver Result: " ++ model.render ++ "\n" }

/-- What the program answers to its arguments. -/
def run (args : List String) : Report :=
  match Options.ofArgs args with
  | .error (.flag .version) => { stdout := versionText }
  | .error (.flag .help) => { stdout := helpText }
  | .error (.usage error) => { exitCode := 2, stderr := "error: " ++ error.message ++ "\n" }
  | .ok options =>
    match Input.ofOptions options with
    | .error message => .failed "" message
    | .ok input =>
      let report := answer input options.maxPivots
      let events := match options.logLevel? with
        | some level => report.eventsWithin level
        | none => []
      { report.result with events := events }

end ExactArith.CommandLine
