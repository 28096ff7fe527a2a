import ExactArith.CommandLine.Run

set_option autoImplicit false
set_option relaxedAutoImplicit false

/-!
# Entry point

Prints the report of a run: its events and its failure to the standard error stream, its answer to
the standard output stream.
-/

/-- The program. -/
def main (args : List String) : IO UInt32 := do
  let report := ExactArith.CommandLine.run args
  for event in report.events do
    IO.eprintln ("[" ++ event.level.text ++ "] " ++ event.message)
  IO.print report.stdout
  IO.eprint report.stderr
  return report.exitCode.toUInt32
