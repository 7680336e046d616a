import InfixCalculator.CommandLine.Execution

/-! The program: it runs on its arguments under the default settings, records on standard error.
-/

open InfixCalculator in
def main (arguments : List String) : IO UInt32 := do
  let (result, log) := CommandLine.outcome {} arguments
  for r in log do
    IO.eprintln (r.source ++ " - " ++ r.level.label ++ " - " ++ r.message)
  match result with
  | .ok report =>
    for (name, text) in report.files do
      IO.FS.writeFile name text
    IO.print report.output
    unless report.usageError.isEmpty do
      IO.eprintln ("error: " ++ report.usageError)
    return report.exitCode.toUInt32
  | .error failure =>
    IO.eprintln failure.message
    return 1
