import MatrixFormula.Session.Script

/-!
# The command line

A script is read from the file that is named as the first argument, or else from
standard input.
-/

open MatrixFormula

/-- The script to run, unless it cannot be found. -/
def readScript? : List String → IO (Option String)
  | [] => do return some (← (← IO.getStdin).readToEnd)
  | path :: _ => try return some (← IO.FS.readFile path) catch _ => return none

/-- Runs a script and prints its report. -/
def main (arguments : List String) : IO UInt32 := do
  let report :=
    match ← readScript? arguments with
    | some script => Session.runScript script
    | none => Session.missingScript
  IO.print (String.ofList report.output)
  for complaint in report.complaints do
    IO.eprintln (String.ofList complaint)
  return report.exitCode.toUInt32
