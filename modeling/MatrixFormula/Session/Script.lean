import MatrixFormula.Session.Basic

/-!
# Scripts

A script is a list of lines that are processed in a new workspace. Blank lines are
skipped, except where they answer a question.
-/

namespace MatrixFormula.Session

/-- Processes lines from the first to the last. Lines that were taken as answers are
not processed themselves. -/
def runLines (workspace : Workspace) : List Text → List Response
  | [] => []
  | line :: lines =>
      if Text.isBlankText line then runLines workspace lines
      else
        let response := process workspace line lines
        response :: runLines response.workspace (lines.drop response.taken)
termination_by lines => lines.length
decreasing_by all_goals simp only [List.length_drop, List.length_cons]; omega

/-- The lines of a text. A line ends with a line feed, to which a carriage return before
it belongs, and the last line may end with the text. -/
def splitLines : Text → List Text
  | [] => []
  | '\n' :: rest => [] :: splitLines rest
  | '\r' :: '\n' :: rest => [] :: splitLines rest
  | char :: rest =>
      match splitLines rest with
      | line :: lines => (char :: line) :: lines
      | [] => [[char]]

/-- What running a script shows. -/
structure Report where
  output : Text
  complaints : List Text
  exitCode : Nat
deriving DecidableEq, Repr

/-- What is shown for a line, question by question. -/
def Response.output (response : Response) : Text :=
  let dialogue := response.exchanges.flatMap fun exchange =>
    match exchange.answer? with
    | some answer => exchange.question ++ answer ++ ['\n']
    | none => []
  match response.result with
  | .ok (some text) => dialogue ++ text ++ ['\n']
  | _ => dialogue

/-- The first line of the report about a failure. -/
def Failure.headline : Failure → Text
  | .formula _ diagnostic => "Error: " ++ diagnostic.fault.message
  | .unknownCommand name =>
      "unknown command " ++ quoted (':' :: name) ++
        "; try :calc, :expand, :vars or :numeric"

/-- Runs a script in a new workspace. -/
def runScript (script : Text) : Report :=
  let responses := runLines {} (splitLines script)
  { output := responses.flatMap Response.output
    complaints := responses.filterMap fun response =>
      match response.result with
      | .error failure => some failure.headline
      | .ok _ => none
    exitCode := 0 }

/-- The report for a script that cannot be found. -/
def missingScript : Report where
  output := []
  complaints := ["No such file or directory (os error 2)"]
  exitCode := 1

end MatrixFormula.Session
