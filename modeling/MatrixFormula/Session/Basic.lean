import MatrixFormula.Session.Command
import MatrixFormula.Session.Interview
import MatrixFormula.Workspace

/-!
# Sessions

A session processes one line after the other in a workspace. Only the declaration of
a variable changes the workspace, and only it takes further lines as answers.
-/

namespace MatrixFormula.Session

/-- Why a line has no answer. -/
inductive Failure where
  /-- A fault in a formula, with the text that its regions point into. -/
  | formula (source : Text) (diagnostic : Diagnostic)
  | unknownCommand (name : Text)
deriving DecidableEq, Repr

/-- What came of a line: the questions it led to, the text to show or nothing, and the
workspace afterwards. -/
structure Response where
  exchanges : List Exchange
  result : Except Failure (Option Text)
  workspace : Workspace

/-- The number of lines that a line took as answers. -/
def Response.taken (response : Response) : Nat := answered response.exchanges

/-- A line of the list of variables. -/
def describe (name : Text) (tensor : Tensor) : Text :=
  name ++ ": " ++ tensor.rows.text ++ " x " ++ tensor.cols.text ++ ' ' :: tensor.shape.text

/-- The variables in the order of their names, one a line. -/
def listVars (store : Store) : Text :=
  if store.entries = [] then "no variables defined"
  else Text.joined ['\n'] (store.entries.map fun (name, tensor) => describe name tensor)

/-- The numeric values of a variable, one row a line. -/
def numericText (workspace : Workspace) (name : Text) : Text :=
  if workspace.store.contains name then
    match workspace.numeric? name with
    | some values =>
        Text.joined ['\n'] (values.toRows.map fun row => Text.joined [' '] (row.map Double.text))
    | none => quoted name ++ " has no numeric value"
  else quoted name ++ " is not defined"

/-- The answer to a formula, with the fault reported in its text. -/
def shown (source : Text) (result : Except Diagnostic Text) : Except Failure (Option Text) :=
  match result with
  | .ok text => .ok (some text)
  | .error diagnostic => .error (.formula source diagnostic)

/-- Processes a line that is no command. When it asks for a declaration, the lines
after it answer the questions, and nothing is shown if they run out. -/
def processFormula (workspace : Workspace) (line : Text) (lines : List Text) : Response :=
  match Workspace.declaredName? line with
  | none => ⟨[], shown line (workspace.colored line), workspace⟩
  | some name =>
      let interview := Interview.conduct name lines
      let assignment := workspace.assign (fun _ => interview.declaration?) line
      match assignment.outcome? with
      | some outcome => ⟨interview.exchanges, shown line outcome, assignment.workspace⟩
      | none => ⟨interview.exchanges, .ok none, assignment.workspace⟩

/-- Processes a line, of which the lines after it are given. -/
def process (workspace : Workspace) (line : Text) (lines : List Text) : Response :=
  match Command.ofLine line with
  | .calc formula => ⟨[], shown formula (workspace.result formula), workspace⟩
  | .expand formula => ⟨[], shown formula (workspace.expanded formula), workspace⟩
  | .vars => ⟨[], .ok (some (listVars workspace.store)), workspace⟩
  | .numeric name => ⟨[], .ok (some (numericText workspace name)), workspace⟩
  | .formula line => processFormula workspace line lines
  | .unknown name => ⟨[], .error (.unknownCommand name), workspace⟩

end MatrixFormula.Session
