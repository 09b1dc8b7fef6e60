import MatrixFormula.Text.Blank

/-!
# Commands

A line of a session is a command when it starts with a colon, and otherwise a
formula or the request to declare a variable.
-/

namespace MatrixFormula.Session

/-- What a line asks for. -/
inductive Command where
  /-- The value of a formula. -/
  | calc (formula : Text)
  /-- A formula with its variables replaced by their values. -/
  | expand (formula : Text)
  /-- The list of all variables. -/
  | vars
  /-- The numeric values of a variable. -/
  | numeric (name : Text)
  /-- A formula to show, or a variable to declare. -/
  | formula (line : Text)
  /-- A command that does not exist. -/
  | unknown (name : Text)
deriving DecidableEq, Repr

namespace Command

/-- Reads a line. The name of a command ends at the first blank, and its argument is
what stands behind that one blank. -/
def ofLine (line : Text) : Command :=
  match Text.trimStart line with
  | ':' :: text =>
      let name : Text := text.takeWhile fun char => !Text.isBlank char
      let argument : Text := text.drop (name.length + 1)
      if name = "calc" then .calc argument
      else if name = "expand" then .expand argument
      else if name = "vars" then .vars
      else if name = "numeric" then .numeric (Text.trim argument)
      else .unknown name
  | _ => .formula line

end Command

end MatrixFormula.Session
