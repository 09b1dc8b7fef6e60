import MatrixFormula.Formula.Value
import MatrixFormula.Markup.Expansion

/-!
# Workspaces

A workspace keeps the variables of a user and the colours they are shown in. It
answers formulas in three ways, by their value, in colours and with values filled
in, and it takes new variables by declarations. Its numbers are floats.
-/

namespace MatrixFormula

/-- Variables, and the colours they are shown in. -/
structure Workspace where
  store : Store := .empty
  palette : Markup.Palette := {}
deriving DecidableEq

/-- What became of an input that may ask for a declaration: the names whose
declaration was asked for, the outcome if a declaration was given, and the workspace
afterwards. -/
structure Assignment where
  asked : List Text
  outcome? : Option (Except Diagnostic Text)
  workspace : Workspace

namespace Workspace

/-- The name that an input asks to declare. Such an input is a name and an equals
sign, with nothing but blanks between them and nothing around them. -/
def declaredName? (input : Text) : Option Text :=
  match Token.list input with
  | [name, equals] =>
      if name.kind = .name ∧ equals.kind = .equals then some name.lexeme else none
  | [name, blank, equals] =>
      if name.kind = .name ∧ blank.kind = .blank ∧ equals.kind = .equals then some name.lexeme
      else none
  | _ => none

/-- The workspace with a tensor under a name. -/
def save (workspace : Workspace) (name : Text) (tensor : Tensor) : Workspace :=
  { workspace with store := workspace.store.insert name tensor }

/-- Declares a variable. It is shown as an equation with its value. -/
def define (workspace : Workspace) (name : Text) (declaration : Declaration) :
    Except Diagnostic (Text × Workspace) :=
  declaration.tensor?.map fun tensor =>
    (Name.display name ++ " = " ++ tensor.latex, workspace.save name tensor)

/-- Takes an input that may ask for a declaration. The declaration comes from a
source, which may have none to give. -/
def assign (workspace : Workspace) (source : Text → Option Declaration) (input : Text) :
    Assignment :=
  match declaredName? input with
  | none => ⟨[], none, workspace⟩
  | some name =>
      match source name with
      | none => ⟨[name], none, workspace⟩
      | some declaration =>
          match workspace.define name declaration with
          | .ok (shown, after) => ⟨[name], some (.ok shown), after⟩
          | .error diagnostic => ⟨[name], some (.error diagnostic), workspace⟩

/-- The value of a formula. -/
def evaluate (workspace : Workspace) (formula : Text) : Except Diagnostic (Grid Text) :=
  Formula.evaluate Float workspace.store formula

/-- The value of a formula, shown as a matrix. -/
def result (workspace : Workspace) (formula : Text) : Except Diagnostic Text :=
  (workspace.evaluate formula).map Latex.matrix

/-- A formula with its variables in the colours of their shapes. -/
def colored (workspace : Workspace) (formula : Text) : Except Diagnostic Text :=
  Markup.renderColored workspace.store workspace.palette formula

/-- A formula with its variables replaced by their values. -/
def expanded (workspace : Workspace) (formula : Text) : Except Diagnostic Text :=
  Markup.renderExpanded Float workspace.store formula

/-- The numeric values of the cells of a variable, when each has one. -/
def numeric? (workspace : Workspace) (name : Text) : Option (Grid Float) :=
  (workspace.store.get? name).bind (Tensor.numeric? Float)

end Workspace

end MatrixFormula
