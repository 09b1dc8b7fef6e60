import MatrixFormula.Formula.Reading
import MatrixFormula.Name

/-!
# Values of formulas

The value of a formula is a grid of cells. A name stands for the cells of a variable
or else for a constant, and operators act on the grids of their operands. Of several
faults, the first one counts that is met from left to right, with operands before
their operator.
-/

namespace MatrixFormula.Formula

variable (ν : Type) [Numeral ν]

/-- The value of a number. -/
def numberValue (lexeme : Text) (span : Span) : Except Diagnostic (Grid Text) :=
  match Numeral.read? ν lexeme with
  | some value => .ok (.scalar (Numeral.write value))
  | none => .error ((Fault.invalidNumber lexeme).located span)

/-- The value of a name. -/
def nameValue (store : Store) (name : Text) (span : Span) : Except Diagnostic (Grid Text) :=
  match store.get? name with
  | some (.filled cells) => .ok cells
  | some (.placeholder rows cols) =>
      .error ((Fault.missingCells name rows.text cols.text).located span)
  | none =>
      match Name.constant? name with
      | some cell => .ok (.scalar cell)
      | none => .error ((Fault.undefinedVariable name (store.similar name)).located span)

/-- The value of an expression. -/
def Expr.value (store : Store) : Expr → Except Diagnostic (Grid Text)
  | .number lexeme span => numberValue ν lexeme span
  | .name text span => nameValue store text span
  | .negation _ operand => (operand.value store).map (Grid.neg ν)
  | .transpose operand _ => (operand.value store).map Grid.transpose
  | .group _ inner => inner.value store
  | .binary operator sign? left right => do
      let leftGrid ← left.value store
      let rightGrid ← right.value store
      match operator.apply ν leftGrid rightGrid with
      | .ok grid => .ok grid
      | .error fault =>
          .error ⟨.arithmetic fault, [left.span, signSpan sign? left right, right.span]⟩

/-- The value of a formula. When it cannot be read to its end, the operands that were
complete by then still have their say first. -/
def evaluate (store : Store) (source : Text) : Except Diagnostic (Grid Text) :=
  match parse store source with
  | .ok expr => expr.value ν store
  | .error stop => do
      discard (stop.completed.mapM (Expr.value ν store))
      .error stop.diagnostic

end MatrixFormula.Formula
