import MatrixFormula.Grid.Arithmetic
import MatrixFormula.Text.Span

/-!
# Expressions

An evaluated formula is a tree of numbers and names. Every node knows its region of
the source, so that a fault can point at the operands it concerns.
-/

namespace MatrixFormula.Formula

/-- The operations on two operands. -/
inductive Operator where
  | add
  | sub
  | mul
  | div
deriving DecidableEq, Repr

/-- The trees of formulas. -/
inductive Expr where
  | number (lexeme : Text) (span : Span)
  | name (name : Text) (span : Span)
  /-- A minus sign at an offset, and the operand behind it. -/
  | negation (start : Nat) (operand : Expr)
  /-- A transposed operand, with the offset at which the mark ends. -/
  | transpose (operand : Expr) (stop : Nat)
  /-- An operand in parentheses, with the region from one to the other. -/
  | group (span : Span) (inner : Expr)
  /-- Two operands and the region of the sign between them. A product need not have a
  sign. -/
  | binary (operator : Operator) (sign? : Option Span) (left right : Expr)
deriving DecidableEq, Repr

namespace Operator

/-- How tightly an operator binds. Of two operators in a row, the later one waits for
the earlier one unless it binds more tightly. -/
def rank : Operator → Nat
  | .add | .sub => 1
  | .mul | .div => 2

/-- What the operator does with two grids. -/
def apply (ν : Type) [Numeral ν] : Operator → Grid Text → Grid Text →
    Except ArithmeticFault (Grid Text)
  | .add => Grid.add ν
  | .sub => Grid.sub ν
  | .mul => Grid.mul ν
  | .div => Grid.div ν

end Operator

namespace Expr

/-- The region that the expression takes in the source. -/
def span : Expr → Span
  | .number _ span => span
  | .name _ span => span
  | .negation start operand => ⟨start, operand.span.stop⟩
  | .transpose operand stop => ⟨operand.span.start, stop⟩
  | .group span _ => span
  | .binary _ _ left right => left.span.through right.span

/-- The region of an operator: that of its sign, or all that lies between the
operands of a product without one. -/
def signSpan (sign? : Option Span) (left right : Expr) : Span :=
  sign?.getD (left.span.between right.span)

end Expr

end MatrixFormula.Formula
