import MatrixFormula.Formula.Expr
import MatrixFormula.Formula.Lexeme
import MatrixFormula.Pending

/-!
# Reading expressions

Words are read from left to right, with a stack of what waits for an operand. Sums
and products associate to the left, a minus sign binds more tightly than a product,
and transposition more tightly than a minus sign. Two operands in a row are a
product.
-/

namespace MatrixFormula.Formula

/-- What waits for an operand. -/
inductive Frame where
  /-- A minus sign at an offset. -/
  | negation (start : Nat)
  /-- A left operand with an operator and the region of its sign. -/
  | binary (left : Expr) (operator : Operator) (sign? : Option Span)
  /-- An open parenthesis. -/
  | group (span : Span)
deriving DecidableEq, Repr

/-- An open parenthesis takes in nothing before it is closed. -/
instance : Pending Frame Expr where
  rank
    | .negation _ => 3
    | .binary _ operator _ => operator.rank
    | .group _ => 0
  fill
    | .negation start, operand => .negation start operand
    | .binary left operator sign?, operand => .binary operator sign? left operand
    | .group _, operand => operand

/-- Why a formula cannot be read to its end. The operands that were complete by then
are kept, from left to right: a fault in one of them comes first. -/
structure Stop where
  completed : List Expr
  diagnostic : Diagnostic
deriving DecidableEq, Repr

/-- The operands that were complete when a stack was left. -/
def completed (stack : List Frame) : List Expr :=
  stack.reverse.filterMap fun
    | .binary left _ _ => some left
    | _ => none

/-- The stack on which an operator waits for its right operand. -/
def await (operator : Operator) (sign? : Option Span) (operand : Expr) (stack : List Frame) :
    List Frame :=
  Pending.await (fun left => .binary left operator sign?) operator.rank operand stack

/-- The end of an expression at something that cannot continue it: a parenthesis was
left open, or nothing is missing and the rest is reported. -/
def stopAt (operand : Expr) (stack : List Frame) (diagnostic : Diagnostic) : Stop :=
  match Pending.settle 1 operand stack with
  | (whole, .group span :: below) =>
      ⟨completed below ++ [whole], Fault.unclosedParenthesis.located span⟩
  | (whole, below) => ⟨completed below ++ [whole], diagnostic⟩

/-- The fault of text behind a complete formula that ends at an offset. -/
def trailing (stop : Nat) (lexeme : Lexeme) : Diagnostic :=
  (Fault.trailingText (lexeme.text.take 1)).located ⟨lexeme.span.start, stop⟩

/-- Reads words onto a stack, from a place where an operand must follow, or from
behind an operand. The source ends at the offset `stop`. -/
def read (stop : Nat) : List Frame → Option Expr → List Lexeme → Except Stop Expr
  | stack, none, [] => .error ⟨completed stack, Fault.unexpectedEnd.located (.point stop)⟩
  | stack, none, lexeme :: rest =>
      match lexeme.word with
      | .number => read stop stack (some (.number lexeme.text lexeme.span)) rest
      | .name => read stop stack (some (.name lexeme.text lexeme.span)) rest
      | .minus => read stop (.negation lexeme.span.start :: stack) none rest
      | .openParen => read stop (.group lexeme.span :: stack) none rest
      | _ => .error ⟨completed stack, (Fault.unexpectedToken lexeme.text).located lexeme.span⟩
  | stack, some operand, [] =>
      match Pending.settle 1 operand stack with
      | (whole, []) => .ok whole
      | (_, _ :: _) => .error (stopAt operand stack (Fault.unexpectedEnd.located (.point stop)))
  | stack, some operand, lexeme :: rest =>
      match lexeme.word with
      | .plus => read stop (await .add (some lexeme.span) operand stack) none rest
      | .minus => read stop (await .sub (some lexeme.span) operand stack) none rest
      | .times => read stop (await .mul (some lexeme.span) operand stack) none rest
      | .slash => read stop (await .div (some lexeme.span) operand stack) none rest
      | .number =>
          read stop (await .mul none operand stack) (some (.number lexeme.text lexeme.span)) rest
      | .name =>
          read stop (await .mul none operand stack) (some (.name lexeme.text lexeme.span)) rest
      | .openParen => read stop (.group lexeme.span :: await .mul none operand stack) none rest
      | .closeParen =>
          match Pending.settle 1 operand stack with
          | (inner, .group span :: below) =>
              read stop below (some (.group (span.through lexeme.span) inner)) rest
          | _ => .error (stopAt operand stack (trailing stop lexeme))
      | .caret (.transpose mark) => read stop stack (some (.transpose operand mark)) rest
      | .caret (.unsupported found span) =>
          .error ⟨completed stack ++ [operand], (Fault.unsupportedExponent found).located span⟩
      | .caret (.missing place) =>
          .error ⟨completed stack ++ [operand], Fault.unexpectedEnd.located (.point place)⟩
      | .stray => .error (stopAt operand stack (trailing stop lexeme))

/-- Reads a whole formula, with the names of a store. -/
def parse (store : Store) (source : Text) : Except Stop Expr :=
  read (Text.byteSize source) [] none (lexemes store 0 source)

end MatrixFormula.Formula
