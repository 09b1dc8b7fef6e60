import MatrixFormula.Fault
import MatrixFormula.Markup.Lexeme
import MatrixFormula.Markup.Node
import MatrixFormula.Pending

/-!
# Reading displayed formulas

Words are read from left to right, with a stack of what waits for an operand.
Equations bind most loosely and associate to the right. Then come sums, products,
minus signs and fractions, and powers bind most tightly and associate to the right.
A denominator and an exponent cannot start with a minus sign.
-/

namespace MatrixFormula.Markup

/-- What waits for an operand. -/
inductive Frame where
  /-- An open parenthesis. -/
  | group (span : Span)
  | equation (left : Node)
  | sum (left : Node)
  | difference (left : Node)
  | product (left : Node)
  | negation
  | fraction (numerator : Node)
  | power (base : Node)
deriving DecidableEq, Repr

/-- An open parenthesis takes in nothing before it is closed. -/
instance : Pending Frame Node where
  rank
    | .group _ => 0
    | .equation _ => 1
    | .sum _ | .difference _ => 2
    | .product _ => 3
    | .negation => 4
    | .fraction _ => 5
    | .power _ => 6
  fill
    | .group _, operand => operand
    | .equation left, operand => .equation left operand
    | .sum left, operand => .sum left operand
    | .difference left, operand => .difference left operand
    | .product left, operand => .product left operand
    | .negation, operand => .negation operand
    | .fraction numerator, operand => .fraction numerator operand
    | .power base, operand => .power base operand

/-- Behind a whole expression, what is left is an open parenthesis or nothing. -/
theorem group_of_settle {operand whole : Node} {stack below : List Frame} {frame : Frame}
    (settled : Pending.settle 1 operand stack = (whole, frame :: below)) :
    ∃ span, frame = .group span := by
  have loose := Pending.rank_lt_of_settle settled
  cases frame with
  | group span => exact ⟨span, rfl⟩
  | _ => exact absurd loose (by simp [Pending.rank])

/-- An exponent belongs to nothing but the operand in front of it. -/
theorem settle_power {operand : Node} {stack : List Frame} :
    Pending.settle 7 operand stack = (operand, stack) := by
  cases stack with
  | nil => rfl
  | cons frame stack =>
      rw [Pending.settle, if_neg]
      cases frame <;> simp [Pending.rank]

/-- Whether the operand that a frame waits for may start with a minus sign. -/
def Frame.admitsMinus : Frame → Bool
  | .fraction _ | .power _ => false
  | _ => true

/-- The stack on which a product waits for its next factor. -/
def awaitFactor (operand : Node) (stack : List Frame) : List Frame :=
  Pending.await .product 3 operand stack

/-- The fault of something that cannot continue a formula: a parenthesis was left
open, or nothing is missing and the rest is reported. -/
def stopAt (operand : Node) (stack : List Frame) (diagnostic : Diagnostic) : Diagnostic :=
  match Pending.settle 1 operand stack with
  | (_, .group span :: _) => Fault.unclosedParenthesis.located span
  | _ => diagnostic

/-- The fault of text behind a complete formula that ends at an offset. -/
def trailing (stop : Nat) (lexeme : Lexeme) : Diagnostic :=
  (Fault.trailingText (lexeme.text.take 1)).located ⟨lexeme.span.start, stop⟩

/-- Reads words onto a stack, from a place where an operand must follow, or from
behind an operand. The source ends at the offset `stop`. -/
def read (stop : Nat) : List Frame → Option Node → List Lexeme → Except Diagnostic Node
  | _, none, [] => .error (Fault.unexpectedEnd.located (.point stop))
  | stack, none, lexeme :: rest =>
      match lexeme.word with
      | .number => read stop stack (some (.number lexeme.text)) rest
      | .name => read stop stack (some (.name lexeme.text)) rest
      | .block => read stop stack (some (.block lexeme.text)) rest
      | .openParen => read stop (.group lexeme.span :: stack) none rest
      | .minus =>
          if stack.head?.all Frame.admitsMinus then read stop (.negation :: stack) none rest
          else .error ((Fault.unexpectedToken lexeme.text).located lexeme.span)
      | _ => .error ((Fault.unexpectedToken lexeme.text).located lexeme.span)
  | stack, some operand, [] =>
      match Pending.settle 1 operand stack with
      | (whole, []) => .ok whole
      | (_, _ :: _) => .error (stopAt operand stack (Fault.unexpectedEnd.located (.point stop)))
  | stack, some operand, lexeme :: rest =>
      match lexeme.word with
      | .equals => read stop (Pending.await .equation 2 operand stack) none rest
      | .plus => read stop (Pending.await .sum 2 operand stack) none rest
      | .minus => read stop (Pending.await .difference 2 operand stack) none rest
      | .times => read stop (awaitFactor operand stack) none rest
      | .number => read stop (awaitFactor operand stack) (some (.number lexeme.text)) rest
      | .name => read stop (awaitFactor operand stack) (some (.name lexeme.text)) rest
      | .block => read stop (awaitFactor operand stack) (some (.block lexeme.text)) rest
      | .openParen =>
          read stop (.group lexeme.span :: awaitFactor operand stack) none rest
      | .slash => read stop (Pending.await .fraction 5 operand stack) none rest
      | .caret => read stop (.power operand :: stack) none rest
      | .closeParen =>
          match Pending.settle 1 operand stack with
          | (inner, .group _ :: below) => read stop below (some (.group inner)) rest
          | _ => .error (stopAt operand stack (trailing stop lexeme))
      | .stray => .error (stopAt operand stack (trailing stop lexeme))

/-- Reads a whole displayed formula. -/
def parse (source : Text) : Except Diagnostic Node :=
  read (Text.byteSize source) [] none (lexemes 0 source)

/-- The markup of a formula, with names written by a style. -/
def render (style : NameStyle) (source : Text) : Except Diagnostic Text :=
  (parse source).map (Node.layout style)

/-- The markup of a formula with its variables in the colours of their shapes. -/
def renderColored (store : Store) (palette : Palette) (source : Text) :
    Except Diagnostic Text :=
  render (.colored store palette) source

end MatrixFormula.Markup
