import MatrixFormula.Text.Blank
import MatrixFormula.Text.Span

/-!
# Tokens

A formula is a sequence of tokens: blank runs, names, runs of digits and points,
and single characters. The first character of a token decides its kind, and the
kind decides which characters continue it, so a token is always as long as it can
be and every text is a sequence of tokens.
-/

namespace MatrixFormula

namespace Token

/-- The kinds of tokens. -/
inductive Kind where
  | blank
  | plus
  | minus
  | times
  /-- One of the three dots that also write a product. -/
  | dot
  | slash
  | caret
  | equals
  | openParen
  | closeParen
  /-- The start of a markup command. -/
  | backslash
  | name
  /-- A run of digits and points, which may be no valid number. -/
  | number
  /-- Any other single character. -/
  | symbol
deriving DecidableEq, Repr

/-- Whether a character may start a name. -/
def startsName (char : Char) : Bool := char.isAlpha || char == '_'

/-- Whether a character may stand inside a name. -/
def continuesName (char : Char) : Bool := startsName char || char.isDigit

/-- Whether a character may stand in a number. -/
def inNumber (char : Char) : Bool := char.isDigit || char == '.'

namespace Kind

/-- The kind of the token that a character starts. -/
def ofHead (char : Char) : Kind :=
  if Text.isBlank char then .blank
  else if startsName char then .name
  else if inNumber char then .number
  else
    match char with
    | '+' => .plus
    | '-' => .minus
    | '*' => .times
    | '·' | '⋅' | '•' => .dot
    | '/' => .slash
    | '^' => .caret
    | '=' => .equals
    | '(' => .openParen
    | ')' => .closeParen
    | '\\' => .backslash
    | _ => .symbol

/-- Whether a character continues a token of the kind. -/
def continuedBy : Kind → Char → Bool
  | .blank, char => Text.isBlank char
  | .name, char => continuesName char
  | .number, char => inNumber char
  | _, _ => false

/-- Whether a token of the kind starts an operand. After an operand such a token
writes a product without an operator. -/
def startsOperand : Kind → Bool
  | .openParen | .name | .number => true
  | _ => false

end Kind

end Token

/-- A token, with its text and the region it takes in the source. -/
structure Token where
  kind : Token.Kind
  lexeme : Text
  span : Span
deriving DecidableEq, Repr

namespace Token

/-- The tokens of a text that stands at an offset of the source. -/
def listFrom (offset : Nat) : Text → List Token
  | [] => []
  | char :: rest =>
      let kind := Kind.ofHead char
      let lexeme : Text := char :: rest.takeWhile kind.continuedBy
      ⟨kind, lexeme, Span.ofText offset lexeme⟩ ::
        listFrom (offset + lexeme.byteSize) (rest.dropWhile kind.continuedBy)
termination_by text => text.length
decreasing_by
  have shorter := (List.dropWhile_sublist (Kind.ofHead char).continuedBy (l := rest)).length_le
  exact Nat.lt_succ_of_le shorter

/-- All tokens of a source, blank runs included. -/
def list (source : Text) : List Token := listFrom 0 source

/-- The first token of a text that stands at an offset of the source. -/
def first? (offset : Nat) : Text → Option Token
  | [] => none
  | char :: rest =>
      let kind := Kind.ofHead char
      let lexeme : Text := char :: rest.takeWhile kind.continuedBy
      some ⟨kind, lexeme, Span.ofText offset lexeme⟩

/-- A text has a first token unless it is empty. -/
@[simp] theorem first?_eq_none_iff {offset : Nat} {text : Text} :
    first? offset text = none ↔ text = [] := by
  cases text <;> simp [first?]

/-- The tokens of a text spell it. -/
theorem flatMap_lexeme_listFrom (offset : Nat) (text : Text) :
    (listFrom offset text).flatMap Token.lexeme = text := by
  fun_induction listFrom offset text with
  | case1 => rfl
  | case2 offset char rest kind lexeme ih =>
      rw [List.flatMap_cons, ih]
      simp [lexeme]

end Token

end MatrixFormula
