import MatrixFormula.Markup.Block
import MatrixFormula.Token

/-!
# What a displayed formula is read from

A formula that is displayed is read as its tokens without the blanks. A backslash is
read together with the markup block that it starts.
-/

namespace MatrixFormula.Markup

/-- The words of a displayed formula. -/
inductive Word where
  | number
  | name
  | block
  | plus
  | minus
  | times
  | slash
  | caret
  | equals
  | openParen
  | closeParen
  /-- A token with no meaning in a displayed formula. -/
  | stray
deriving DecidableEq, Repr

/-- A word with its text and its region in the source. -/
structure Lexeme where
  word : Word
  text : Text
  span : Span
deriving DecidableEq, Repr

/-- The word of a token that is neither blank nor a backslash. -/
def Word.ofKind : Token.Kind → Word
  | .number => .number
  | .name => .name
  | .plus => .plus
  | .minus => .minus
  | .times => .times
  | .slash => .slash
  | .caret => .caret
  | .equals => .equals
  | .openParen => .openParen
  | .closeParen => .closeParen
  | _ => .stray

/-- The words of a text that stands at an offset of the source. -/
def lexemes (offset : Nat) : Text → List Lexeme
  | [] => []
  | char :: rest =>
      let kind := Token.Kind.ofHead char
      let run : Text := char :: rest.takeWhile kind.continuedBy
      match kind with
      | .blank => lexemes (offset + run.byteSize) (rest.dropWhile kind.continuedBy)
      | .backslash =>
          let block : Text := char :: (Block.cut rest).1
          ⟨.block, block, Span.ofText offset block⟩ ::
            lexemes (offset + block.byteSize) (Block.cut rest).2
      | kind =>
          ⟨.ofKind kind, run, Span.ofText offset run⟩ ::
            lexemes (offset + run.byteSize) (rest.dropWhile kind.continuedBy)
termination_by text => text.length
decreasing_by
  · exact Nat.lt_succ_of_le (List.dropWhile_sublist ..).length_le
  · exact Nat.lt_succ_of_le (Block.length_le_of_append_eq (Block.cut_append rest))
  · exact Nat.lt_succ_of_le (List.dropWhile_sublist ..).length_le

end MatrixFormula.Markup
