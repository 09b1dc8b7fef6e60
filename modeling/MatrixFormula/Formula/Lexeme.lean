import MatrixFormula.Store
import MatrixFormula.Token

/-!
# What an evaluated formula is read from

The evaluator reads a formula as words: its tokens without the blanks, with three
refinements. A run of letters that is no known name but is made of two known names
is read as those two. A caret is read together with the exponent behind it, and the
mark of transposition is a single letter, whatever letters follow it. The three dots
are the same word as the asterisk.
-/

namespace MatrixFormula.Formula

/-- What stands behind a caret. -/
inductive Exponent where
  /-- The letter of transposition, which ends at the given offset. -/
  | transpose (stop : Nat)
  /-- Any other token. -/
  | unsupported (found : Text) (span : Span)
  /-- Nothing but blanks, up to the given offset. -/
  | missing (stop : Nat)
deriving DecidableEq, Repr

/-- The words of a formula. -/
inductive Word where
  | number
  | name
  | plus
  | minus
  | times
  | slash
  | openParen
  | closeParen
  | caret (exponent : Exponent)
  /-- A token with no meaning in an evaluated formula. -/
  | stray
deriving DecidableEq, Repr

/-- A word with its text and its region in the source. -/
structure Lexeme where
  word : Word
  text : Text
  span : Span
deriving DecidableEq, Repr

/-- The word of a token that is neither blank nor a caret. -/
def Word.ofKind : Token.Kind → Word
  | .number => .number
  | .name => .name
  | .plus => .plus
  | .minus => .minus
  | .times | .dot => .times
  | .slash => .slash
  | .openParen => .openParen
  | .closeParen => .closeParen
  | _ => .stray

/-- Whether a letter marks transposition. -/
def isTransposeMark (char : Char) : Bool := char == 'T' || char == 't'

/-- What a run of letters starts with as a factor: all of it, unless it is unknown and
made of two known names. -/
def leadingName (store : Store) (run : Text) : Text :=
  if store.contains run then run
  else
    match store.split? run with
    | some (name, _) => name
    | none => run

/-- The exponent behind a caret that ends at an offset, and the text that is read
after it. Nothing is read after an exponent that is not supported. -/
def exponent (offset : Nat) (text : Text) : Exponent × Text :=
  let markOffset := offset + Text.byteSize (text.takeWhile Text.isBlank)
  match text.dropWhile Text.isBlank with
  | [] => (.missing markOffset, [])
  | mark :: after =>
      if isTransposeMark mark then (.transpose (markOffset + mark.utf8Size), after)
      else
        let found : Text := mark :: after.takeWhile (Token.Kind.ofHead mark).continuedBy
        (.unsupported found (Span.ofText markOffset found), [])

/-- The offset at which reading goes on after an exponent. -/
def Exponent.stop : Exponent → Nat
  | .transpose stop => stop
  | .unsupported _ span => span.stop
  | .missing stop => stop

/-- The text that is read after an exponent is no longer than the text before it. -/
theorem length_exponent_le (offset : Nat) (text : Text) :
    (exponent offset text).2.length ≤ text.length := by
  have fewer := (List.dropWhile_sublist Text.isBlank (l := text)).length_le
  unfold exponent
  split
  · exact Nat.zero_le _
  · next mark after spread =>
      rw [spread, List.length_cons] at fewer
      split
      · exact Nat.le_of_succ_le fewer
      · exact Nat.zero_le _

/-- The words of a text that stands at an offset of the source. -/
def lexemes (store : Store) (offset : Nat) : Text → List Lexeme
  | [] => []
  | char :: rest =>
      let kind := Token.Kind.ofHead char
      let run : Text := char :: rest.takeWhile kind.continuedBy
      match kind with
      | .blank => lexemes store (offset + run.byteSize) (rest.dropWhile kind.continuedBy)
      | .name =>
          let name := leadingName store run
          ⟨.name, name, Span.ofText offset name⟩ ::
            lexemes store (offset + name.byteSize) (rest.drop (name.length - 1))
      | .caret =>
          let found := exponent (offset + char.utf8Size) rest
          ⟨.caret found.1, [char], Span.ofText offset [char]⟩ ::
            lexemes store found.1.stop found.2
      | kind =>
          ⟨.ofKind kind, run, Span.ofText offset run⟩ ::
            lexemes store (offset + run.byteSize) (rest.dropWhile kind.continuedBy)
termination_by text => text.length
decreasing_by
  · exact Nat.lt_succ_of_le (List.dropWhile_sublist ..).length_le
  · exact Nat.lt_succ_of_le (List.drop_sublist ..).length_le
  · exact Nat.lt_succ_of_le (length_exponent_le ..)
  · exact Nat.lt_succ_of_le (List.dropWhile_sublist ..).length_le

end MatrixFormula.Formula
