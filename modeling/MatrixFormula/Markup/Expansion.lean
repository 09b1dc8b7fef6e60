import MatrixFormula.Markup.Reading

/-!
# Formulas with their values filled in

An expanded formula shows the values of its variables. A variable that is transposed
is shown as its transposed value, so its name and the mark behind it are replaced by
markup before the formula is read. Faults still point at what was typed.
-/

namespace MatrixFormula.Markup

/-- A piece of a formula that was typed, as it stands in the expanded formula. -/
inductive Segment where
  | kept (text : Text)
  | replaced (typed markup : Text)
deriving DecidableEq, Repr

namespace Segment

/-- The piece as it was typed. -/
def typed : Segment → Text
  | .kept text => text
  | .replaced typed _ => typed

/-- The piece as it stands in the expanded formula. -/
def shown : Segment → Text
  | .kept text => text
  | .replaced _ markup => markup

end Segment

/-- Whether a token is a run of blanks. -/
def isBlankToken (token : Token) : Bool := token.kind == .blank

/-- What stands behind a mark of transposition that starts some tokens. Blanks may
stand before the caret and before the letter. -/
def afterTranspose? (tokens : List Token) : Option (List Token) :=
  match tokens.dropWhile isBlankToken with
  | [] => none
  | caret :: more =>
      match more.dropWhile isBlankToken with
      | [] => none
      | letter :: rest =>
          if caret.kind = .caret ∧ letter.kind = .name ∧
              (letter.lexeme = ['T'] ∨ letter.lexeme = ['t']) then some rest
          else none

/-- What stands behind a mark of transposition is shorter by it. -/
theorem length_lt_of_afterTranspose? {tokens rest : List Token}
    (found : afterTranspose? tokens = some rest) : rest.length < tokens.length := by
  unfold afterTranspose? at found
  split at found
  · cases found
  · next caret more spread =>
      split at found
      · cases found
      · next letter others closer =>
          have outer := (List.dropWhile_sublist isBlankToken (l := tokens)).length_le
          have inner := (List.dropWhile_sublist isBlankToken (l := more)).length_le
          rw [spread] at outer
          rw [closer] at inner
          simp only [List.length_cons] at outer inner
          split at found
          · cases found
            omega
          · cases found

/-- The pieces of a formula, with each transposed variable as one piece. -/
def segments (ν : Type) [Numeral ν] (store : Store) : List Token → List Segment
  | [] => []
  | token :: rest =>
      match if token.kind = .name then store.get? token.lexeme else none with
      | none => .kept token.lexeme :: segments ν store rest
      | some tensor =>
          match _ : afterTranspose? rest with
          | none => .kept token.lexeme :: segments ν store rest
          | some after =>
              let mark := rest.take (rest.length - after.length)
              .replaced (token.lexeme ++ mark.flatMap Token.lexeme) (tensor.transposedLatex ν) ::
                segments ν store after
termination_by tokens => tokens.length
decreasing_by
  · exact Nat.lt_succ_self _
  · exact Nat.lt_succ_self _
  · exact Nat.lt_succ_of_lt (length_lt_of_afterTranspose? ‹_›)

/-- The pieces of a source text. -/
def segmentsOf (ν : Type) [Numeral ν] (store : Store) (source : Text) : List Segment :=
  segments ν store (Token.list source)

/-- The text of an expanded formula before it is read. -/
def shownText (pieces : List Segment) : Text := pieces.flatMap Segment.shown

/-- Offsets behind the end of a text are not told apart beyond this one. -/
def offsetLimit : Nat := Nat.pow 2 64 - 1

/-- The offset in what was typed, from `base` on, for an offset in what is shown. The
start of a region that lies in a replaced piece moves to the start of what was typed
for it, and the end of a region moves to its end. -/
def typedOffset (isEnd : Bool) : List Segment → Nat → Nat → Nat
  | [], base, offset => base + min offset (offsetLimit - base)
  | .kept text :: rest, base, offset =>
      if offset < text.byteSize then base + offset
      else typedOffset isEnd rest (base + text.byteSize) (offset - text.byteSize)
  | .replaced typed markup :: rest, base, offset =>
      if isEnd && offset == 0 then base
      else if offset < markup.byteSize then if isEnd then base + typed.byteSize else base
      else typedOffset isEnd rest (base + typed.byteSize) (offset - markup.byteSize)

/-- The region of what was typed for a region of what is shown. -/
def typedSpan (pieces : List Segment) (span : Span) : Span :=
  ⟨typedOffset false pieces 0 span.start, typedOffset true pieces 0 span.stop⟩

/-- The markup of a formula with its variables replaced by their values. -/
def renderExpanded (ν : Type) [Numeral ν] (store : Store) (source : Text) :
    Except Diagnostic Text :=
  let pieces := segmentsOf ν store source
  match render (.expanded store) (shownText pieces) with
  | .ok markup => .ok markup
  | .error diagnostic =>
      .error { diagnostic with spans := diagnostic.spans.map (typedSpan pieces) }

end MatrixFormula.Markup
