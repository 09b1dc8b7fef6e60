import MatrixFormula.Fault
import MatrixFormula.Token

/-!
# Cursors

A cursor is a place in a source: the text before it and the text after it. Tokens
are read from the cursor on, so it may stand inside a token, and reading resumes
with whatever token starts there. Every operation that looks at a token first moves
over the blanks in front of it.
-/

namespace MatrixFormula

/-- A place in a source text. -/
structure Cursor where
  passed : Text
  rest : Text
deriving DecidableEq, Repr

namespace Cursor

/-- The cursor at the start of a source. -/
def start (source : Text) : Cursor := ⟨[], source⟩

/-- The whole text around the cursor. -/
def source (cursor : Cursor) : Text := cursor.passed ++ cursor.rest

/-- The byte offset of the cursor. -/
def offset (cursor : Cursor) : Nat := Text.byteSize cursor.passed

/-- The cursor behind a number of further characters. -/
def advance (cursor : Cursor) (count : Nat) : Cursor :=
  ⟨cursor.passed ++ cursor.rest.take count, cursor.rest.drop count⟩

/-- The cursor behind the blanks that follow it. -/
def skipBlanks (cursor : Cursor) : Cursor :=
  cursor.advance (cursor.rest.takeWhile Text.isBlank).length

/-- The token that starts at the cursor, blank runs included. -/
def token? (cursor : Cursor) : Option Token := Token.first? cursor.offset cursor.rest

/-- The next token that is no blank run. -/
def look? (cursor : Cursor) : Option Token := cursor.skipBlanks.token?

/-- The cursor behind the next token that is no blank run. -/
def pass (cursor : Cursor) (token : Token) : Cursor :=
  cursor.skipBlanks.advance token.lexeme.length

/-- The region of no bytes at the end of the source. -/
def endSpan (cursor : Cursor) : Span := Span.point (Text.byteSize cursor.source)

/-- The region of the next token, or the end of the source when there is none. -/
def span (cursor : Cursor) : Span := (cursor.look?.map Token.span).getD cursor.endSpan

/-- A fault at the next token. -/
def report (cursor : Cursor) (fault : Fault) : Diagnostic := fault.located cursor.span

/-- Whether nothing but blanks follows. -/
def isAtEnd (cursor : Cursor) : Bool := cursor.skipBlanks.rest.isEmpty

/-- Nothing when only blanks follow, and otherwise a fault about all that follows. -/
def expectEnd (cursor : Cursor) : Except Diagnostic Unit :=
  match cursor.skipBlanks.rest with
  | [] => .ok ()
  | char :: _ =>
      .error ((Fault.trailingText [char]).located ⟨cursor.skipBlanks.offset, cursor.endSpan.stop⟩)

/-- The number of leading characters that fit into a number of bytes. -/
def charsWithin : Nat → Text → Nat
  | _, [] => 0
  | bytes, char :: rest =>
      if char.utf8Size ≤ bytes then charsWithin (bytes - char.utf8Size) rest + 1 else 0

/-- The cursor at a byte offset of the source, or at its end when the offset lies
beyond it. -/
def moveTo (cursor : Cursor) (offset : Nat) : Cursor :=
  (start cursor.source).advance (charsWithin offset cursor.source)

/-- The questions and movements of a reader. -/
inductive Step where
  | look
  | lookKind
  | read
  /-- Read the next token if it is of the kind. -/
  | readIf (kind : Token.Kind)
  | lookChar
  /-- Read one character, which may be blank. -/
  | readChar
  | skipBlanks
  | isAtEnd
  | span
  | endSpan
  | rest
  | source
  /-- Report a fault at the next token. -/
  | report (fault : Fault)
  | expectEnd
  /-- Remember the place. -/
  | mark
  /-- Return to the place that was remembered with the index. -/
  | returnTo (index : Nat)
  | moveTo (offset : Nat)
deriving DecidableEq, Repr

/-- The answers to the steps of a reader. -/
inductive Answer where
  | done
  | token? (token? : Option Token)
  | kind? (kind? : Option Token.Kind)
  | read (result : Except Diagnostic Token)
  | char? (char? : Option Char)
  | flag (value : Bool)
  | region (span : Span)
  | text (text : Text)
  | report (diagnostic : Diagnostic)
  | ended (result : Except Diagnostic Unit)
  | marked (index : Nat)

/-- A reader: a cursor and the places it has remembered, oldest first. -/
structure Reader where
  cursor : Cursor
  marks : List Cursor
deriving DecidableEq, Repr

/-- What a step that only concerns the cursor answers, and where it leaves it. -/
def act (cursor : Cursor) : Step → Answer × Cursor
  | .look => (.token? cursor.look?, cursor.skipBlanks)
  | .lookKind => (.kind? (cursor.look?.map Token.kind), cursor.skipBlanks)
  | .read =>
      match cursor.look? with
      | some token => (.read (.ok token), cursor.pass token)
      | none => (.read (.error (cursor.report .unexpectedEnd)), cursor.skipBlanks)
  | .readIf kind =>
      match cursor.look? with
      | some token =>
          if token.kind = kind then (.token? (some token), cursor.pass token)
          else (.token? none, cursor.skipBlanks)
      | none => (.token? none, cursor.skipBlanks)
  | .lookChar => (.char? cursor.skipBlanks.rest.head?, cursor.skipBlanks)
  | .readChar => (.char? cursor.rest.head?, cursor.advance 1)
  | .skipBlanks => (.done, cursor.skipBlanks)
  | .isAtEnd => (.flag cursor.isAtEnd, cursor)
  | .span => (.region cursor.span, cursor)
  | .endSpan => (.region cursor.endSpan, cursor)
  | .rest => (.text cursor.rest, cursor)
  | .source => (.text cursor.source, cursor)
  | .report fault => (.report (cursor.report fault), cursor)
  | .expectEnd => (.ended cursor.expectEnd, cursor.skipBlanks)
  | .mark | .returnTo _ => (.done, cursor)
  | .moveTo offset => (.done, cursor.moveTo offset)

namespace Reader

/-- A reader at the start of a source. -/
def start (source : Text) : Reader := ⟨Cursor.start source, []⟩

/-- What a step answers, and the reader after it. -/
def step (reader : Reader) : Step → Answer × Reader
  | .mark =>
      (.marked reader.marks.length, { reader with marks := reader.marks ++ [reader.cursor] })
  | .returnTo index =>
      (.done, { reader with cursor := reader.marks[index]?.getD reader.cursor })
  | step =>
      let (answer, cursor) := reader.cursor.act step
      (answer, { reader with cursor := cursor })

/-- The answers to a list of steps, each with the offset at which it left the cursor. -/
def run (reader : Reader) : List Step → List (Answer × Nat)
  | [] => []
  | first :: others =>
      let (answer, after) := reader.step first
      (answer, after.cursor.offset) :: after.run others

end Reader

end Cursor

end MatrixFormula
