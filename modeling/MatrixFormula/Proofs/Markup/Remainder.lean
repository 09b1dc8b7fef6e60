import MatrixFormula.Proofs.Markup.Descent

/-!
# The words behind a cursor

A cursor that moves through a formula has words behind it. Each token is one of them, but a
backslash is one only together with the rest of its block. An operand may be settled early, where
the word behind it leaves no choice.
-/

namespace MatrixFormula.Markup

/-! ## The words behind a cursor -/

section Words

variable {cursor : Cursor} {token : Token}

/-- The words of the text behind a cursor. -/
def words (cursor : Cursor) : List Lexeme := lexemes cursor.offset cursor.rest

/-- Passing over blanks leaves the same words. -/
theorem words_skipBlanks (cursor : Cursor) : words cursor.skipBlanks = words cursor :=
  lexer.skipBlanks cursor

/-- Without a next token there are no words. -/
theorem words_of_look?_eq_none (none : cursor.look? = none) : words cursor = [] :=
  lexer.of_look?_eq_none none

theorem words_cons {char : Char} {rest : Text} (behind : cursor.skipBlanks.rest = char :: rest) :
    words cursor = lexemes cursor.skipBlanks.offset (char :: rest) := by
  rw [← words_skipBlanks, words, behind]

theorem words_behind (passed run rest : Text) : words ⟨passed ++ run, rest⟩ =
    lexemes (passed.byteSize + run.byteSize) rest := by
  rw [words, Cursor.offset, Text.byteSize_append]

/-- A token that is no backslash is a word. -/
theorem words_of_look? (found : cursor.look? = some token) (plain : token.kind ≠ .backslash) :
    words cursor =
      ⟨.ofKind token.kind, token.lexeme, token.span⟩ :: words (cursor.pass token) := by
  refine lexer.of_look? found ?_
  simpa [Cursor.kind_ne_blank_of_look? found] using plain

/-- A backslash is a word together with the rest of its block. -/
theorem words_of_backslash (found : cursor.look? = some token) (kind : token.kind = .backslash) :
    words cursor =
      ⟨.block, '\\' :: (Block.cut (cursor.pass token).rest).1,
        .ofText token.span.start ('\\' :: (Block.cut (cursor.pass token).rest).1)⟩ ::
        words ((cursor.pass token).through (Block.cut (cursor.pass token).rest)) := by
  obtain ⟨rest, behind, start, passed⟩ := pass_of_backslash found kind
  rw [words_cons behind, start, passed, Cursor.through, List.append_assoc, words_behind, lexemes]
  simp only [show Token.Kind.ofHead '\\' = .backslash from rfl]
  rfl

/-- The word that a token is, or that it starts. -/
def Word.ofToken : Token.Kind → Word
  | .backslash => .block
  | kind => .ofKind kind

/-- The next token is a word or starts one. -/
theorem exists_words (found : cursor.look? = some token) :
    ∃ lexeme rest, words cursor = lexeme :: rest ∧ lexeme.word = .ofToken token.kind := by
  by_cases kind : token.kind = .backslash
  · exact ⟨_, _, words_of_backslash found kind, by rw [kind]; rfl⟩
  · refine ⟨_, _, words_of_look? found kind, ?_⟩
    cases same : token.kind
    case backslash => exact absurd same kind
    all_goals rfl

end Words

/-! ## Operands that are settled early -/

/-- How tightly a word binds to what is in front of it, and nothing that ends an expression does. -/
def Word.reach : Word → Nat
  | .equals | .plus | .minus => 2
  | .times | .number | .name | .block | .openParen => 3
  | .slash => 5
  | .caret => 7
  | .closeParen | .stray => 0

section Fill

variable {stop : Nat} {stack : List Frame} {operand : Node}

/-- A frame takes in its operand in front of a word that does not bind more tightly. -/
theorem read_fill {frame : Frame} {words : List Lexeme} (closed : 1 ≤ Pending.rank frame)
    (reaches : ∀ lexeme ∈ words.head?, lexeme.word.reach ≤ Pending.rank frame) :
    read stop (frame :: stack) (some operand) words =
      read stop stack (some (Pending.fill frame operand)) words := by
  have waits (operator : Node → Frame) (least : Nat) (tight : least ≤ Pending.rank frame) :
      Pending.await operator least operand (frame :: stack) =
        Pending.await operator least (Pending.fill frame operand) stack :=
    Pending.await_tight tight operator operand stack
  have halt {late : Diagnostic} : stopAt operand (frame :: stack) late =
      stopAt (Pending.fill frame operand) stack late := by
    rw [stopAt, stopAt, Pending.settle_tight closed]
  have bounded : Pending.rank frame ≤ 6 := by cases frame <;> simp [Pending.rank]
  cases words with
  | nil => rw [read, read, Pending.settle_tight closed, halt]
  | cons lexeme rest =>
      have tight := reaches lexeme rfl
      rw [read, read]
      cases word : lexeme.word
      all_goals rw [word] at tight
      case equals | plus | minus => simp only [waits _ 2 tight]
      case slash => simp only [waits _ 5 tight]
      case times | number | name | block | openParen => simp only [awaitFactor, waits _ 3 tight]
      case closeParen => simp only [Pending.settle_tight closed, halt]
      case stray => simp only [halt]
      case caret => exact absurd (tight.trans bounded) (by decide)

/-- Operands settle in front of an open parenthesis. -/
theorem settle_group (span : Span) (stack : List Frame) (operand : Node) :
    Pending.settle 1 operand (.group span :: stack) = (operand, .group span :: stack) := by
  exact Pending.settle_loose Nat.zero_lt_one operand stack

end Fill

end MatrixFormula.Markup
