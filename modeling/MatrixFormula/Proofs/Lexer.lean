import MatrixFormula.Proofs.Cursor.Tokens

/-!
# Lexers

Both kinds of formulas are read token by token. Their lexers pass over blanks, make one word of
most tokens, and have ways of their own with the others: names and carets in one, backslashes in
the other. Where no token of these kinds is met, the lexers read alike.
-/

namespace MatrixFormula.Token

/-- A lexer passes over blanks, and makes one word of every token of some kinds. -/
structure Lexer {α : Type} (lex : Nat → Text → List α) (takes : Kind → Bool)
    (word : Kind → Text → Span → α) : Prop where
  nil (offset : Nat) : lex offset [] = []
  blank (offset : Nat) (char : Char) (rest : Text) (kind : Kind.ofHead char = .blank) :
    lex offset (char :: rest) =
      lex (offset + Text.byteSize (char :: rest.takeWhile Text.isBlank))
        (rest.dropWhile Text.isBlank)
  token (offset : Nat) (char : Char) (rest : Text) (taken : takes (Kind.ofHead char)) :
    let run := char :: rest.takeWhile (Kind.ofHead char).continuedBy
    lex offset (char :: rest) =
      word (Kind.ofHead char) run (.ofText offset run) ::
        lex (offset + Text.byteSize run) (rest.dropWhile (Kind.ofHead char).continuedBy)

namespace Lexer

variable {α : Type} {lex : Nat → Text → List α} {takes : Kind → Bool}
  {word : Kind → Text → Span → α} (lexer : Lexer lex takes word)

include lexer

/-! ## The first word of a text -/

section Text

variable {offset : Nat} {char : Char} {run rest : Text}

/-- A blank in front of a text moves its words. -/
theorem cons_blank (blank : Text.isBlank char) :
    lex offset (char :: rest) = lex (offset + char.utf8Size) rest := by
  rw [lexer.blank offset char rest (Kind.ofHead_of_isBlank blank), Text.byteSize_cons]
  cases rest with
  | nil => rfl
  | cons next others =>
      by_cases again : Text.isBlank next
      · rw [lexer.blank _ next others (Kind.ofHead_of_isBlank again),
          List.takeWhile_cons_of_pos again, List.dropWhile_cons_of_pos again, Nat.add_assoc]
      · simp [again]

/-- Blanks in front of a text move its words. -/
theorem append_blanks {blanks : Text} (blank : ∀ char ∈ blanks, Text.isBlank char)
    (rest : Text) : lex offset (blanks ++ rest) = lex (offset + blanks.byteSize) rest := by
  induction blanks generalizing offset with
  | nil => rfl
  | cons char blanks ih =>
      obtain ⟨first, others⟩ := List.forall_mem_cons.mp blank
      rw [List.cons_append, lexer.cons_blank first, ih others, Text.byteSize_cons, Nat.add_assoc]

/-- A token is cut off where no character continues it. -/
theorem append_token (taken : takes (Kind.ofHead char))
    (inside : ∀ other ∈ run, (Kind.ofHead char).continuedBy other)
    (ends : ∀ other ∈ rest.head?, (Kind.ofHead char).continuedBy other = false) :
    lex offset (char :: run ++ rest) =
      word (Kind.ofHead char) (char :: run) (.ofText offset (char :: run)) ::
        lex (offset + Text.byteSize (char :: run)) rest := by
  have span := Text.span_run inside ends
  rw [List.cons_append, lexer.token offset char (run ++ rest) taken, span.1, span.2]

/-- A number is cut off where no digit or point continues it. -/
theorem append_number (taken : takes .number) (nonempty : run ≠ [])
    (digits : ∀ char ∈ run, inNumber char) (ends : ∀ char ∈ rest.head?, inNumber char = false) :
    lex offset (run ++ rest) =
      word .number run (.ofText offset run) :: lex (offset + run.byteSize) rest := by
  obtain ⟨char, others, rfl⟩ := List.exists_cons_of_ne_nil nonempty
  obtain ⟨digit, inside⟩ := List.forall_mem_cons.mp digits
  have kind := Kind.ofHead_of_inNumber digit
  rw [lexer.append_token (by rwa [kind]) (by rwa [kind]) (by rwa [kind]), kind]

/-- A token that nothing continues is a single character. -/
theorem cons_single (taken : takes (Kind.ofHead char))
    (alone : ∀ other, (Kind.ofHead char).continuedBy other = false) :
    lex offset (char :: rest) =
      word (Kind.ofHead char) [char] (.ofText offset [char]) ::
        lex (offset + char.utf8Size) rest := by
  have inside : ∀ other ∈ ([] : Text), (Kind.ofHead char).continuedBy other := nofun
  exact lexer.append_token taken inside fun other _ => alone other

end Text

/-! ## The words behind a cursor -/

variable {cursor : Cursor} {token : Token}

/-- Blanks behind a cursor are passed over. -/
theorem skipBlanks (cursor : Cursor) :
    lex cursor.skipBlanks.offset cursor.skipBlanks.rest = lex cursor.offset cursor.rest := by
  have blank : ∀ char ∈ cursor.rest.takeWhile Text.isBlank, Text.isBlank char :=
    fun char member => List.mem_takeWhile_imp member
  rw [Cursor.offset_skipBlanks, Cursor.rest_skipBlanks, ← lexer.append_blanks blank,
    List.takeWhile_append_dropWhile]

/-- Without a next token there are no words. -/
theorem of_look?_eq_none (none : cursor.look? = none) : lex cursor.offset cursor.rest = [] := by
  rw [← lexer.skipBlanks, (Cursor.visible_of_look?_eq_none none).1, lexer.nil]

/-- The next token is the first word, and the other words are those behind it. -/
theorem of_look? (found : cursor.look? = some token) (taken : takes token.kind) :
    lex cursor.offset cursor.rest =
      word token.kind token.lexeme token.span ::
        lex (cursor.pass token).offset (cursor.pass token).rest := by
  obtain ⟨char, rest, behind, -, rfl, passed⟩ := Cursor.exists_of_look? found
  rw [← lexer.skipBlanks, behind, lexer.token _ char rest taken, Cursor.offset_pass found, passed]
  rfl

end Lexer

end MatrixFormula.Token
