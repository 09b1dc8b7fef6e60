import MatrixFormula.Proofs.Cursor.Steps
import MatrixFormula.Proofs.Formula.Conclusion
import MatrixFormula.Proofs.Formula.Spelling

/-!
# The words behind a cursor

A cursor that moves through a formula has words behind it. Where the next token is a name or a
caret, its word may end inside the token or behind it, and the words go on from there.
-/

namespace MatrixFormula.Formula

variable {store : Store} {cursor : Cursor} {token : Token}

/-- The words of the text behind a cursor. -/
def words (store : Store) (cursor : Cursor) : List Lexeme :=
  lexemes store cursor.offset cursor.rest

theorem words_skipBlanks (cursor : Cursor) :
    words store cursor.skipBlanks = words store cursor :=
  (lexer store).skipBlanks cursor

theorem words_of_look?_eq_none (none : cursor.look? = none) : words store cursor = [] :=
  (lexer store).of_look?_eq_none none

theorem words_cons {char : Char} {rest : Text} (behind : cursor.skipBlanks.rest = char :: rest) :
    words store cursor = lexemes store cursor.skipBlanks.offset (char :: rest) := by
  rw [← words_skipBlanks, words, behind]

theorem words_behind (passed run rest : Text) : words store ⟨passed ++ run, rest⟩ =
    lexemes store (passed.byteSize + run.byteSize) rest := by
  rw [words, Cursor.offset, Text.byteSize_append]

/-- A token that is neither a name nor a caret is a word. -/
theorem words_of_look? (found : cursor.look? = some token)
    (whole : token.kind ≠ .name ∧ token.kind ≠ .caret) :
    words store cursor =
      ⟨.ofKind token.kind, token.lexeme, token.span⟩ :: words store (cursor.pass token) := by
  refine (lexer store).of_look? found ?_
  simpa [Cursor.kind_ne_blank_of_look? found] using whole

/-- A token that is a name starts with a word, and the other words are those behind this part. -/
theorem words_of_name (found : cursor.look? = some token) (kind : token.kind = .name) :
    words store cursor =
      ⟨.name, leadingName store token.lexeme,
        .ofText token.span.start (leadingName store token.lexeme)⟩ ::
        words store ((cursor.pass token).moveTo
          (token.span.start + (leadingName store token.lexeme).byteSize)) := by
  obtain ⟨char, rest, behind, shown, same, passed⟩ := Cursor.exists_of_look? found
  obtain ⟨name, others, nonempty, spelled, leads, -⟩ :=
    @exists_leadingName store token.lexeme (by simp [same])
  have moved := Cursor.moveTo_pass found spelled.symm
  have tail : rest.drop (name.length - 1) = others ++ (cursor.pass token).rest := by
    obtain ⟨first, run, rfl⟩ := List.exists_cons_of_ne_nil nonempty
    have parts : first :: run ++ (others ++ (cursor.pass token).rest) = char :: rest := by
      rw [← List.append_assoc, spelled, passed, same, List.cons_append,
        List.takeWhile_append_dropWhile]
    obtain ⟨-, rfl⟩ := List.cons.inj parts
    simp
  rw [leads, moved, words_cons behind, words_behind, lexemes, ← tail]
  subst same
  simp only [show Token.Kind.ofHead char = .name from kind, ← leads]
  rfl

/-- A caret is a word together with the exponent behind it. -/
theorem words_of_caret (found : cursor.look? = some token) (kind : token.kind = .caret) :
    words store cursor =
      ⟨.caret (exponent (cursor.pass token).offset (cursor.pass token).rest).1, token.lexeme,
        token.span⟩ ::
        lexemes store (exponent (cursor.pass token).offset (cursor.pass token).rest).1.stop
          (exponent (cursor.pass token).offset (cursor.pass token).rest).2 := by
  obtain ⟨char, rest, behind, shown, same, passed⟩ := Cursor.exists_of_look? found
  have head : Token.Kind.ofHead char = .caret := by rwa [same] at kind
  have alone : rest.takeWhile (Token.Kind.ofHead char).continuedBy = [] ∧
      rest.dropWhile (Token.Kind.ofHead char).continuedBy = rest := by
    rw [head]
    cases rest <;> simp [Token.Kind.continuedBy]
  rw [alone.1] at same
  rw [alone.2, same] at passed
  have place : (cursor.pass token).offset = cursor.skipBlanks.offset + char.utf8Size := by
    rw [same, passed, Cursor.offset, Text.byteSize_append]
    rfl
  rw [place, words_cons behind, lexemes, same, passed]
  simp only [head]

section Exponent

variable (found : cursor.look? = some token) (kind : token.kind = .caret)
include found kind

/-- Behind the mark of transposition the words go on. -/
theorem words_of_transpose {mark : Char} {after : Text}
    (behind : (cursor.pass token).skipBlanks.rest = mark :: after) (marks : isTransposeMark mark) :
    words store cursor =
      ⟨.caret (.transpose ((cursor.pass token).skipBlanks.advance 1).offset), token.lexeme,
        token.span⟩ :: words store ((cursor.pass token).skipBlanks.advance 1) := by
  have stop : ((cursor.pass token).skipBlanks.advance 1).offset =
      (cursor.pass token).skipBlanks.offset + mark.utf8Size := by
    rw [Cursor.advance, behind, Cursor.offset, Text.byteSize_append]
    rfl
  have rest : ((cursor.pass token).skipBlanks.advance 1).rest = after := by
    rw [Cursor.advance, behind]
    rfl
  rw [Cursor.offset_skipBlanks] at stop
  rw [Cursor.rest_skipBlanks] at behind
  rw [words_of_caret found kind, words, stop, rest, exponent]
  simp only [behind, marks, if_true, Exponent.stop]

/-- Nothing is read behind a caret without an exponent. -/
theorem words_of_missing (behind : (cursor.pass token).skipBlanks.rest = []) :
    words store cursor =
      [⟨.caret (.missing (cursor.pass token).skipBlanks.offset), token.lexeme, token.span⟩] := by
  rw [Cursor.rest_skipBlanks] at behind
  rw [words_of_caret found kind, exponent, Cursor.offset_skipBlanks]
  simp only [behind, lexemes]

/-- Nothing is read behind an exponent that is not supported. -/
theorem words_of_unsupported {other : Token} (next : (cursor.pass token).look? = some other)
    (unmarked : ∀ mark ∈ other.lexeme.head?, isTransposeMark mark = false) :
    words store cursor =
      [⟨.caret (.unsupported other.lexeme other.span), token.lexeme, token.span⟩] := by
  obtain ⟨mark, after, behind, -, rfl, -⟩ := Cursor.exists_of_look? next
  have plain := unmarked mark rfl
  rw [Cursor.rest_skipBlanks] at behind
  rw [words_of_caret found kind, exponent, Cursor.offset_skipBlanks]
  simp only [behind, plain, Bool.false_eq_true, if_false, lexemes]

end Exponent

end MatrixFormula.Formula
