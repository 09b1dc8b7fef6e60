import Mathlib.Data.List.TakeWhile
import MatrixFormula.Proofs.Lexer
import MatrixFormula.Proofs.Markup.Front

/-!
# Spellings of displayed formulas

The words of a displayed formula can be spelled with any blanks between them, as long as a number
or a name ends where the next word starts. The lexer finds the words of every spelling, and a
text without a backslash is a spelling of its words when they all have a meaning.
-/

namespace MatrixFormula.Markup

/-- The word that a single character writes. -/
def signWord? : Char → Option Word
  | '+' => some .plus
  | '-' => some .minus
  | '*' => some .times
  | '/' => some .slash
  | '^' => some .caret
  | '=' => some .equals
  | '(' => some .openParen
  | ')' => some .closeParen
  | _ => none

/-- The text, which stands at an offset of the source, spells the words. -/
inductive Spelled : Nat → Text → List Lexeme → Prop where
  | nil {offset : Nat} : Spelled offset [] []
  | blank {offset : Nat} {char : Char} {rest : Text} {words : List Lexeme}
      (shown : Text.isBlank char) (spelled : Spelled (offset + char.utf8Size) rest words) :
      Spelled offset (char :: rest) words
  | number {offset : Nat} {run rest : Text} {words : List Lexeme} (nonempty : run ≠ [])
      (digits : ∀ char ∈ run, Token.inNumber char)
      (ends : ∀ char ∈ rest.head?, Token.inNumber char = false)
      (spelled : Spelled (offset + run.byteSize) rest words) :
      Spelled offset (run ++ rest) (⟨.number, run, Span.ofText offset run⟩ :: words)
  | name {offset : Nat} {run rest : Text} {words : List Lexeme}
      (identifier : Token.isIdentifier run)
      (ends : ∀ char ∈ rest.head?, Token.continuesName char = false)
      (spelled : Spelled (offset + run.byteSize) rest words) :
      Spelled offset (run ++ rest) (⟨.name, run, Span.ofText offset run⟩ :: words)
  | sign {offset : Nat} {char : Char} {rest : Text} {word : Word} {words : List Lexeme}
      (writes : signWord? char = some word)
      (spelled : Spelled (offset + char.utf8Size) rest words) :
      Spelled offset (char :: rest) (⟨word, [char], Span.ofText offset [char]⟩ :: words)

variable {offset : Nat} {char : Char} {run rest text : Text} {words : List Lexeme}

/-! ## The first word of a text -/

/-- The lexer makes one word of every token but backslashes. -/
theorem lexer : Token.Lexer lexemes (fun kind => kind != .blank && kind != .backslash)
    fun kind text span => ⟨.ofKind kind, text, span⟩ where
  nil offset := by rw [lexemes]
  blank offset char rest kind := by
    rw [lexemes]
    simp only [kind]
    rfl
  token offset char rest taken := by
    rw [lexemes]
    cases kind : Token.Kind.ofHead char
    case blank | backslash => simp [kind] at taken
    all_goals rfl

/-- A token that is no backslash is cut off where no character continues it. -/
theorem lexemes_token (plain : Token.Kind.ofHead char ≠ .backslash)
    (inside : ∀ other ∈ run, (Token.Kind.ofHead char).continuedBy other)
    (ends : ∀ other ∈ rest.head?, (Token.Kind.ofHead char).continuedBy other = false) :
    lexemes offset (char :: run ++ rest) =
      firstWord offset char run ++ lexemes (offset + Text.byteSize (char :: run)) rest := by
  have span := Text.span_run inside ends
  have cut : cutWord char (run ++ rest) = (run, rest) := by
    unfold cutWord
    split
    · exact absurd ‹_› plain
    · exact Prod.ext span.1 span.2
  rw [List.cons_append, lexemes_cons, cut]

/-- A number is a word where no digit or point continues it. -/
theorem lexemes_number (nonempty : run ≠ []) (digits : ∀ char ∈ run, Token.inNumber char)
    (ends : ∀ char ∈ rest.head?, Token.inNumber char = false) :
    lexemes offset (run ++ rest) =
      ⟨.number, run, Span.ofText offset run⟩ :: lexemes (offset + run.byteSize) rest :=
  lexer.append_number rfl nonempty digits ends

/-- A name is a word where no character continues it. -/
theorem lexemes_name (identifier : Token.isIdentifier run)
    (ends : ∀ char ∈ rest.head?, Token.continuesName char = false) :
    lexemes offset (run ++ rest) =
      ⟨.name, run, Span.ofText offset run⟩ :: lexemes (offset + run.byteSize) rest := by
  obtain ⟨char, others, rfl, starts, inside⟩ := Token.exists_of_isIdentifier identifier
  have kind := Token.Kind.ofHead_of_startsName starts
  rw [lexer.append_token (by rw [kind]; rfl) (by rwa [kind]) (by rwa [kind]), kind]
  rfl

/-- Whether every token of a kind is a single character with a word of its own. -/
def isSingle : Token.Kind → Bool
  | .blank | .name | .number | .backslash => false
  | _ => true

/-- A sign is a word of its own. -/
theorem lexemes_single (single : isSingle (Token.Kind.ofHead char)) :
    lexemes offset (char :: rest) =
      ⟨.ofKind (Token.Kind.ofHead char), [char], Span.ofText offset [char]⟩ ::
        lexemes (offset + char.utf8Size) rest := by
  refine lexer.cons_single ?_ ?_
  all_goals
    revert single
    cases Token.Kind.ofHead char <;> first | exact fun _ => rfl | exact fun _ _ => rfl | exact nofun

/-! ## Spellings are read -/

/-- The characters that write a word are tokens of their own. -/
theorem ofHead_of_signWord? {word : Word} (writes : signWord? char = some word) :
    isSingle (Token.Kind.ofHead char) ∧ Word.ofKind (Token.Kind.ofHead char) = word := by
  unfold signWord? at writes
  split at writes <;> cases writes <;> exact ⟨rfl, rfl⟩

/-- The lexer finds the words of a spelling. -/
theorem Spelled.lexemes_eq (spelled : Spelled offset text words) : lexemes offset text = words := by
  induction spelled with
  | nil => rw [lexemes]
  | blank shown _ ih => rw [lexer.cons_blank shown, ih]
  | number nonempty digits ends _ ih => rw [lexemes_number nonempty digits ends, ih]
  | name identifier ends _ ih => rw [lexemes_name identifier ends, ih]
  | sign writes _ ih =>
      obtain ⟨single, rfl⟩ := ofHead_of_signWord? writes
      rw [lexemes_single single, ih]

/-! ## Texts are spellings of their words -/

/-- A token of one character with a meaning writes its word. -/
theorem signWord?_of_ofHead (single : isSingle (Token.Kind.ofHead char))
    (meant : Word.ofKind (Token.Kind.ofHead char) ≠ .stray) :
    signWord? char = some (Word.ofKind (Token.Kind.ofHead char)) := by
  revert single meant
  unfold Token.Kind.ofHead
  split
  · exact fun single => absurd single (by decide)
  · split
    · exact fun single => absurd single (by decide)
    · split
      · exact fun single => absurd single (by decide)
      · split <;> intro single meant <;> first | rfl | exact absurd rfl meant

/-- A text without a backslash whose words all have a meaning is a spelling of them. -/
theorem spelled_lexemes (plain : '\\' ∉ text) (offset : Nat)
    (meant : ∀ lexeme ∈ lexemes offset text, lexeme.word ≠ .stray) :
    Spelled offset text (lexemes offset text) := by
  induction size : text.length using Nat.strongRecOn generalizing text offset with
  | ind size ih =>
      cases text with
      | nil =>
          rw [lexemes]
          exact .nil
      | cons char rest =>
          obtain ⟨head, tail⟩ := not_or.mp (mt List.mem_cons.mpr plain)
          have later (inside : Char → Bool) (offset : Nat)
              (meant : ∀ lexeme ∈ lexemes offset (rest.dropWhile inside), lexeme.word ≠ .stray) :
              Spelled offset (rest.dropWhile inside) (lexemes offset (rest.dropWhile inside)) := by
            have fewer := (List.dropWhile_sublist inside (l := rest)).length_le
            exact ih _ (size ▸ Nat.lt_succ_of_le fewer)
              (fun member => tail ((List.dropWhile_sublist inside).subset member)) offset meant rfl
          have next := @later fun _ => false
          rw [List.dropWhile_eq_self_iff.mpr (by simp)] at next
          have classes := Token.Kind.class_of_ofHead char
          cases kind : Token.Kind.ofHead char with
          | blank =>
              rw [lexer.cons_blank (classes.1 kind)] at meant ⊢
              exact .blank (classes.1 kind) (next _ meant)
          | name =>
              obtain ⟨parts, ends⟩ := Text.eq_run_append Token.continuesName char rest
              have identifier := Token.isIdentifier_run (classes.2.1 kind) rest
              rw [parts, lexemes_name identifier ends] at meant ⊢
              exact .name identifier ends (later _ _ (List.forall_mem_cons.mp meant).2)
          | number =>
              obtain ⟨parts, ends⟩ := Text.eq_run_append Token.inNumber char rest
              have digits := Token.inNumber_run (classes.2.2.1 kind) rest
              have nonempty : char :: rest.takeWhile Token.inNumber ≠ [] := by simp
              rw [parts, lexemes_number nonempty digits ends] at meant ⊢
              exact .number nonempty digits ends (later _ _ (List.forall_mem_cons.mp meant).2)
          | backslash => exact absurd (eq_of_ofHead_backslash kind).symm head
          | _ =>
              have single : isSingle (Token.Kind.ofHead char) := by rw [kind]; rfl
              rw [lexemes_single single] at meant ⊢
              obtain ⟨first, others⟩ := List.forall_mem_cons.mp meant
              exact .sign (signWord?_of_ofHead single first) (next _ others)

end MatrixFormula.Markup
