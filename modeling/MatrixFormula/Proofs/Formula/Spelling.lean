import Mathlib.Data.List.Find
import Mathlib.Data.List.TakeWhile
import MatrixFormula.Formula.Lexeme
import MatrixFormula.Proofs.Lexer
import MatrixFormula.Proofs.Store

/-!
# Spellings of words

A sequence of words can be spelled with any blanks between them, as long as a number or a name
ends where the next word starts. A name that is no variable but is made of two variables spells
these two. The lexer finds the words of every spelling, and a text whose words all have a
meaning is a spelling of them.
-/

namespace MatrixFormula.Formula

/-- The word that a single character writes. -/
def signWord? : Char → Option Word
  | '+' => some .plus
  | '-' => some .minus
  | '*' | '·' | '⋅' | '•' => some .times
  | '/' => some .slash
  | '(' => some .openParen
  | ')' => some .closeParen
  | _ => none

/-- The text, which stands at an offset of the source, spells the words. -/
inductive Spelled (store : Store) : Nat → Text → List Lexeme → Prop where
  | nil {offset : Nat} : Spelled store offset [] []
  | blank {offset : Nat} {char : Char} {rest : Text} {words : List Lexeme}
      (shown : Text.isBlank char) (spelled : Spelled store (offset + char.utf8Size) rest words) :
      Spelled store offset (char :: rest) words
  | number {offset : Nat} {run rest : Text} {words : List Lexeme} (nonempty : run ≠ [])
      (digits : ∀ char ∈ run, Token.inNumber char)
      (ends : ∀ char ∈ rest.head?, Token.inNumber char = false)
      (spelled : Spelled store (offset + run.byteSize) rest words) :
      Spelled store offset (run ++ rest) (⟨.number, run, Span.ofText offset run⟩ :: words)
  | name {offset : Nat} {run rest : Text} {words : List Lexeme} (identifier : Token.isIdentifier run)
      (ends : ∀ char ∈ rest.head?, Token.continuesName char = false)
      (whole : store.contains run ∨ store.split? run = none)
      (spelled : Spelled store (offset + run.byteSize) rest words) :
      Spelled store offset (run ++ rest) (⟨.name, run, Span.ofText offset run⟩ :: words)
  | split {offset : Nat} {left right rest : Text} {words : List Lexeme}
      (identifier : Token.isIdentifier (left ++ right))
      (ends : ∀ char ∈ rest.head?, Token.continuesName char = false)
      (unknown : store.contains (left ++ right) = false)
      (halves : store.split? (left ++ right) = some (left, right))
      (spelled : Spelled store (offset + (left ++ right).byteSize) rest words) :
      Spelled store offset (left ++ right ++ rest)
        (⟨.name, left, Span.ofText offset left⟩ ::
          ⟨.name, right, Span.ofText (offset + left.byteSize) right⟩ :: words)
  | sign {offset : Nat} {char : Char} {rest : Text} {word : Word} {words : List Lexeme}
      (writes : signWord? char = some word)
      (spelled : Spelled store (offset + char.utf8Size) rest words) :
      Spelled store offset (char :: rest) (⟨word, [char], Span.ofText offset [char]⟩ :: words)
  | transpose {offset stop : Nat} {blanks rest : Text} {mark : Char} {words : List Lexeme}
      (blank : ∀ char ∈ blanks, Text.isBlank char) (marks : isTransposeMark mark)
      (stops : stop = offset + '^'.utf8Size + blanks.byteSize + mark.utf8Size)
      (spelled : Spelled store stop rest words) :
      Spelled store offset ('^' :: blanks ++ mark :: rest)
        (⟨.caret (.transpose stop), ['^'], Span.ofText offset ['^']⟩ :: words)

variable {store : Store} {offset : Nat} {char : Char} {run rest : Text} {words : List Lexeme}

/-! ## The first word of a text -/

/-- The lexer makes one word of every token but names and carets. -/
theorem lexer (store : Store) : Token.Lexer (lexemes store)
    (fun kind => kind != .blank && kind != .name && kind != .caret)
    fun kind text span => ⟨.ofKind kind, text, span⟩ where
  nil offset := by rw [lexemes]
  blank offset char rest kind := by
    rw [lexemes]
    simp only [kind]
    rfl
  token offset char rest taken := by
    rw [lexemes]
    cases kind : Token.Kind.ofHead char
    case blank | name | caret => simp [kind] at taken
    all_goals rfl

/-- A number is a word where no digit or point continues it. -/
theorem lexemes_number (nonempty : run ≠ []) (digits : ∀ char ∈ run, Token.inNumber char)
    (ends : ∀ char ∈ rest.head?, Token.inNumber char = false) :
    lexemes store offset (run ++ rest) =
      ⟨.number, run, Span.ofText offset run⟩ :: lexemes store (offset + run.byteSize) rest :=
  (lexer store).append_number rfl nonempty digits ends

/-- Whether every token of a kind is a single character with a meaning of its own. -/
def isSingle : Token.Kind → Bool
  | .blank | .name | .number | .caret => false
  | _ => true

/-- A sign is a word of its own. -/
theorem lexemes_single {kind : Token.Kind} (head : Token.Kind.ofHead char = kind)
    (single : isSingle kind) :
    lexemes store offset (char :: rest) =
      ⟨.ofKind kind, [char], Span.ofText offset [char]⟩ ::
        lexemes store (offset + char.utf8Size) rest := by
  subst head
  refine (lexer store).cons_single ?_ ?_
  all_goals
    revert single
    cases Token.Kind.ofHead char <;> first | exact fun _ => rfl | exact fun _ _ => rfl | exact nofun

/-- The characters that write a word are tokens of their own. -/
theorem ofHead_of_signWord? {word : Word} (writes : signWord? char = some word) :
    isSingle (Token.Kind.ofHead char) ∧ Word.ofKind (Token.Kind.ofHead char) = word := by
  unfold signWord? at writes
  split at writes <;> cases writes <;> exact ⟨rfl, rfl⟩

/-- A caret and the mark of transposition are one word. -/
theorem lexemes_transpose {blanks : Text} {mark : Char} {stop : Nat}
    (blank : ∀ char ∈ blanks, Text.isBlank char) (marks : isTransposeMark mark)
    (stops : stop = offset + '^'.utf8Size + blanks.byteSize + mark.utf8Size) :
    lexemes store offset ('^' :: blanks ++ mark :: rest) =
      ⟨.caret (.transpose stop), ['^'], Span.ofText offset ['^']⟩ :: lexemes store stop rest := by
  subst stops
  have shown : Text.isBlank mark = false := by
    simp only [isTransposeMark, Bool.or_eq_true, beq_iff_eq] at marks
    rcases marks with rfl | rfl <;> rfl
  have span : (blanks ++ mark :: rest).takeWhile Text.isBlank = blanks ∧
      (blanks ++ mark :: rest).dropWhile Text.isBlank = mark :: rest :=
    Text.span_run blank (by simpa using shown)
  have found : exponent (offset + '^'.utf8Size) (blanks ++ mark :: rest) =
      (.transpose (offset + '^'.utf8Size + blanks.byteSize + mark.utf8Size), rest) := by
    simp [exponent, span, marks]
  have kind : Token.Kind.ofHead '^' = .caret := rfl
  rw [List.cons_append, lexemes]
  simp only [kind, found, Exponent.stop]

/-- The halves of a split are known names. -/
theorem contains_of_split? {left right : Text} (halves : store.split? run = some (left, right)) :
    left ≠ [] ∧ left ++ right = run ∧ store.contains left ∧ store.contains right := by
  have known := List.find?_some halves
  simp only [Bool.and_eq_true] at known
  obtain ⟨nonempty, -, spelled⟩ := Text.mem_properSplits_iff.mp (List.mem_of_find?_eq_some halves)
  exact ⟨nonempty, spelled, known⟩

/-- A known name is read as a whole, and so is one that is made of no two known names. -/
theorem leadingName_of_whole (whole : store.contains run ∨ store.split? run = none) :
    leadingName store run = run := by
  unfold leadingName
  split
  · rfl
  · next unknown =>
      rw [whole.resolve_left unknown]

/-- An unknown name that is made of two known ones starts with the first of them. -/
theorem leadingName_of_split {left right : Text} (unknown : store.contains run = false)
    (halves : store.split? run = some (left, right)) : leadingName store run = left := by
  simp [leadingName, unknown, halves]

/-- What is read after an exponent is the end of the text. -/
theorem suffix_exponent (offset : Nat) (text : Text) : (exponent offset text).2 <:+ text := by
  unfold exponent
  split
  · exact List.nil_suffix
  · next mark after spread =>
      have behind : mark :: after <:+ text := spread ▸ List.dropWhile_suffix _
      split
      · exact (List.suffix_cons mark after).trans behind
      · exact List.nil_suffix

/-- A run of letters starts with a name, and what is behind it is nothing or a variable. -/
theorem exists_leadingName (store : Store) {run : Text} (nonempty : run ≠ []) :
    ∃ name behind, name ≠ [] ∧ name ++ behind = run ∧ leadingName store run = name ∧
      (behind ≠ [] → store.contains behind) := by
  by_cases whole : store.contains run ∨ store.split? run = none
  · exact ⟨run, [], nonempty, List.append_nil run, leadingName_of_whole whole, (absurd rfl ·)⟩
  · obtain ⟨unknown, halved⟩ := not_or.mp whole
    obtain ⟨⟨left, right⟩, halves⟩ := Option.ne_none_iff_exists'.mp halved
    obtain ⟨some, spelled, -, known⟩ := contains_of_split? halves
    exact ⟨left, right, some, spelled,
      leadingName_of_split (Bool.eq_false_iff.mpr unknown) halves, fun _ => known⟩

/-- The first word of a run of letters is the name that it starts with. -/
theorem lexemes_name {name behind : Text} (identifier : Token.isIdentifier (name ++ behind))
    (ends : ∀ char ∈ rest.head?, Token.continuesName char = false) (nonempty : name ≠ [])
    (leads : leadingName store (name ++ behind) = name) :
    lexemes store offset (name ++ behind ++ rest) =
      ⟨.name, name, Span.ofText offset name⟩ ::
        lexemes store (offset + name.byteSize) (behind ++ rest) := by
  obtain ⟨char, others, rfl⟩ := List.exists_cons_of_ne_nil nonempty
  have all := Token.continuesName_of_isIdentifier identifier
  simp only [List.cons_append, Token.isIdentifier, Bool.and_eq_true] at identifier
  have kind := Token.Kind.ofHead_of_startsName identifier.1
  have span : (others ++ behind ++ rest).takeWhile Token.continuesName = others ++ behind ∧
      (others ++ behind ++ rest).dropWhile Token.continuesName = rest :=
    Text.span_run (List.forall_mem_cons.mp all).2 ends
  have continued : Token.Kind.name.continuedBy = Token.continuesName := rfl
  have read : char :: (others ++ (behind ++ rest)).takeWhile Token.continuesName =
      char :: others ++ behind := by
    rw [← List.append_assoc, span.1, List.cons_append]
  rw [List.append_assoc, List.cons_append, lexemes]
  simp only [kind, continued, read, leads]
  simp

/-- A name is a word where it is read as a whole and no character continues it. -/
theorem lexemes_whole (identifier : Token.isIdentifier run)
    (ends : ∀ char ∈ rest.head?, Token.continuesName char = false)
    (whole : store.contains run ∨ store.split? run = none) :
    lexemes store offset (run ++ rest) =
      ⟨.name, run, Span.ofText offset run⟩ :: lexemes store (offset + run.byteSize) rest := by
  have nonempty : run ≠ [] := by
    rintro rfl
    cases identifier
  rw [← List.append_nil run] at identifier whole
  simpa using lexemes_name identifier ends nonempty (by simpa using leadingName_of_whole whole)

/-- What a run of letters starts with depends on which parts of the run are known. -/
theorem leadingName_congr {first second : Store} {run : Text}
    (known : ∀ name, name <:+: run → first.contains name = second.contains name) :
    leadingName first run = leadingName second run := by
  have halves : first.split? run = second.split? run := by
    refine List.find?_congr fun ⟨left, right⟩ member => ?_
    obtain ⟨-, -, rfl⟩ := Text.mem_properSplits_iff.mp member
    simp only [known left (List.prefix_append left right).isInfix,
      known right (List.suffix_append left right).isInfix]
  rw [leadingName, leadingName, known run List.infix_rfl, halves]

/-- The words of a text depend on a store only through what the runs of letters in the text start
with. -/
theorem lexemes_congr {first second : Store} {text : Text}
    (leads : ∀ run, run <:+: text → leadingName first run = leadingName second run)
    (offset : Nat) : lexemes first offset text = lexemes second offset text := by
  induction size : text.length using Nat.strongRecOn generalizing text offset with
  | ind bound ih =>
      cases text with
      | nil => rw [lexemes, lexemes]
      | cons char rest =>
          have later {behind : Text} (suffix : behind <:+ rest) (offset : Nat) :
              lexemes first offset behind = lexemes second offset behind := by
            refine ih _ (size ▸ Nat.lt_succ_of_le suffix.length_le) (fun run inside => ?_) offset rfl
            exact leads run (inside.trans (suffix.trans (List.suffix_cons char rest)).isInfix)
          have here : leadingName first (char :: rest.takeWhile (Token.Kind.ofHead char).continuedBy) =
              leadingName second (char :: rest.takeWhile (Token.Kind.ofHead char).continuedBy) :=
            leads _ (List.prefix_cons_inj char |>.mpr (List.takeWhile_prefix _)).isInfix
          rw [lexemes, lexemes]
          simp only [here]
          split
          · exact later (List.dropWhile_suffix _) _
          · exact congrArg _ (later (List.drop_suffix _ _) _)
          · exact congrArg _ (later (suffix_exponent _ _) _)
          · exact congrArg _ (later (List.dropWhile_suffix _) _)

/-! ## Spellings are read -/

/-- All names of a store are identifiers. -/
def Keyed (store : Store) : Prop := ∀ name ∈ store.names, Token.isIdentifier name

instance (store : Store) : Decidable (Keyed store) :=
  inferInstanceAs (Decidable (∀ name ∈ store.names, Token.isIdentifier name))

/-- The names of variables are identifiers. -/
theorem Keyed.identifier {name : Text} (keyed : Keyed store) (known : store.contains name) :
    Token.isIdentifier name :=
  keyed name (Store.mem_names_iff.mpr known)

/-- The lexer finds the words of a spelling. -/
theorem Spelled.lexemes_eq (keyed : Keyed store) {text : Text}
    (spelled : Spelled store offset text words) : lexemes store offset text = words := by
  induction spelled with
  | nil => rw [lexemes]
  | blank shown _ ih => rw [(lexer store).cons_blank shown, ih]
  | number nonempty digits ends _ ih => rw [lexemes_number nonempty digits ends, ih]
  | name identifier ends whole _ ih => rw [lexemes_whole identifier ends whole, ih]
  | split identifier ends unknown halves _ ih =>
      obtain ⟨nonempty, -, -, known⟩ := contains_of_split? halves
      rw [lexemes_name identifier ends nonempty (leadingName_of_split unknown halves),
        lexemes_whole (keyed.identifier known) ends (.inl known), Nat.add_assoc,
        ← Text.byteSize_append, ih]
  | sign writes _ ih =>
      obtain ⟨single, rfl⟩ := ofHead_of_signWord? writes
      rw [lexemes_single rfl single, ih]
  | transpose blank marks stops _ ih =>
      rw [lexemes_transpose blank marks stops, ih]

/-! ## Texts are spellings of their words -/

/-- Whether a word has a meaning in an evaluated formula. -/
def Word.isRegular : Word → Bool
  | .stray | .caret (.unsupported _ _) | .caret (.missing _) => false
  | _ => true

/-- A token of one character with a meaning writes its word. -/
theorem signWord?_of_ofHead (single : isSingle (Token.Kind.ofHead char))
    (regular : (Word.ofKind (Token.Kind.ofHead char)).isRegular) :
    signWord? char = some (Word.ofKind (Token.Kind.ofHead char)) := by
  revert single regular
  unfold Token.Kind.ofHead
  split
  · exact fun single => absurd single (by decide)
  · split
    · exact fun single => absurd single (by decide)
    · split
      · exact fun single => absurd single (by decide)
      · split <;> intro single regular <;> first | rfl | cases regular

/-- A run of letters spells the variable or the two variables that it is read as. -/
theorem spelled_name (keyed : Keyed store) (identifier : Token.isIdentifier run)
    (ends : ∀ char ∈ rest.head?, Token.continuesName char = false)
    (regular : ∀ lexeme ∈ lexemes store offset (run ++ rest), lexeme.word.isRegular)
    (spelled : ∀ offset, (∀ lexeme ∈ lexemes store offset rest, lexeme.word.isRegular) →
      Spelled store offset rest (lexemes store offset rest)) :
    Spelled store offset (run ++ rest) (lexemes store offset (run ++ rest)) := by
  by_cases whole : store.contains run ∨ store.split? run = none
  · rw [lexemes_whole identifier ends whole] at regular ⊢
    exact .name identifier ends whole (spelled _ (List.forall_mem_cons.mp regular).2)
  · simp only [not_or, Bool.not_eq_true] at whole
    obtain ⟨unknown, other⟩ := whole
    obtain ⟨⟨left, right⟩, halves⟩ := Option.ne_none_iff_exists'.mp other
    obtain ⟨nonempty, rfl, -, known⟩ := contains_of_split? halves
    rw [lexemes_name identifier ends nonempty (leadingName_of_split unknown halves),
      lexemes_whole (keyed.identifier known) ends (.inl known), Nat.add_assoc,
      ← Text.byteSize_append] at regular ⊢
    have others := (List.forall_mem_cons.mp (List.forall_mem_cons.mp regular).2).2
    exact .split identifier ends unknown halves (spelled _ others)

/-- A caret whose exponent has a meaning is followed by the mark of transposition. -/
theorem spelled_caret
    (regular : ∀ lexeme ∈ lexemes store offset ('^' :: rest), lexeme.word.isRegular)
    (spelled : ∀ offset after, after.length ≤ rest.length →
      (∀ lexeme ∈ lexemes store offset after, lexeme.word.isRegular) →
        Spelled store offset after (lexemes store offset after)) :
    Spelled store offset ('^' :: rest) (lexemes store offset ('^' :: rest)) := by
  have parts : rest = rest.takeWhile Text.isBlank ++ rest.dropWhile Text.isBlank :=
    List.takeWhile_append_dropWhile.symm
  have blank : ∀ char ∈ rest.takeWhile Text.isBlank, Text.isBlank char :=
    fun char member => List.mem_takeWhile_imp member
  have kind : Token.Kind.ofHead '^' = .caret := rfl
  cases behind : rest.dropWhile Text.isBlank with
  | nil =>
      rw [lexemes] at regular
      have first := (List.forall_mem_cons.mp regular).1
      simp [exponent, behind, Word.isRegular] at first
  | cons mark after =>
      rw [behind] at parts
      by_cases marks : isTransposeMark mark
      · rw [parts, ← List.cons_append] at regular ⊢
        rw [lexemes_transpose blank marks rfl] at regular ⊢
        have shorter : after.length ≤ rest.length := by
          rw [parts, List.length_append, List.length_cons]
          omega
        exact .transpose blank marks rfl (spelled _ _ shorter (List.forall_mem_cons.mp regular).2)
      · rw [lexemes] at regular
        have first := (List.forall_mem_cons.mp regular).1
        simp [exponent, behind, marks, Word.isRegular] at first

/-- A text spells its words when its shorter rests do. -/
theorem spelled_cons (keyed : Keyed store)
    (regular : ∀ lexeme ∈ lexemes store offset (char :: rest), lexeme.word.isRegular)
    (spelled : ∀ offset after, after.length ≤ rest.length →
      (∀ lexeme ∈ lexemes store offset after, lexeme.word.isRegular) →
        Spelled store offset after (lexemes store offset after)) :
    Spelled store offset (char :: rest) (lexemes store offset (char :: rest)) := by
  have classes := Token.Kind.class_of_ofHead char
  have shorter (inside : Char → Bool) : (rest.dropWhile inside).length ≤ rest.length :=
    (List.dropWhile_sublist inside).length_le
  cases kind : Token.Kind.ofHead char with
  | blank =>
      rw [(lexer store).cons_blank (classes.1 kind)] at regular ⊢
      exact .blank (classes.1 kind) (spelled _ _ (Nat.le_refl _) regular)
  | name =>
      obtain ⟨parts, ends⟩ := Text.eq_run_append Token.continuesName char rest
      have identifier := Token.isIdentifier_run (classes.2.1 kind) rest
      rw [parts] at regular ⊢
      exact spelled_name keyed identifier ends regular fun offset => spelled offset _ (shorter _)
  | number =>
      obtain ⟨parts, ends⟩ := Text.eq_run_append Token.inNumber char rest
      have digits := Token.inNumber_run (classes.2.2.1 kind) rest
      have nonempty : char :: rest.takeWhile Token.inNumber ≠ [] := by simp
      rw [parts] at regular ⊢
      rw [lexemes_number nonempty digits ends] at regular ⊢
      exact .number nonempty digits ends
        (spelled _ _ (shorter _) (List.forall_mem_cons.mp regular).2)
  | caret =>
      obtain rfl := classes.2.2.2 kind
      exact spelled_caret regular spelled
  | _ =>
      have single : isSingle (Token.Kind.ofHead char) := by rw [kind]; rfl
      rw [lexemes_single rfl single] at regular ⊢
      obtain ⟨first, others⟩ := List.forall_mem_cons.mp regular
      exact .sign (signWord?_of_ofHead single first) (spelled _ _ (Nat.le_refl _) others)

/-- A text whose words all have a meaning is a spelling of them. -/
theorem spelled_lexemes (keyed : Keyed store) (text : Text) (offset : Nat)
    (regular : ∀ lexeme ∈ lexemes store offset text, lexeme.word.isRegular) :
    Spelled store offset text (lexemes store offset text) := by
  induction size : text.length using Nat.strongRecOn generalizing text offset with
  | ind size ih =>
      cases text with
      | nil =>
          rw [lexemes]
          exact .nil
      | cons char rest =>
          refine spelled_cons keyed regular fun offset after shorter regular => ?_
          exact ih after.length (size ▸ Nat.lt_succ_of_le shorter) after offset regular rfl

end MatrixFormula.Formula
