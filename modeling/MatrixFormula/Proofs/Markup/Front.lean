import MatrixFormula.Proofs.Markup.Locality
import MatrixFormula.Proofs.Markup.Outline
import MatrixFormula.Proofs.Text.Character

/-!
# Words in front of a letter

The words in front of a letter that starts a word stay the same, whatever stands behind that
letter. No name reaches up to such a letter, and behind an exponent mark it is the exponent.
-/

namespace MatrixFormula.Markup

variable {char : Char} {rest other : Text}

/-- Cuts a text behind the token or the block of which the first character was passed. -/
def cutWord (first : Char) (text : Text) : Text × Text :=
  match Token.Kind.ofHead first with
  | .backslash => Block.cut text
  | kind => cutRun kind.continuedBy text

/-- A word and what stands behind it spell the text. -/
theorem cutWord_append (first : Char) (text : Text) :
    (cutWord first text).1 ++ (cutWord first text).2 = text := by
  unfold cutWord
  split
  · exact Block.cut_append text
  · exact List.takeWhile_append_dropWhile

/-- Where a word ends does not depend on what stands behind a letter that it does not reach. -/
theorem stable_cutWord (letter : char.isAlpha) (first : Char) :
    Stable (cutWord first) (char :: rest) (char :: other) := by
  intro text before after cut
  unfold cutWord at cut ⊢
  split at cut
  · exact stable_block letter text before after cut
  · exact stable_cutRun _ text before after cut

/-- The word that starts with a character, if any. Blanks are none. -/
def word? (first : Char) : Option Word :=
  match Token.Kind.ofHead first with
  | .blank => none
  | .backslash => some .block
  | kind => some (.ofKind kind)

/-- The word at an offset of the source that starts with a character, if any. -/
def firstWord (offset : Nat) (first : Char) (run : Text) : List Lexeme :=
  (word? first).toList.map fun word => ⟨word, first :: run, .ofText offset (first :: run)⟩

/-- The words of a text are its first word, if that is not blank, and the words behind. -/
theorem lexemes_cons (offset : Nat) (first : Char) (text : Text) :
    lexemes offset (first :: text) =
      firstWord offset first (cutWord first text).1 ++
        lexemes (offset + Text.byteSize (first :: (cutWord first text).1))
          (cutWord first text).2 := by
  rw [lexemes, firstWord, word?, cutWord]
  cases Token.Kind.ofHead first <;> rfl

/-- What holds of the empty text, and of a text when it does behind its first word, holds of
every text. -/
theorem word_induction {motive : Text → Prop} (nil : motive [])
    (cons : ∀ first text, motive (cutWord first text).2 → motive (first :: text)) (text : Text) :
    motive text := by
  induction size : text.length using Nat.strongRecOn generalizing text with
  | ind size ih =>
      cases text with
      | nil => exact nil
      | cons first text =>
          have sizes := congrArg List.length (cutWord_append first text)
          rw [List.length_append] at sizes
          refine cons first text (ih _ ?_ _ rfl)
          rw [← size, List.length_cons]
          omega

/-- The words of a text do not depend on where it stands. -/
theorem content_lexemes (text : Text) (offset place : Nat) :
    (lexemes offset text).map Lexeme.content = (lexemes place text).map Lexeme.content := by
  induction text using word_induction generalizing offset place with
  | nil => rw [lexemes, lexemes]
  | cons first text ih =>
      rw [lexemes_cons, lexemes_cons, List.map_append, List.map_append,
        ih _ (place + Text.byteSize (first :: (cutWord first text).1)), firstWord, firstWord,
        List.map_map, List.map_map]
      rfl

/-- No word starts in front of the text. -/
theorem le_start_of_mem {text : Text} {offset : Nat} {lexeme : Lexeme}
    (member : lexeme ∈ lexemes offset text) : offset ≤ lexeme.span.start := by
  induction text using word_induction generalizing offset with
  | nil => simp [lexemes] at member
  | cons first text ih =>
      rw [lexemes_cons, firstWord, List.mem_append, List.mem_map] at member
      rcases member with ⟨word, -, rfl⟩ | later
      · exact Nat.le_refl _
      · exact Nat.le_trans (Nat.le_add_right ..) (ih later)

/-- Only the first word of a text can start at its first character. -/
theorem lt_start_of_mem {first : Char} {text : Text} {offset : Nat} {lexeme : Lexeme}
    (member : lexeme ∈ (lexemes offset (first :: text)).tail) : offset < lexeme.span.start := by
  have later : lexeme ∈ lexemes (offset + Text.byteSize (first :: (cutWord first text).1))
      (cutWord first text).2 := by
    rw [lexemes_cons, firstWord] at member
    cases known : word? first with
    | none =>
        rw [known] at member
        exact List.mem_of_mem_tail member
    | some word =>
        rw [known] at member
        exact member
  have behind := le_start_of_mem later
  have positive := first.utf8Size_pos
  rw [Text.byteSize_cons] at behind
  omega

/-- A word that starts behind the first character is one of those behind the first word. -/
theorem exists_of_lt_start {first : Char} {text : Text} {offset : Nat} {lexeme : Lexeme}
    {before after : List Lexeme} (later : offset < lexeme.span.start)
    (words : lexemes offset (first :: text) = before ++ lexeme :: after) :
    ∃ between, before = firstWord offset first (cutWord first text).1 ++ between ∧
      lexemes (offset + Text.byteSize (first :: (cutWord first text).1)) (cutWord first text).2 =
        between ++ lexeme :: after := by
  rw [lexemes_cons] at words
  rcases List.append_eq_append_iff.mp words with found | ⟨extra, front, back⟩
  · exact found
  · cases extra with
    | nil => exact ⟨[], by simpa using front.symm, by simpa using back.symm⟩
    | cons word extra =>
        obtain rfl := (List.cons.inj back).1
        have member : lexeme ∈ before ++ lexeme :: extra := by simp
        rw [← front, firstWord, List.mem_map] at member
        obtain ⟨word, -, rfl⟩ := member
        exact absurd later (Nat.lt_irrefl _)

/-- A text that ends in front of another one, in bytes, is the start of it. -/
theorem exists_between {first rest text other : Text} (same : first ++ rest = text ++ other)
    (within : first.byteSize ≤ text.byteSize) :
    ∃ between, text = first ++ between ∧ rest = between ++ other := by
  rcases List.append_eq_append_iff.mp same with found | ⟨extra, rfl, rfl⟩
  · exact found
  · rw [Text.byteSize_append] at within
    obtain rfl : extra = [] := Text.byteSize_eq_zero_iff.mp (by omega)
    exact ⟨[], by simp, by simp⟩

/-- The words of a text in front of a rest, when none of them reaches into the rest. -/
inductive Reads (rest : Text) : Nat → Text → List Lexeme → Prop where
  | nil (offset : Nat) : Reads rest offset [] []
  | word {offset : Nat} {first : Char} {run between : Text} {words : List Lexeme}
      (cut : cutWord first (run ++ between ++ rest) = (run, between ++ rest))
      (behind : Reads rest (offset + Text.byteSize (first :: run)) between words) :
      Reads rest offset (first :: run ++ between) (firstWord offset first run ++ words)

/-- A word that starts behind a text separates the words of the text from the others. -/
theorem reads_of_lexemes {text : Text} {offset : Nat} {before after : List Lexeme}
    {lexeme : Lexeme} (nonempty : rest ≠ [])
    (words : lexemes offset (text ++ rest) = before ++ lexeme :: after)
    (place : lexeme.span.start = offset + text.byteSize) : Reads rest offset text before := by
  generalize whole : text ++ rest = source at words
  induction source using word_induction generalizing text offset before with
  | nil => exact absurd (List.append_eq_nil_iff.mp whole).2 nonempty
  | cons first source ih =>
      cases text with
      | nil =>
          obtain rfl : before = [] := by
            cases before with
            | nil => rfl
            | cons word before =>
                have later : lexeme ∈ (lexemes offset (first :: source)).tail := by simp [words]
                exact absurd place (Nat.ne_of_gt (lt_start_of_mem later))
          exact .nil offset
      | cons first text =>
          obtain ⟨rfl, rfl⟩ := List.cons.inj whole
          have positive := first.utf8Size_pos
          have later : offset < lexeme.span.start := by
            rw [place, Text.byteSize_cons]
            omega
          obtain ⟨others, rfl, behind⟩ := exists_of_lt_start later words
          have reached : lexeme ∈ others ++ lexeme :: after := by simp
          have start := le_start_of_mem (behind ▸ reached)
          have within : (cutWord first (text ++ rest)).1.byteSize ≤ Text.byteSize text := by
            rw [place, Text.byteSize_cons, Text.byteSize_cons] at start
            exact Nat.le_of_add_le_add_left (Nat.le_of_add_le_add_left start)
          obtain ⟨between, passed, remains⟩ := exists_between (cutWord_append first _) within
          have size : offset + Text.byteSize (first :: text) =
              offset + Text.byteSize (first :: (cutWord first (text ++ rest)).1) +
                Text.byteSize between := by
            rw [Text.byteSize_cons, Text.byteSize_cons, congrArg Text.byteSize passed,
              Text.byteSize_append]
            omega
          have next := ih (place.trans size) remains.symm behind
          have cut : cutWord first ((cutWord first (text ++ rest)).1 ++ between ++ rest) =
              ((cutWord first (text ++ rest)).1, between ++ rest) := by
            rw [← passed]
            exact Prod.ext rfl remains
          have joined := Reads.word cut next
          rwa [List.cons_append, ← passed] at joined

/-- The words in front of a letter are the same whatever stands behind the letter. -/
theorem Reads.lexemes_eq {text : Text} {offset : Nat} {words : List Lexeme}
    (reads : Reads (char :: rest) offset text words) (letter : char.isAlpha) (other : Text) :
    lexemes offset (text ++ char :: other) =
      words ++ lexemes (offset + text.byteSize) (char :: other) := by
  induction reads with
  | nil => rfl
  | @word offset first run between words cut _ ih =>
      have same := @stable_cutWord char rest other letter first _ _ _ cut
      have size : offset + Text.byteSize (first :: run ++ between) =
          offset + Text.byteSize (first :: run) + Text.byteSize between := by
        rw [Text.byteSize_append, Nat.add_assoc]
      rw [size, List.cons_append, List.cons_append, lexemes_cons, same, ih, List.append_assoc]

/-- Only a backslash is a token of its kind. -/
theorem eq_of_ofHead_backslash {char : Char} (kind : Token.Kind.ofHead char = .backslash) :
    char = '\\' := by
  unfold Token.Kind.ofHead at kind
  repeat' split at kind
  all_goals first | rfl | cases kind

/-- A token ends where it is not continued. -/
theorem continuedBy_of_cutWord {first : Char} {text run remaining : Text} (plain : first ≠ '\\')
    (cut : cutWord first text = (run, remaining)) :
    (∀ char ∈ run, (Token.Kind.ofHead first).continuedBy char) ∧
      ∀ char ∈ remaining.head?, (Token.Kind.ofHead first).continuedBy char = false := by
  unfold cutWord at cut
  split at cut
  · exact absurd (eq_of_ofHead_backslash ‹_›) plain
  · cases cut
    refine ⟨List.all_eq_true.mp List.all_takeWhile, fun char head => ?_⟩
    have stops := List.head?_dropWhile_not (Token.Kind.ofHead first).continuedBy text
    rwa [Option.mem_def.mp head] at stops

/-- No name reaches from in front of a letter that starts a word up to it. -/
theorem Reads.closed_name {text : Text} {offset : Nat} {words : List Lexeme}
    (reads : Reads (char :: rest) offset text words) (letter : char.isAlpha)
    (plain : '\\' ∉ text) : Text.Closed Token.startsName Token.continuesName text := by
  induction reads with
  | nil => exact fun before first behind spelled => absurd spelled (by simp)
  | @word offset first run between words cut _ ih =>
      obtain ⟨head, tail⟩ := not_or.mp (mt List.mem_append.mpr plain)
      obtain ⟨inside, ends⟩ := continuedBy_of_cutWord (by rintro rfl; simp at head) cut
      refine (ih tail).append fun start member starts => ?_
      rw [Token.Kind.ofHead_of_mem_startsName inside member starts] at ends
      cases between with
      | nil =>
          have stops := ends char rfl
          simp [Token.Kind.continuedBy, Token.continuesName, Token.startsName, letter] at stops
      | cons next between => exact ⟨next, by simp, ends next rfl⟩

/-- Blanks are no words. -/
theorem Reads.eq_nil_of_blank {text : Text} {offset : Nat} {words : List Lexeme}
    (reads : Reads rest offset text words) (blank : ∀ char ∈ text, Text.isBlank char) :
    words = [] := by
  induction reads with
  | nil => rfl
  | @word offset first run between words cut _ ih =>
      have kind := Token.Kind.ofHead_of_isBlank (blank first (by simp))
      rw [ih fun char member => blank char (List.mem_append_right _ member)]
      simp [firstWord, word?, kind]

/-- Only an exponent mark that is the last word in front of a letter has nothing but blanks
behind it. -/
theorem Reads.closed_caret {text : Text} {offset : Nat} {words : List Lexeme}
    (reads : Reads rest offset text words) (plain : '\\' ∉ text)
    (last : words.getLast?.map Lexeme.word ≠ some .caret) :
    Text.Closed (· == '^') Text.isBlank text := by
  induction reads with
  | nil => exact fun before first behind spelled => absurd spelled (by simp)
  | @word offset first run between words cut reads ih =>
      obtain ⟨head, tail⟩ := not_or.mp (mt List.mem_append.mpr plain)
      obtain ⟨inside, -⟩ := continuedBy_of_cutWord (by rintro rfl; simp at head) cut
      have closed : Text.Closed (· == '^') Text.isBlank between := by
        refine ih tail fun caret => last ?_
        obtain ⟨lexeme, found, mark⟩ := Option.map_eq_some_iff.mp caret
        rw [List.getLast?_append, found]
        exact congrArg some mark
      refine closed.append fun mark member caret => ?_
      obtain rfl : mark = '^' := eq_of_beq caret
      obtain rfl := Token.eq_of_mem_caret inside member
      refine Decidable.byContradiction fun blank => last ?_
      rw [reads.eq_nil_of_blank fun char member => ?_]
      · rfl
      · simpa using fun shown => blank ⟨char, member, shown⟩

end MatrixFormula.Markup
