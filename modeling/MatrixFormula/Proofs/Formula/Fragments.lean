import MatrixFormula.Proofs.Formula.Evaluation
import MatrixFormula.Proofs.Formula.Regions

/-!
# Fragments of formulas

The words of a formula up to some place are spelled by a part of it, which ends with the last of
them, and the other words are those of the rest. So the words of an expression in a formula are
spelled by a fragment of it that has the same value on its own, even where the fragment starts or
ends inside a run of letters.
-/

namespace MatrixFormula.Formula

variable {store : Store} {offset : Nat} {text : Text} {words others : List Lexeme}

/-- The words behind the first one are the words of a part of the text. -/
theorem exists_tail {first : Lexeme} (cut : lexemes store offset text = first :: others)
    (some : others ≠ []) :
    ∃ front rest, text = front ++ rest ∧
      lexemes store (offset + front.byteSize) rest = others := by
  fun_induction lexemes store offset text with
  | case1 => cases cut
  | case2 offset char rest kind run blank ih =>
      obtain ⟨parts, -⟩ := Text.eq_run_append kind.continuedBy char rest
      obtain ⟨front, behind, split, later⟩ := ih cut
      refine ⟨run ++ front, behind, ?_, ?_⟩
      · rw [parts, split, List.append_assoc]
      · rwa [Text.byteSize_append, ← Nat.add_assoc]
  | case3 offset char rest kind run named name =>
      have tail := (List.cons.inj cut).2
      obtain ⟨letters, behind, same, parts⟩ := exists_leading store named rest
      have same : name = char :: letters := same
      refine ⟨char :: letters, behind, by rw [parts]; rfl, ?_⟩
      simpa [same, parts] using tail
  | case4 offset char rest kind caret found =>
      have tail := (List.cons.inj cut).2
      have unread (none : found.2 = []) : False := by
        rw [none, lexemes] at tail
        exact some tail.symm
      rcases exponent_spec (offset + char.utf8Size) rest with
        ⟨blanks, letter, -, -, parts, mark⟩ | ⟨_, _, _, _, none, _⟩ | ⟨none, _⟩
      · have stops : found.1.stop = offset + Text.byteSize (char :: blanks ++ [letter]) := by
          rw [show found.1 = _ from mark]
          simp [Exponent.stop, Nat.add_assoc]
        refine ⟨char :: blanks ++ [letter], found.2, ?_, stops ▸ tail⟩
        rw [List.append_assoc, List.cons_append]
        exact congrArg (char :: ·) parts
      · exact (unread none).elim
      · exact (unread none).elim
  | case5 offset char rest kind run blank name caret =>
      obtain ⟨parts, -⟩ := Text.eq_run_append kind.continuedBy char rest
      exact ⟨run, _, parts, (List.cons.inj cut).2⟩

/-- The words of a text from one of them on are the words of a part of the text. -/
theorem exists_drop (cut : lexemes store offset text = words ++ others) (some : others ≠ []) :
    ∃ front rest, text = front ++ rest ∧
      lexemes store (offset + front.byteSize) rest = others := by
  induction words generalizing offset text with
  | nil => exact ⟨[], text, rfl, cut⟩
  | cons first words ih =>
      obtain ⟨front, behind, rfl, tail⟩ := exists_tail cut (List.append_ne_nil_of_right_ne_nil _ some)
      obtain ⟨between, rest, rfl, later⟩ := ih tail
      refine ⟨front ++ between, rest, (List.append_assoc ..).symm, ?_⟩
      rwa [Text.byteSize_append, ← Nat.add_assoc]

/-! ## Fragments are spelled -/

/-- The words are spelled by the start of the text, which ends with the last of them, and the
others are the words of the rest. -/
def Cut (store : Store) (offset : Nat) (text : Text) (words others : List Lexeme) : Prop :=
  ∃ front rest, text = front ++ rest ∧ Spelled store offset front words ∧
    endOf offset words = offset + front.byteSize ∧
    lexemes store (offset + front.byteSize) rest = others

theorem cut_nil (cut : lexemes store offset text = others) : Cut store offset text [] others :=
  ⟨[], text, rfl, .nil, rfl, cut⟩

/-- A word in front of words that are spelled. -/
theorem Cut.cons {run rest : Text} {lexeme : Lexeme}
    (cut : Cut store (offset + run.byteSize) rest words others)
    (stop : lexeme.stop = offset + run.byteSize)
    (spells : ∀ front behind, rest = front ++ behind →
      Spelled store (offset + run.byteSize) front words →
        Spelled store offset (run ++ front) (lexeme :: words)) :
    Cut store offset (run ++ rest) (lexeme :: words) others := by
  obtain ⟨front, behind, rfl, spelled, ends, later⟩ := cut
  have size : offset + (run ++ front).byteSize = offset + run.byteSize + front.byteSize := by
    rw [Text.byteSize_append, Nat.add_assoc]
  refine ⟨run ++ front, behind, (List.append_assoc ..).symm, spells front behind rfl spelled, ?_, ?_⟩
  · rw [size, ← ends, ← stop]
    rfl
  · rwa [size]

/-- What holds of the first character of a text holds of the first character of its start. -/
theorem forall_head?_front {holds : Char → Prop} {front behind : Text}
    (all : ∀ char ∈ (front ++ behind).head?, holds char) : ∀ char ∈ front.head?, holds char := by
  cases front with
  | nil => exact nofun
  | cons char front => exact all

/-- A run of letters starts with the variable or the two variables that it is read as. -/
theorem cut_name {run rest : Text} {first : Lexeme} (keyed : Keyed store)
    (identifier : Token.isIdentifier run)
    (ends : ∀ char ∈ rest.head?, Token.continuesName char = false)
    (cut : lexemes store offset (run ++ rest) = first :: words ++ others)
    (regular : ∀ lexeme ∈ first :: words, lexeme.word.isRegular)
    (next : ∀ offset words, lexemes store offset rest = words ++ others →
      (∀ lexeme ∈ words, lexeme.word.isRegular) → Cut store offset rest words others) :
    Cut store offset (run ++ rest) (first :: words) others := by
  have later := (List.forall_mem_cons.mp regular).2
  by_cases whole : store.contains run ∨ store.split? run = none
  · rw [lexemes_whole identifier ends whole] at cut
    obtain ⟨rfl, tail⟩ := List.cons.inj cut
    refine (next _ _ tail later).cons rfl fun front behind split spelled => ?_
    exact .name identifier (forall_head?_front (split ▸ ends)) whole spelled
  · obtain ⟨unknown, other⟩ := not_or.mp whole
    have unknown := Bool.eq_false_iff.mpr unknown
    obtain ⟨⟨left, right⟩, halves⟩ := Option.ne_none_iff_exists'.mp other
    obtain ⟨nonempty, rfl, known, second⟩ := contains_of_split? halves
    rw [lexemes_name identifier ends nonempty (leadingName_of_split unknown halves)] at cut
    obtain ⟨rfl, tail⟩ := List.cons.inj cut
    cases words with
    | nil =>
        -- The words end between the two halves, and the first half is a variable by itself.
        have alone := @Spelled.name store offset left [] [] (keyed.identifier known) nofun
          (.inl known) .nil
        rw [List.append_nil] at alone
        exact ⟨left, right ++ rest, List.append_assoc .., alone, rfl, tail⟩
    | cons half words =>
        rw [lexemes_whole (keyed.identifier second) ends (.inl second), Nat.add_assoc,
          ← Text.byteSize_append] at tail
        obtain ⟨rfl, behindBoth⟩ := List.cons.inj tail
        obtain ⟨front, behind, split, spelled, stops, unread⟩ :=
          next _ _ behindBoth (List.forall_mem_cons.mp later).2
        have size : offset + (left ++ right ++ front).byteSize =
            offset + (left ++ right).byteSize + front.byteSize := by
          rw [Text.byteSize_append, Nat.add_assoc]
        refine ⟨left ++ right ++ front, behind, ?_, ?_, ?_, ?_⟩
        · simp only [split, List.append_assoc]
        · exact .split identifier (forall_head?_front (split ▸ ends)) unknown halves spelled
        · rw [size, ← stops, Text.byteSize_append, ← Nat.add_assoc]
          rfl
        · rwa [size]

/-- A caret whose exponent has a meaning is spelled with the mark of transposition. -/
theorem cut_caret {rest : Text} {first : Lexeme}
    (cut : lexemes store offset ('^' :: rest) = first :: words ++ others)
    (regular : first.word.isRegular)
    (next : ∀ front behind, rest = front ++ behind →
      lexemes store (offset + Text.byteSize ('^' :: front)) behind = words ++ others →
        Cut store (offset + Text.byteSize ('^' :: front)) behind words others) :
    Cut store offset ('^' :: rest) (first :: words) others := by
  have kind : Token.Kind.ofHead '^' = .caret := rfl
  rw [lexemes] at cut
  simp only [kind] at cut
  obtain ⟨rfl, tail⟩ := List.cons.inj cut
  have spec := exponent_spec (offset + '^'.utf8Size) rest
  generalize exponent (offset + '^'.utf8Size) rest = found at spec tail regular
  obtain ⟨mark, after⟩ := found
  rcases spec with ⟨blanks, letter, blank, marks, rfl, rfl⟩ | ⟨_, _, _, _, _, rfl⟩ | ⟨_, rfl⟩
  · have stops : offset + '^'.utf8Size + blanks.byteSize + letter.utf8Size =
        offset + Text.byteSize ('^' :: (blanks ++ [letter])) := by
      simp [Nat.add_assoc]
    have parts : '^' :: (blanks ++ letter :: after) = '^' :: (blanks ++ [letter]) ++ after := by
      simp
    simp only [Exponent.stop, stops] at tail
    rw [parts]
    refine (next _ _ (by simp) tail).cons stops fun front behind _ spelled => ?_
    rw [← stops] at spelled
    simpa using Spelled.transpose blank marks rfl spelled
  · cases regular
  · cases regular

/-- The first words of a text are spelled by the start of it, if they have a meaning. -/
theorem cut_lexemes (keyed : Keyed store) (cut : lexemes store offset text = words ++ others)
    (regular : ∀ lexeme ∈ words, lexeme.word.isRegular) : Cut store offset text words others := by
  induction size : text.length using Nat.strongRecOn generalizing text offset words with
  | ind bound ih =>
      cases words with
      | nil => exact cut_nil cut
      | cons first words =>
          obtain ⟨here, later⟩ := List.forall_mem_cons.mp regular
          cases text with
          | nil =>
              rw [lexemes] at cut
              cases cut
          | cons char rest =>
              have classes := Token.Kind.class_of_ofHead char
              have next {run behind : Text} {words : List Lexeme} (offset : Nat)
                  (parts : char :: rest = run ++ behind) (nonempty : run ≠ [])
                  (cut : lexemes store offset behind = words ++ others)
                  (regular : ∀ lexeme ∈ words, lexeme.word.isRegular) :
                  Cut store offset behind words others := by
                have some := List.length_pos_iff.mpr nonempty
                refine ih behind.length ?_ cut regular rfl
                rw [← size, parts, List.length_append]
                omega
              cases kind : Token.Kind.ofHead char with
              | blank =>
                  have shown := classes.1 kind
                  rw [(lexer store).cons_blank shown] at cut
                  obtain ⟨front, behind, parts, spelled, ends, tail⟩ :=
                    @next [char] rest _ _ rfl (by simp) cut regular
                  refine ⟨char :: front, behind, by rw [parts]; rfl, .blank shown spelled, ?_, ?_⟩
                  · rwa [Text.byteSize_cons, ← Nat.add_assoc]
                  · rwa [Text.byteSize_cons, ← Nat.add_assoc]
              | number =>
                  obtain ⟨parts, ends⟩ := Text.eq_run_append Token.inNumber char rest
                  have digits := Token.inNumber_run (classes.2.2.1 kind) rest
                  have nonempty : char :: rest.takeWhile Token.inNumber ≠ [] := by simp
                  rw [parts, lexemes_number nonempty digits ends] at cut
                  obtain ⟨rfl, tail⟩ := List.cons.inj cut
                  rw [parts]
                  refine (next _ parts nonempty tail later).cons rfl ?_
                  intro front behind split spelled
                  exact .number nonempty digits (forall_head?_front (split ▸ ends)) spelled
              | name =>
                  obtain ⟨parts, ends⟩ := Text.eq_run_append Token.continuesName char rest
                  have identifier := Token.isIdentifier_run (classes.2.1 kind) rest
                  rw [parts] at cut ⊢
                  exact cut_name keyed identifier ends cut regular fun _ words cut regular =>
                    next _ parts (by simp) cut regular
              | caret =>
                  obtain rfl := classes.2.2.2 kind
                  exact cut_caret cut here fun front behind parts cut =>
                    @next ('^' :: front) _ _ _ (by rw [parts]; rfl) (by simp) cut later
              | _ =>
                  have single : isSingle (Token.Kind.ofHead char) := by rw [kind]; rfl
                  rw [lexemes_single rfl single] at cut
                  obtain ⟨rfl, tail⟩ := List.cons.inj cut
                  have writes := signWord?_of_ofHead single here
                  have stop := @Lexeme.stop_eq
                    ⟨.ofKind (Token.Kind.ofHead char), [char], .ofText offset [char]⟩
                    (by simp [kind, Word.ofKind])
                  exact (@next [char] rest _ _ rfl (by simp) tail later).cons stop
                    fun front behind split spelled => .sign writes spelled

/-! ## Fragments have values -/

/-- Behind the blanks that it starts with, a text is empty or starts with a character that is not
blank. -/
theorem exists_blanks (text : Text) :
    ∃ blanks rest, text = blanks ++ rest ∧ (∀ char ∈ blanks, Text.isBlank char) ∧
      ∀ char ∈ rest.head?, Text.isBlank char = false := by
  refine ⟨text.takeWhile Text.isBlank, text.dropWhile Text.isBlank,
    List.takeWhile_append_dropWhile.symm, fun _ => List.mem_takeWhile_imp, fun char first => ?_⟩
  have stops := List.head?_dropWhile_not Text.isBlank text
  rwa [Option.mem_def.mp first] at stops

/-- A text that does not start with a blank starts with its first word. -/
theorem start_eq_of_lexemes {first : Lexeme} (shown : ∀ char ∈ text.head?, Text.isBlank char = false)
    (cut : lexemes store offset text = first :: others) : first.span.start = offset := by
  cases text with
  | nil =>
      rw [lexemes] at cut
      cases cut
  | cons char rest =>
      rw [lexemes] at cut
      cases kind : Token.Kind.ofHead char with
      | blank =>
          have blank := (Token.Kind.class_of_ofHead char).1 kind
          rw [shown char rfl] at blank
          cases blank
      | _ =>
          rw [kind] at cut
          obtain ⟨rfl, -⟩ := List.cons.inj cut
          rfl

/-- The words of an expression in a text are those of a fragment, which takes the region of the
expression. -/
theorem Derives.exists_fragment {rank : Nat} {block : List Lexeme} {expr : Expr}
    (derives : Derives rank block expr) (keyed : Keyed store)
    (cut : lexemes store offset text = block ++ others) :
    ∃ blanks fragment rest, text = blanks ++ fragment ++ rest ∧
      (∀ char ∈ blanks, Text.isBlank char) ∧
      expr.span = .ofText (offset + blanks.byteSize) fragment ∧
      lexemes store (offset + blanks.byteSize) fragment = block ∧
      lexemes store (offset + (blanks ++ fragment).byteSize) rest = others := by
  obtain ⟨blanks, behind, rfl, blank, shown⟩ := exists_blanks text
  obtain ⟨first, later, rfl, span⟩ := derives.exists_span_eq
  rw [(lexer store).append_blanks blank] at cut
  have start := start_eq_of_lexemes shown cut
  obtain ⟨fragment, rest, rfl, spelled, stop, tail⟩ := cut_lexemes keyed cut derives.isRegular
  refine ⟨blanks, fragment, rest, (List.append_assoc ..).symm, blank, ?_, spelled.lexemes_eq keyed, ?_⟩
  · rw [span (offset + blanks.byteSize), start, stop]
    rfl
  · rwa [Text.byteSize_append, ← Nat.add_assoc]

/-- An operator in a text is a single character, with its word and its region. -/
theorem exists_sign {lexeme : Lexeme} {operator : Operator}
    (cut : lexemes store offset text = lexeme :: others)
    (sign : lexeme.word.operator? = some operator) :
    ∃ (blanks rest : Text) (char : Char), text = blanks ++ char :: rest ∧
      (∀ char ∈ blanks, Text.isBlank char) ∧ signWord? char = some lexeme.word ∧
      lexeme.span = .ofText (offset + blanks.byteSize) [char] ∧
      lexemes store (offset + Text.byteSize (blanks ++ [char])) rest = others := by
  obtain ⟨blanks, behind, rfl, blank, shown⟩ := exists_blanks text
  rw [(lexer store).append_blanks blank] at cut
  cases behind with
  | nil =>
      rw [lexemes] at cut
      cases cut
  | cons char rest =>
      have size : offset + Text.byteSize (blanks ++ [char]) =
          offset + blanks.byteSize + char.utf8Size := by
        simp [Nat.add_assoc]
      by_cases single : isSingle (Token.Kind.ofHead char)
      · rw [lexemes_single rfl single] at cut
        obtain ⟨rfl, tail⟩ := List.cons.inj cut
        have writes := signWord?_of_ofHead single (Word.isRegular_of_operator? sign)
        exact ⟨blanks, rest, char, rfl, blank, writes, rfl, size ▸ tail⟩
      · rw [lexemes] at cut
        cases kind : Token.Kind.ofHead char with
        | blank =>
            have blank := (Token.Kind.class_of_ofHead char).1 kind
            rw [shown char rfl] at blank
            cases blank
        | name | number | caret =>
            rw [kind] at cut
            obtain ⟨rfl, -⟩ := List.cons.inj cut
            cases sign
        | _ => exact absurd (by rw [kind]; rfl) single

/-- A fragment has the value of the expression that its words are derived to, wherever it stands. -/
theorem evaluate_fragment (ν : Type) [Numeral ν] {fragment : Text} {block : List Lexeme}
    {expr : Expr} {grid : Grid Text} (cut : lexemes store offset fragment = block)
    (derives : Derives 1 block expr) (value : expr.value ν store = .ok grid) :
    evaluate ν store fragment = .ok grid := by
  have heard : heard (lexemes store 0 fragment) = heard block := by
    rw [heard_lexemes, ← cut, heard_lexemes]
  have settled := evaluate_eq_settledValue ν store fragment
  have read := outcome_read 0 [] none block
  rw [derives.read_eq_ok, List.map_nil, Option.map_none] at read
  rw [heard, ← read, outcome, settledValue, verdict_placeless, Expr.verdict, value] at settled
  cases result : evaluate ν store fragment with
  | ok other =>
      rw [result] at settled
      cases settled
      rfl
  | error diagnostic =>
      rw [result] at settled
      cases settled

end MatrixFormula.Formula
