import MatrixFormula.Proofs.Decimal.Rational
import MatrixFormula.Proofs.Formula.Splitting
import MatrixFormula.Proofs.Markup.Spelling
import MatrixFormula.Proofs.Markup.Splitting

/-!
# Two variables in one name

A name of two letters that are variables is evaluated as the two variables in a row. It is
displayed as their product, but that product is a single operand: next to a fraction bar or in
front of an exponent it is grouped in another way than the two variables in a row are.
-/

namespace MatrixFormula.Markup

/-- Whether every variable is named by a single letter. -/
def SingleLetters (store : Store) : Prop :=
  ∀ name ∈ store.names, name.length = 1 ∧ name.all Char.isAlpha

instance (store : Store) : Decidable (SingleLetters store) :=
  inferInstanceAs (Decidable (∀ name ∈ store.names, name.length = 1 ∧ name.all Char.isAlpha))

/-- A name of two letters in a displayed formula, not behind a caret, that is evaluated as two
variables and has no other meaning. -/
structure SplitsAt (store : Store) (front : Text) (first second : Char) (rest : Text)
    (before after : List Lexeme) : Prop where
  words : lexemes 0 (front ++ first :: second :: rest) =
    before ++ ⟨.name, [first, second], .ofText front.byteSize [first, second]⟩ :: after
  exponent : before.getLast?.map Lexeme.word ≠ some .caret
  function : Name.isFunction [first, second] = false
  letter : Name.greek? [first, second] = none
  halves : store.split? [first, second] = some ([first], [second])

variable {store : Store} {palette : Palette} {char first second : Char}

/-! ## Names of one and of two letters -/

/-- No Greek letter is spelled with a single character. -/
theorem greek?_singleton (char : Char) : Name.greek? [char] = none := by
  have long : ∀ entry ∈ Name.greekLetters, entry.1.toList.length ≠ 1 := by decide +kernel
  rw [Name.greek?, Option.map_eq_none_iff, List.find?_eq_none]
  intro entry member same
  have spelled : entry.1.toList = [char] := by simpa using same
  exact long entry member (by rw [spelled]; rfl)

/-- No function has a name of one letter. -/
theorem isFunction_singleton (char : Char) : Name.isFunction [char] = false := by
  have long : ∀ name ∈ Name.functions, name.length ≠ 1 := by decide +kernel
  rw [Name.isFunction, Bool.eq_false_iff, ne_eq, List.contains_iff_mem]
  exact fun member => long _ member rfl

/-- A variable of one letter is displayed in its colour. -/
theorem writeName_singleton {style : NameStyle} {shown : Text}
    (known : style [char] [char] = some shown) : writeName style [char] = shown := by
  rw [writeName, isFunction_singleton, symbol?, greek?_singleton]
  simp [known]

/-- A name of two letters that has no other meaning is displayed as the product of the two. -/
theorem writeName_pair {style : NameStyle} {left right : Text} (start : first.isAlpha)
    (end_ : second.isAlpha) (function : Name.isFunction [first, second] = false)
    (letter : Name.greek? [first, second] = none) (unknown : style [first, second] = fun _ => none)
    (shown : style [first] [first] = some left) (last : style [second] [second] = some right) :
    writeName style [first, second] =
      writeName style [first] ++ Latex.productDot ++ writeName style [second] := by
  rw [writeName_singleton shown, writeName_singleton last, writeName, function, symbol?, letter]
  simp [unknown, start, end_, letters, shown, last, Text.joined, List.intercalate]

/-! ## Stores of single letters -/

/-- Each variable has a name of one letter. -/
theorem SingleLetters.exists_of_contains (singles : SingleLetters store) {name : Text}
    (known : store.contains name) : ∃ letter, name = [letter] ∧ letter.isAlpha := by
  obtain ⟨single, letters⟩ := singles name (Store.mem_names_iff.mpr known)
  obtain ⟨letter, rfl⟩ := List.length_eq_one_iff.mp single
  exact ⟨letter, rfl, by simpa using letters⟩

/-- Names of one letter are identifiers. -/
theorem SingleLetters.keyed (singles : SingleLetters store) : Formula.Keyed store := by
  intro name member
  obtain ⟨single, letters⟩ := singles name member
  obtain ⟨letter, rfl⟩ := List.length_eq_one_iff.mp single
  simpa [Token.isIdentifier, Token.startsName] using Or.inl (by simpa using letters)

/-- Every variable is displayed in a color. -/
theorem exists_colored {name : Text} (known : store.contains name) (display : Text) :
    ∃ shown, NameStyle.colored store palette name display = some shown := by
  obtain ⟨tensor, found⟩ := Option.isSome_iff_exists.mp known
  rw [NameStyle.colored, found]
  exact ⟨_, rfl⟩

/-- No variable has a name of two characters. -/
theorem contains_pair (singles : SingleLetters store) (first second : Char) :
    store.contains [first, second] = false := by
  refine Bool.eq_false_iff.mpr fun known => ?_
  obtain ⟨letter, same, -⟩ := singles.exists_of_contains known
  cases same

/-- A name of two variables is displayed as their product. -/
theorem writeName_colored (singles : SingleLetters store)
    (function : Name.isFunction [first, second] = false)
    (letter : Name.greek? [first, second] = none) (left : store.contains [first])
    (right : store.contains [second]) :
    writeName (.colored store palette) [first, second] =
      writeName (.colored store palette) [first] ++ Latex.productDot ++
        writeName (.colored store palette) [second] := by
  obtain ⟨_, shown⟩ := @exists_colored _ palette _ left [first]
  obtain ⟨_, last⟩ := @exists_colored _ palette _ right [second]
  obtain ⟨_, same, start⟩ := singles.exists_of_contains left
  obtain ⟨_, other, end_⟩ := singles.exists_of_contains right
  obtain rfl := (List.cons.inj same).1
  obtain rfl := (List.cons.inj other).1
  refine writeName_pair start end_ function letter (funext fun display => ?_) shown last
  have unknown : store.get? [first, second] = none := by
    simpa [Store.contains] using contains_pair singles first second
  rw [NameStyle.colored, unknown]
  rfl

/-! ## The place of the name -/

variable {front rest : Text} {before after : List Lexeme}

/-- Both letters of the name are variables. -/
theorem SplitsAt.contains (splits : SplitsAt store front first second rest before after) :
    store.contains [first] ∧ store.contains [second] :=
  (Formula.contains_of_split? splits.halves).2.2

/-- A name is split between two letters. -/
theorem SplitsAt.isAlpha (singles : SingleLetters store)
    (splits : SplitsAt store front first second rest before after) :
    first.isAlpha ∧ second.isAlpha := by
  obtain ⟨_, same, start⟩ := singles.exists_of_contains splits.contains.1
  obtain ⟨_, other, last⟩ := singles.exists_of_contains splits.contains.2
  obtain rfl := (List.cons.inj same).1
  obtain rfl := (List.cons.inj other).1
  exact ⟨start, last⟩

/-- No word in front of the name reaches into it. -/
theorem SplitsAt.reads (splits : SplitsAt store front first second rest before after) :
    Reads (first :: second :: rest) 0 front before :=
  reads_of_lexemes (List.cons_ne_nil _ _) splits.words (Nat.zero_add _).symm

/-- The name ends behind its second letter, and the words that follow are those behind it. -/
theorem SplitsAt.behind (start : first.isAlpha)
    (splits : SplitsAt store front first second rest before after) :
    (∀ char ∈ rest.head?, Token.continuesName char = false) ∧
      ∃ offset, after = lexemes offset rest := by
  have starts : Token.startsName first := by simp [Token.startsName, start]
  have words := splits.words
  rw [splits.reads.lexemes_eq start] at words
  have words := List.append_cancel_left words
  obtain ⟨parts, ends⟩ := Text.eq_run_append Token.continuesName first (second :: rest)
  have identifier := Token.isIdentifier_run starts (second :: rest)
  rw [parts, lexemes_name identifier ends] at words
  obtain ⟨name, later⟩ := List.cons.inj words
  have run : (second :: rest).takeWhile Token.continuesName = [second] :=
    (List.cons.inj (congrArg Lexeme.text name)).2
  have remains : (second :: rest).dropWhile Token.continuesName = rest := by
    have whole := @List.takeWhile_append_dropWhile _ Token.continuesName (second :: rest)
    rw [run] at whole
    exact (List.cons.inj whole).2
  rw [remains] at ends later
  exact ⟨ends, _, later.symm⟩

/-! ## How the name is displayed and evaluated -/

/-- The words of the formula with a space between the two letters. -/
theorem SplitsAt.content_spaced (singles : SingleLetters store)
    (splits : SplitsAt store front first second rest before after) :
    (lexemes 0 (front ++ first :: ' ' :: second :: rest)).map Lexeme.content =
      before.map Lexeme.content ++
        (.name, [first]) :: (.name, [second]) :: after.map Lexeme.content := by
  obtain ⟨start, last⟩ := splits.isAlpha singles
  obtain ⟨ends, offset, rfl⟩ := splits.behind start
  have single {char : Char} (letter : char.isAlpha) : Token.isIdentifier [char] := by
    simp [Token.isIdentifier, Token.startsName, letter]
  have space : ∀ char ∈ (' ' :: second :: rest).head?, Token.continuesName char = false := by
    intro char head
    obtain rfl := Option.some.inj head
    rfl
  have left (offset : Nat) := @lexemes_name offset _ _ (single start) space
  have right (offset : Nat) := @lexemes_name offset _ _ (single last) ends
  simp only [List.cons_append, List.nil_append] at left right
  rw [splits.reads.lexemes_eq start, left, lexer.cons_blank rfl, right, List.map_append,
    List.map_cons, List.map_cons, content_lexemes rest _ offset]
  rfl

/-- A name of two variables is displayed like the two with a space between them exactly when it
is not next to a fraction bar or in front of an exponent, and it is evaluated like them
everywhere. -/
theorem renderColored_split_iff (ν : Type) [Numeral ν] (store : Store)
    (singles : SingleLetters store) (front : Text) (first second : Char) (rest : Text)
    (before after : List Lexeme) (splits : SplitsAt store front first second rest before after) :
    (∀ palette, Agree
      (fun whole parts => parts = whole ↔
        ¬ Bound (before.map Lexeme.content) (after.map Lexeme.content))
      ((renderColored store palette (front ++ first :: second :: rest)).mapError Diagnostic.fault)
      ((renderColored store palette (front ++ first :: ' ' :: second :: rest)).mapError
        Diagnostic.fault)) ∧
    (Formula.evaluate ν store (front ++ first :: second :: rest)).mapError Diagnostic.fault =
      (Formula.evaluate ν store (front ++ first :: ' ' :: second :: rest)).mapError
        Diagnostic.fault := by
  obtain ⟨start, last⟩ := splits.isAlpha singles
  obtain ⟨ends, -⟩ := splits.behind start
  constructor
  · intro palette
    have caret : (before.map Lexeme.content).getLast?.map Prod.fst ≠ some .caret := by
      rw [List.getLast?_map, Option.map_map]
      exact splits.exponent
    have product := @writeName_colored store palette first second singles splits.function
      splits.letter splits.contains.1 splits.contains.2
    rw [renderColored, renderColored, render_eq_run, render_eq_run, splits.content_spaced singles,
      splits.words, List.map_append, List.map_cons]
    exact agree_run_split product caret
  · have separate (rest : Text) : Formula.Separate front (first :: rest) := by
      by_cases plain : '\\' ∈ front
      · exact .inl plain
      · refine .inr ⟨.inl (splits.reads.closed_name start plain), fun char head => ?_,
          splits.reads.closed_caret plain splits.exponent⟩
        obtain rfl := Option.some.inj head
        refine Bool.eq_false_iff.mpr fun digit => ?_
        have letter := Token.not_startsName_of_inNumber digit
        simp [Token.startsName, start] at letter
    have identifier : Token.isIdentifier ([first] ++ [second]) := by
      simp [Token.isIdentifier, Token.startsName, Token.continuesName, start, last]
    have same : Formula.hear store (first :: second :: rest) =
        Formula.hear store (first :: ' ' :: second :: rest) :=
      Formula.hear_split singles.keyed identifier ends (contains_pair singles first second)
        splits.halves
    rw [Formula.evaluate_eq_settledValue, Formula.evaluate_eq_settledValue,
      Formula.heard_lexemes, Formula.heard_lexemes, Formula.hear_append (separate _),
      Formula.hear_append (separate _), same]

/-- Two variables of one letter each. -/
def pair : Store :=
  (Store.empty.insert ['a'] (.filled (.scalar ['2']))).insert ['b'] (.filled (.scalar ['3']))

/-- Behind another factor, the name is displayed and evaluated like the two letters. -/
theorem renderColored_split_factor :
    SingleLetters pair ∧ SplitsAt pair ['2'] 'a' 'b' [] [⟨.number, ['2'], ⟨0, 1⟩⟩] [] ∧
      Agree (fun whole parts => parts = whole ↔ ¬ Bound [(.number, ['2'])] [])
        ((renderColored pair {} ['2', 'a', 'b']).mapError Diagnostic.fault)
        ((renderColored pair {} ['2', 'a', ' ', 'b']).mapError Diagnostic.fault) ∧
      (Formula.evaluate ℚ pair ['2', 'a', 'b']).mapError Diagnostic.fault =
        (Formula.evaluate ℚ pair ['2', 'a', ' ', 'b']).mapError Diagnostic.fault := by
  have singles : SingleLetters pair := by decide +kernel
  have splits : SplitsAt pair ['2'] 'a' 'b' [] [⟨.number, ['2'], ⟨0, 1⟩⟩] [] :=
    ⟨by decide +kernel, by decide, by decide +kernel, by decide +kernel, by decide +kernel⟩
  obtain ⟨displayed, evaluated⟩ :=
    renderColored_split_iff ℚ pair singles ['2'] 'a' 'b' [] _ [] splits
  exact ⟨singles, splits, displayed {}, evaluated⟩

/-- In a denominator the name is displayed as a whole, while only its first letter divides. -/
theorem renderColored_split_denominator :
    SingleLetters pair ∧
      SplitsAt pair ['2', '/'] 'a' 'b' []
        [⟨.number, ['2'], ⟨0, 1⟩⟩, ⟨.slash, ['/'], ⟨1, 2⟩⟩] [] ∧
      renderColored pair {} "2/ab" = .ok "\\frac\x7b2\x7d\x7ba \\cdot b\x7d".toList ∧
      renderColored pair {} "2/a b" = .ok "\\frac\x7b2\x7d\x7ba\x7d \\cdot b".toList ∧
      renderColored pair {} "2/ab" ≠ renderColored pair {} "2/a b" ∧
      Formula.evaluate ℚ pair "2/ab" = .ok (.scalar ['3']) ∧
      Formula.evaluate ℚ pair "2/a b" = .ok (.scalar ['3']) := by
  have splits : SplitsAt pair ['2', '/'] 'a' 'b' []
      [⟨.number, ['2'], ⟨0, 1⟩⟩, ⟨.slash, ['/'], ⟨1, 2⟩⟩] [] :=
    ⟨by decide +kernel, by decide, by decide +kernel, by decide +kernel, by decide +kernel⟩
  have whole : renderColored pair {} "2/ab" =
      .ok "\\frac\x7b2\x7d\x7ba \\cdot b\x7d".toList := by decide +kernel
  have parts : renderColored pair {} "2/a b" =
      .ok "\\frac\x7b2\x7d\x7ba\x7d \\cdot b".toList := by decide +kernel
  refine ⟨by decide +kernel, splits, whole, parts, ?_, by decide +kernel, by decide +kernel⟩
  rw [whole, parts]
  decide +kernel

end MatrixFormula.Markup
