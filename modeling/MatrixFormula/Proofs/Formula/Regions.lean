import MatrixFormula.Proofs.Formula.Blame
import MatrixFormula.Proofs.Formula.Splitting
import MatrixFormula.Proofs.Text.Region

/-!
# Where the faults of formulas point

The words of a formula stand in it one behind the other, each with its text at its region. An
expression takes the region from its first word to its last one, so every fault of a formula points
at what it is about.
-/

namespace MatrixFormula.Formula

/-- The offset behind a word and the exponent that belongs to it. -/
def Lexeme.stop (lexeme : Lexeme) : Nat :=
  match lexeme.word with
  | .caret exponent => exponent.stop
  | _ => lexeme.span.stop

/-- The word stands in the source, where its region and its exponent say. -/
structure Lexeme.Placed (lexeme : Lexeme) (source : Text) : Prop where
  quotes : lexeme.span.Quotes source lexeme.text
  nonempty : lexeme.text ≠ []
  ordered : lexeme.span.stop ≤ lexeme.stop
  stops : source.IsBoundary lexeme.stop
  opens : lexeme.word = .openParen → lexeme.text = ['(']
  unsupported : ∀ found span, lexeme.word = .caret (.unsupported found span) →
    span.Quotes source found
  missing : ∀ place, lexeme.word = .caret (.missing place) → place = source.byteSize

/-- The words stand in the source, from an offset on, one behind the other. -/
inductive Laid (source : Text) : Nat → List Lexeme → Prop where
  | nil (offset : Nat) : Laid source offset []
  | cons {offset : Nat} {lexeme : Lexeme} {rest : List Lexeme} (placed : lexeme.Placed source)
      (behind : offset ≤ lexeme.span.start) (later : Laid source lexeme.stop rest) :
      Laid source offset (lexeme :: rest)

/-- The offset behind words that start at an offset or behind it. -/
def endOf (offset : Nat) (words : List Lexeme) : Nat :=
  words.foldl (fun _ lexeme => lexeme.stop) offset

variable {source : Text} {offset : Nat} {words : List Lexeme} {store : Store}

/-- Words that lie behind an offset lie behind every earlier one. -/
theorem Laid.mono {later : Nat} (laid : Laid source later words) (behind : offset ≤ later) :
    Laid source offset words := by
  cases laid with
  | nil => exact .nil offset
  | cons placed starts rest => exact .cons placed (Nat.le_trans behind starts) rest

/-- A word ends no earlier than it starts. -/
theorem Lexeme.Placed.start_le {lexeme : Lexeme} (placed : lexeme.Placed source) :
    lexeme.span.start ≤ lexeme.stop :=
  Nat.le_trans placed.quotes.within.ordered placed.ordered

/-- Words end no earlier than they may start. -/
theorem Laid.le_endOf (laid : Laid source offset words) : offset ≤ endOf offset words := by
  induction laid with
  | nil => exact Nat.le_refl _
  | cons placed starts rest ih => exact Nat.le_trans (Nat.le_trans starts placed.start_le) ih

/-- Some words lie in order, and those behind them lie behind their end. -/
theorem Laid.append {before behind : List Lexeme} (laid : Laid source offset (before ++ behind)) :
    Laid source offset before ∧ Laid source (endOf offset before) behind := by
  induction before generalizing offset with
  | nil => exact ⟨.nil offset, laid⟩
  | cons lexeme before ih =>
      cases laid with
      | cons placed starts later =>
          obtain ⟨front, back⟩ := ih later
          exact ⟨.cons placed starts front, back⟩

/-- Each of the words stands in the source. -/
theorem Laid.placed (laid : Laid source offset words) {lexeme : Lexeme} (member : lexeme ∈ words) :
    lexeme.Placed source := by
  obtain ⟨before, behind, rfl⟩ := List.append_of_mem member
  cases laid.append.2 with
  | cons placed => exact placed

/-! ## The words of a formula stand in it -/

/-- Behind a caret stand blanks and the mark of transposition, or something else, or nothing but
blanks. What follows is read only behind the mark. -/
theorem exponent_spec (offset : Nat) (text : Text) :
    (∃ blanks mark, (∀ char ∈ blanks, Text.isBlank char) ∧ isTransposeMark mark ∧
        text = blanks ++ mark :: (exponent offset text).2 ∧
        (exponent offset text).1 = .transpose (offset + blanks.byteSize + mark.utf8Size)) ∨
      (∃ front found behind, text = front ++ found ++ behind ∧ (exponent offset text).2 = [] ∧
        (exponent offset text).1 = .unsupported found (.ofText (offset + front.byteSize) found)) ∨
      (exponent offset text).2 = [] ∧
        (exponent offset text).1 = .missing (offset + text.byteSize) := by
  have parts : text = text.takeWhile Text.isBlank ++ text.dropWhile Text.isBlank :=
    List.takeWhile_append_dropWhile.symm
  have blank : ∀ char ∈ text.takeWhile Text.isBlank, Text.isBlank char :=
    fun char member => List.mem_takeWhile_imp member
  unfold exponent
  cases spread : text.dropWhile Text.isBlank with
  | nil =>
      rw [spread, List.append_nil] at parts
      exact .inr (.inr ⟨rfl, by rw [← parts]⟩)
  | cons mark after =>
      rw [spread] at parts
      by_cases marks : isTransposeMark mark
      · simp only [if_pos marks]
        exact .inl ⟨text.takeWhile Text.isBlank, mark, blank, marks, parts, rfl⟩
      · simp only [if_neg marks]
        refine .inr (.inl ⟨text.takeWhile Text.isBlank, _,
          after.dropWhile (Token.Kind.ofHead mark).continuedBy, ?_, trivial, rfl⟩)
        simpa using parts

/-- A word without an exponent ends where its text does. -/
theorem Lexeme.stop_eq {lexeme : Lexeme} (plain : ∀ exponent, lexeme.word ≠ .caret exponent) :
    lexeme.stop = lexeme.span.stop := by
  unfold Lexeme.stop
  split
  · next exponent caret => exact absurd caret (plain exponent)
  · rfl

/-- A word without an exponent stands where its text does. -/
theorem Lexeme.placed_of_quotes {lexeme : Lexeme} (quotes : lexeme.span.Quotes source lexeme.text)
    (nonempty : lexeme.text ≠ []) (plain : ∀ exponent, lexeme.word ≠ .caret exponent)
    (opens : lexeme.word = .openParen → lexeme.text = ['(']) : lexeme.Placed source := by
  have stop := stop_eq plain
  exact ⟨quotes, nonempty, Nat.le_of_eq stop.symm, stop ▸ quotes.within.stops, opens,
    fun _ _ mark => absurd mark (plain _), fun _ mark => absurd mark (plain _)⟩

/-- No token but a caret is read together with an exponent. -/
theorem Word.ofKind_ne_caret (kind : Token.Kind) (exponent : Exponent) :
    ofKind kind ≠ .caret exponent := by
  cases kind <;> simp [Word.ofKind]

/-- An opening parenthesis is a word of its own. -/
theorem run_of_ofKind_openParen {char : Char} (rest : Text)
    (kind : Word.ofKind (Token.Kind.ofHead char) = .openParen) :
    char :: rest.takeWhile (Token.Kind.ofHead char).continuedBy = ['('] := by
  have parenthesis : char = '(' := by
    unfold Token.Kind.ofHead at kind
    repeat' split at kind
    all_goals first | rfl | cases kind
  subst parenthesis
  cases rest <;> rfl

/-- A caret stands in the source with its exponent, and nothing is read behind an exponent that is
not supported. -/
theorem laid_caret {passed rest : Text} {found : Exponent × Text}
    (exponent : exponent (passed.byteSize + '^'.utf8Size) rest = found)
    (later : ∀ front, Text.byteSize front = found.1.stop →
      Laid (front ++ found.2) found.1.stop (lexemes store found.1.stop found.2)) :
    Laid (passed ++ '^' :: rest) passed.byteSize
      (⟨.caret found.1, ['^'], .ofText passed.byteSize ['^']⟩ ::
        lexemes store found.1.stop found.2) := by
  have spec := exponent_spec (passed.byteSize + '^'.utf8Size) rest
  rw [exponent] at spec
  clear exponent
  obtain ⟨mark, after⟩ := found
  have quotes : (Span.ofText passed.byteSize ['^']).Quotes (passed ++ '^' :: rest) ['^'] :=
    ⟨passed, rest, by simp, rfl⟩
  have size (front : Text) : (passed ++ '^' :: front).byteSize =
      passed.byteSize + '^'.utf8Size + front.byteSize := by
    rw [Text.byteSize_append, Text.byteSize_cons, Nat.add_assoc]
  -- The mark is a letter behind blanks, or something else, or nothing at all.
  rcases spec with
    ⟨blanks, letter, -, -, rfl, rfl⟩ | ⟨front, wrong, behind, rfl, rfl, rfl⟩ | ⟨rfl, rfl⟩
  · have stops : (passed ++ '^' :: (blanks ++ [letter])).byteSize =
        passed.byteSize + '^'.utf8Size + blanks.byteSize + letter.utf8Size := by
      simp [size, Nat.add_assoc]
    have parts : passed ++ '^' :: (blanks ++ letter :: after) =
        passed ++ '^' :: (blanks ++ [letter]) ++ after := by
      simp
    rw [parts] at quotes ⊢
    refine .cons ⟨quotes, by simp, ?_, ⟨_, after, rfl, stops.symm⟩, by simp, by simp, by simp⟩
      (Nat.le_refl _) (later _ stops)
    simp only [Lexeme.stop, Exponent.stop, Span.ofText, Text.byteSize_cons, Text.byteSize_nil]
    omega
  · have whole : (Span.ofText (passed.byteSize + '^'.utf8Size + front.byteSize) wrong).Quotes
        (passed ++ '^' :: (front ++ wrong ++ behind)) wrong :=
      ⟨passed ++ '^' :: front, behind, by simp, by rw [size]⟩
    rw [lexemes]
    refine .cons ⟨quotes, by simp, ?_, whole.within.stops, by simp, ?_, by simp⟩ (Nat.le_refl _)
      (.nil _)
    · exact Nat.le_trans (Nat.le_add_right _ front.byteSize) whole.within.ordered
    · rintro _ _ ⟨⟩
      exact whole
  · rw [lexemes]
    refine .cons ⟨quotes, by simp, Nat.le_add_right .., ?_, by simp, by simp, ?_⟩ (Nat.le_refl _)
      (.nil _)
    · exact ⟨passed ++ '^' :: rest, [], by simp, (size rest).symm⟩
    · rintro _ ⟨⟩
      exact (size rest).symm

/-- A word without an exponent stands in the source in front of other words. -/
theorem Laid.word {passed front behind : Text} {word : Word} {words : List Lexeme}
    (later : Laid (passed ++ (front ++ behind)) (passed.byteSize + front.byteSize) words)
    (nonempty : front ≠ []) (plain : ∀ exponent, word ≠ .caret exponent)
    (opens : word = .openParen → front = ['(']) :
    Laid (passed ++ (front ++ behind)) passed.byteSize
      (⟨word, front, .ofText passed.byteSize front⟩ :: words) := by
  have quotes : (Span.ofText passed.byteSize front).Quotes (passed ++ (front ++ behind)) front :=
    ⟨passed, behind, (List.append_assoc ..).symm, rfl⟩
  refine .cons (Lexeme.placed_of_quotes quotes nonempty plain opens) (Nat.le_refl _) ?_
  rwa [Lexeme.stop_eq plain]

/-- The name that a run of letters is read as starts the text. -/
theorem exists_leading (store : Store) {char : Char} (named : Token.Kind.ofHead char = .name)
    (rest : Text) :
    ∃ letters behind,
      leadingName store (char :: rest.takeWhile (Token.Kind.ofHead char).continuedBy) =
        char :: letters ∧ rest = letters ++ behind := by
  obtain ⟨letters, behind, leads, parts, -⟩ := exists_leadingName_parts store char rest
  rw [named]
  exact ⟨letters, behind, leads, parts⟩

/-- The words of a text stand in every source that the text is the end of. -/
theorem laid_lexemes (store : Store) (passed text : Text) :
    Laid (passed ++ text) passed.byteSize (lexemes store passed.byteSize text) := by
  generalize place : passed.byteSize = offset
  fun_induction lexemes store offset text generalizing passed with
  | case1 => exact .nil _
  | case2 offset char rest kind run blank ih =>
      obtain ⟨parts, -⟩ := Text.eq_run_append kind.continuedBy char rest
      have later := ih (passed ++ run) (by rw [Text.byteSize_append, place])
      rw [List.append_assoc, ← parts] at later
      exact later.mono (Nat.le_add_right ..)
  | case3 offset char rest kind run named name ih =>
      obtain ⟨letters, behind, same, parts⟩ := exists_leading store named rest
      have same : name = char :: letters := same
      have later := ih (passed ++ name) (by rw [Text.byteSize_append, place])
      subst place
      have rest : rest.drop (name.length - 1) = behind := by simp [same, parts]
      rw [rest, same, List.append_assoc] at later
      rw [rest, same, parts]
      exact Laid.word later (by simp) (by simp) (by simp)
  | case4 offset char rest kind caret found ih =>
      obtain rfl := (Token.Kind.class_of_ofHead char).2.2.2 caret
      subst place
      exact laid_caret rfl ih
  | case5 offset char rest kind run blank name caret ih =>
      obtain ⟨parts, -⟩ := Text.eq_run_append kind.continuedBy char rest
      have later := ih (passed ++ run) (by rw [Text.byteSize_append, place])
      subst place
      rw [List.append_assoc] at later
      rw [parts]
      exact Laid.word later (by simp) (Word.ofKind_ne_caret kind)
        (run_of_ofKind_openParen rest)

/-! ## The regions of expressions -/

/-- The region of an expression goes from the start of its first word to the end of its last one. -/
theorem Derives.exists_span_eq {rank : Nat} {expr : Expr} (derives : Derives rank words expr) :
    ∃ first others, words = first :: others ∧
      ∀ offset, expr.span = ⟨first.span.start, endOf offset words⟩ := by
  induction derives with
  | @number lexeme word | @name lexeme word =>
      have stop : lexeme.stop = lexeme.span.stop := Lexeme.stop_eq (by simp [word])
      exact ⟨lexeme, [], rfl, fun offset => by simp [Expr.span, endOf, stop]⟩
  | @group opening closing words inner _ _ closes =>
      have stop : closing.stop = closing.span.stop := Lexeme.stop_eq (by simp [closes])
      exact ⟨opening, words ++ [closing], rfl, fun offset => by
        simp [Expr.span, Span.through, endOf, stop]⟩
  | @transpose lexeme words operand stop _ mark ih =>
      obtain ⟨first, others, rfl, same⟩ := ih
      have whole : lexeme.stop = stop := by simp [Lexeme.stop, mark, Exponent.stop]
      exact ⟨first, others ++ [lexeme], rfl, fun offset => by
        simp [Expr.span, same 0, endOf, whole]⟩
  | @negation lexeme words operand _ _ ih =>
      obtain ⟨first, others, rfl, same⟩ := ih
      exact ⟨lexeme, first :: others, rfl, fun offset => by simp [Expr.span, same 0, endOf]⟩
  | @binary lexeme operator before behind left right _ _ _ ihFirst ihSecond =>
      obtain ⟨first, others, rfl, here⟩ := ihFirst
      obtain ⟨_, _, rfl, there⟩ := ihSecond
      exact ⟨first, _, rfl, fun offset => by
        simp [Expr.span, Span.through, here 0, there 0, endOf]⟩
  | juxtaposed _ _ ihFirst ihSecond =>
      obtain ⟨first, others, rfl, here⟩ := ihFirst
      obtain ⟨_, _, rfl, there⟩ := ihSecond
      exact ⟨first, _, rfl, fun offset => by
        simp [Expr.span, Span.through, here 0, there 0, endOf]⟩
  | loosen _ ih => exact ih

/-- Words end at a place of the source. -/
theorem Laid.isBoundary_endOf (laid : Laid source offset words)
    (boundary : source.IsBoundary offset) : source.IsBoundary (endOf offset words) := by
  induction laid with
  | nil => exact boundary
  | cons placed _ _ ih => exact ih placed.stops

/-- The region of an expression lies in the source, behind all words in front of it. -/
theorem Derives.within {rank : Nat} {expr : Expr} (derives : Derives rank words expr)
    (laid : Laid source offset words) :
    expr.span.Within source ∧ offset ≤ expr.span.start ∧ expr.span.stop = endOf offset words := by
  obtain ⟨first, others, rfl, same⟩ := derives.exists_span_eq
  rw [same offset]
  cases laid with
  | cons placed starts later =>
      have stops := later.isBoundary_endOf placed.stops
      exact ⟨⟨Nat.le_trans placed.start_le later.le_endOf, stops.le, placed.quotes.within.starts,
        stops⟩, starts, rfl⟩

/-- Words among those that lie in order lie in order. -/
theorem Laid.infix {block : List Lexeme} (laid : Laid source offset words)
    (inside : block <:+: words) : ∃ later, Laid source later block := by
  obtain ⟨before, behind, rfl⟩ := inside
  exact ⟨_, laid.append.1.append.2⟩

/-! ## The regions of faults -/

variable {ν : Type} [Numeral ν] {diagnostic : Diagnostic}

/-- Where words stop making sense is a place in the source. -/
theorem Halts.cites (halts : Halts source.byteSize words diagnostic)
    (laid : Laid source offset words) : diagnostic.Cites source := by
  cases halts with
  | ended => exact Fault.unexpectedEnd_cites source
  | unexpected member => exact Fault.unexpectedToken_cites (laid.placed member).quotes
  | unclosed member opens =>
      have placed := laid.placed member
      exact Fault.unclosedParenthesis_cites (placed.opens opens ▸ placed.quotes)
  | trailing member =>
      have placed := laid.placed member
      exact Fault.trailingText_cites placed.quotes placed.nonempty
  | @unsupported lexeme found span member mark =>
      have quotes := (laid.placed member).unsupported found span mark
      exact ⟨Fault.located_pointsInto quotes.within rfl, span, rfl, quotes⟩
  | missing member mark =>
      obtain rfl := (laid.placed member).missing _ mark
      exact Fault.unexpectedEnd_cites source

/-- A name without a value stands where its fault points. -/
theorem cites_of_nameValue {name : Text} {span : Span} (quotes : span.Quotes source name)
    (failed : nameValue store name span = .error diagnostic) : diagnostic.Cites source := by
  unfold nameValue at failed
  split at failed
  · cases failed
  · cases failed
    exact ⟨Fault.located_pointsInto quotes.within rfl, span, rfl, quotes⟩
  · split at failed
    · cases failed
    · cases failed
      exact ⟨Fault.located_pointsInto quotes.within rfl, span, rfl, quotes⟩

/-- The fault of two operands points at three regions of the source when these lie in it. -/
theorem arithmetic_cites {fault : ArithmeticFault} {left middle right : Span}
    (first : left.Within source) (sign : middle.Within source) (second : right.Within source) :
    (⟨.arithmetic fault, [left, middle, right]⟩ : Diagnostic).Cites source := by
  refine ⟨⟨?_, ?_⟩, trivial⟩
  · simpa using ⟨first, sign, second⟩
  · cases fault <;> rfl

/-- A fault of the words points at what it is about, and quotes it. -/
theorem Blames.cites (blames : Blames ν store source.byteSize words diagnostic)
    (laid : Laid source offset words) : diagnostic.Cites source := by
  cases blames with
  | halts halts => exact halts.cites laid
  | @number lexeme member =>
      have quotes := (laid.placed member).quotes
      exact ⟨Fault.located_pointsInto quotes.within rfl, lexeme.span, rfl, quotes⟩
  | name member unknown => exact cites_of_nameValue (laid.placed member).quotes unknown
  | operator inside sign begins ends =>
      obtain ⟨later, block⟩ := laid.infix inside
      obtain ⟨front, back⟩ := block.append
      cases back with
      | cons placed _ rest =>
          exact arithmetic_cites (begins.within front).1 placed.quotes.within (ends.within rest).1
  | @juxtaposed before behind left right _ _ _ inside begins ends =>
      obtain ⟨later, block⟩ := laid.infix inside
      obtain ⟨front, back⟩ := block.append
      obtain ⟨first, -, last⟩ := begins.within front
      obtain ⟨second, starts, -⟩ := ends.within back
      have middle : (left.span.between right.span).Within source :=
        ⟨Nat.le_trans (Nat.le_of_eq last) starts, second.starts.le, first.stops, second.starts⟩
      exact arithmetic_cites first middle second

/-- Every fault of a formula points into it, and what it names stands there. -/
theorem cites_of_evaluate (failed : evaluate ν store source = .error diagnostic) :
    diagnostic.Cites source :=
  (blames_of_evaluate failed).cites (laid_lexemes store [] source)

end MatrixFormula.Formula
