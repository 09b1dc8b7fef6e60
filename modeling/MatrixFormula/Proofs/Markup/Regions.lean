import MatrixFormula.Proofs.Formula.Evaluation
import MatrixFormula.Proofs.Formula.Regions
import MatrixFormula.Proofs.Markup.Agreement
import MatrixFormula.Proofs.Markup.Front

/-!
# Where the faults of displayed formulas point

The words of a displayed formula stand in it with their texts at their regions, and its faults
point at words or at the end. When values are filled in, a place in what is shown moves to a place
in what was typed, and a region that starts before it ends does so again.
-/

namespace MatrixFormula.Markup

/-- The word stands in the source at its region. -/
structure Lexeme.Placed (lexeme : Lexeme) (source : Text) : Prop where
  quotes : lexeme.span.Quotes source lexeme.text
  nonempty : lexeme.text ≠ []
  opens : lexeme.word = .openParen → lexeme.text = ['(']

variable {source : Text} {words : List Lexeme} {diagnostic : Diagnostic}

/-- An opening parenthesis is a word of its own. -/
theorem eq_of_word?_openParen {first : Char} (opens : word? first = some .openParen) (text : Text) :
    first = '(' ∧ (cutWord first text).1 = [] := by
  have kind : Token.Kind.ofHead first = .openParen := by
    unfold word? at opens
    cases kind : Token.Kind.ofHead first <;> rw [kind] at opens <;> first | rfl | cases opens
  constructor
  · unfold Token.Kind.ofHead at kind
    repeat' split at kind
    all_goals first | rfl | cases kind
  · rw [cutWord, kind]
    cases text <;> rfl

/-- The words of a text stand in every source that the text is the end of. -/
theorem placed_lexemes (passed text : Text) :
    ∀ lexeme ∈ lexemes passed.byteSize text, lexeme.Placed (passed ++ text) := by
  induction text using word_induction generalizing passed with
  | nil => simp [lexemes]
  | cons first text ih =>
      have parts : first :: text = first :: (cutWord first text).1 ++ (cutWord first text).2 := by
        rw [List.cons_append, cutWord_append]
      rw [lexemes_cons]
      refine List.forall_mem_append.mpr ⟨fun lexeme here => ?_, ?_⟩
      · obtain ⟨word, known, rfl⟩ := List.mem_map.mp here
        refine ⟨⟨passed, (cutWord first text).2, ?_, rfl⟩, by simp, fun opens => ?_⟩
        · rw [List.append_assoc, ← parts]
        · obtain rfl : word = .openParen := opens
          obtain ⟨rfl, alone⟩ := eq_of_word?_openParen (Option.mem_toList.mp known) text
          rw [alone]
      · have later := ih (passed ++ first :: (cutWord first text).1)
        rwa [Text.byteSize_append, List.append_assoc, ← parts] at later

/-- Where words stop making sense is a place in the source, when the parentheses that are open
stand in it. -/
theorem verdict_cites {opened : List Span} {place : Place}
    (placed : ∀ lexeme ∈ words, lexeme.Placed source)
    (open_ : ∀ span ∈ opened, span.Quotes source ['('])
    (failed : verdict source.byteSize opened place words = .error diagnostic) :
    diagnostic.Cites source := by
  induction words generalizing opened place with
  | nil =>
      cases place with
      | operand signed =>
          cases failed
          exact Fault.unexpectedEnd_cites source
      | behind =>
          cases opened with
          | nil => cases failed
          | cons span outer =>
              cases failed
              exact Fault.unclosedParenthesis_cites (open_ span (by simp))
  | cons lexeme words ih =>
      obtain ⟨here, later⟩ := List.forall_mem_cons.mp placed
      have nested (parenthesis : lexeme.word = .openParen) :
          ∀ span ∈ lexeme.span :: opened, span.Quotes source ['('] :=
        List.forall_mem_cons.mpr ⟨here.opens parenthesis ▸ here.quotes, open_⟩
      have left : (trailing source.byteSize lexeme).Cites source :=
        Fault.trailingText_cites here.quotes here.nonempty
      cases place with
      | operand signed =>
          cases word : lexeme.word with
          | number | name | block =>
              simp only [verdict, word] at failed
              exact ih later open_ failed
          | openParen =>
              simp only [verdict, word] at failed
              exact ih later (nested word) failed
          | minus =>
              simp only [verdict, word] at failed
              split at failed
              · exact ih later open_ failed
              · cases failed
                exact Fault.unexpectedToken_cites here.quotes
          | _ =>
              simp only [verdict, word] at failed
              cases failed
              exact Fault.unexpectedToken_cites here.quotes
      | behind =>
          cases word : lexeme.word with
          | openParen =>
              simp only [verdict, word] at failed
              exact ih later (nested word) failed
          | closeParen =>
              simp only [verdict, word] at failed
              cases opened with
              | nil =>
                  cases failed
                  exact left
              | cons span outer => exact ih later (List.forall_mem_cons.mp open_).2 failed
          | stray =>
              simp only [verdict, word] at failed
              cases failed
              cases opened with
              | nil => exact left
              | cons span outer => exact Fault.unclosedParenthesis_cites (open_ span (by simp))
          | _ =>
              simp only [verdict, word] at failed
              exact ih later open_ failed

/-- Every fault of a displayed formula points into it, and what it names stands there. -/
theorem cites_of_render {style : NameStyle} (failed : render style source = .error diagnostic) :
    diagnostic.Cites source := by
  have judged := judged_render style source
  rw [failed] at judged
  exact verdict_cites (placed_lexemes [] source) (by simp) judged.symm

/-! ## What is shown and what was typed -/

variable {ν : Type} [Numeral ν] {store : Store} {pieces : List Segment}

/-- The pieces of some tokens spell them as they were typed. -/
theorem typedText_segments (store : Store) (tokens : List Token) :
    typedText (segments ν store tokens) = tokens.flatMap Token.lexeme := by
  have cons (piece : Segment) (pieces : List Segment) :
      typedText (piece :: pieces) = piece.typed ++ typedText pieces := rfl
  fun_induction segments ν store tokens with
  | case1 => rfl
  | case2 token rest _ ih | case3 token rest _ _ _ ih => rw [cons, ih]; rfl
  | case4 token rest _ _ after found mark ih =>
      obtain ⟨front, parts⟩ := suffix_of_afterTranspose? found
      have typed : mark = front := by simp [mark, ← parts]
      rw [cons, ih, Segment.typed, typed, ← parts, List.flatMap_cons, List.flatMap_append,
        List.append_assoc]

/-- The markup of a value is a command. -/
theorem mem_transposedLatex (tensor : Tensor) : '\\' ∈ tensor.transposedLatex ν := by
  have environment (name body : Text) : '\\' ∈ Latex.environment name body := by
    simp [environment_eq]
  unfold Tensor.transposedLatex
  split
  · exact environment _ _
  · cases tensor with
    | filled cells => exact environment _ _
    | placeholder rows cols => exact List.mem_append_left _ (environment _ _)

/-- No piece of a formula is empty. -/
theorem shown_ne_nil_of_segments {tokens : List Token}
    (nonempty : ∀ token ∈ tokens, token.lexeme ≠ []) :
    ∀ piece ∈ segments ν store tokens, piece.shown ≠ [] := by
  fun_induction segments ν store tokens with
  | case1 => exact nofun
  | case2 token rest _ ih | case3 token rest _ _ _ ih =>
      obtain ⟨here, later⟩ := List.forall_mem_cons.mp nonempty
      exact List.forall_mem_cons.mpr ⟨here, ih later⟩
  | case4 token rest tensor _ after found mark ih =>
      have shown := List.ne_nil_of_mem (@mem_transposedLatex ν _ tensor)
      refine List.forall_mem_cons.mpr ⟨shown, ih fun token member => ?_⟩
      have among := (suffix_of_afterTranspose? found).subset member
      exact nonempty token (List.mem_cons_of_mem _ among)

theorem typedText_segmentsOf (ν : Type) [Numeral ν] (store : Store) (source : Text) :
    typedText (segmentsOf ν store source) = source :=
  (typedText_segments store _).trans (Token.flatMap_lexeme_listFrom 0 source)

theorem shown_ne_nil_of_segmentsOf (ν : Type) [Numeral ν] (store : Store) (source : Text) :
    ∀ piece ∈ segmentsOf ν store source, piece.shown ≠ [] :=
  shown_ne_nil_of_segments fun token member => by
    obtain ⟨first, run, spelled, -⟩ := Token.exists_of_mem_listFrom member
    exact spelled ▸ List.cons_ne_nil first run

/-- No place moves in front of the text that it belongs to. -/
theorem le_typedOffset (isEnd : Bool) (pieces : List Segment) (base offset : Nat) :
    base ≤ typedOffset isEnd pieces base offset := by
  fun_induction typedOffset isEnd pieces base offset with
  | case1 | case2 | case5 => exact Nat.le_add_right ..
  | case4 | case6 => exact Nat.le_refl _
  | case3 _ _ _ _ _ ih | case7 _ _ _ _ _ _ _ ih => exact Nat.le_trans (Nat.le_add_right ..) ih

/-- A place in what is shown moves to a place in what was typed. -/
theorem exists_typedOffset (isEnd : Bool) {offset : Nat}
    (boundary : (shownText pieces).IsBoundary offset) (base : Nat) :
    ∃ place, (typedText pieces).IsBoundary place ∧
      typedOffset isEnd pieces base offset = base + place := by
  induction pieces generalizing base offset with
  | nil =>
      have none : offset ≤ 0 := boundary.le
      obtain rfl := Nat.le_zero.mp none
      exact ⟨0, Text.isBoundary_byteSize [], by simp [typedOffset]⟩
  | cons piece pieces ih =>
      have start : (typedText (piece :: pieces)).IsBoundary 0 := ⟨[], _, rfl, rfl⟩
      have behind : (typedText (piece :: pieces)).IsBoundary piece.typed.byteSize :=
        (Text.isBoundary_byteSize piece.typed).append_right _
      have later (above : piece.shown.byteSize ≤ offset) :
          ∃ place, (typedText (piece :: pieces)).IsBoundary place ∧
            typedOffset isEnd pieces (base + piece.typed.byteSize)
              (offset - piece.shown.byteSize) = base + place := by
        have rest : (shownText pieces).IsBoundary (offset - piece.shown.byteSize) := by
          rcases Text.IsBoundary.of_append boundary with inside | ⟨place, rest, rfl⟩
          · have last : offset - piece.shown.byteSize = 0 := Nat.sub_eq_zero_of_le inside.le
            exact last ▸ ⟨[], _, rfl, rfl⟩
          · rwa [Nat.add_sub_cancel_left]
        obtain ⟨place, found, moved⟩ := ih rest (base + piece.typed.byteSize)
        exact ⟨_, found.append_left piece.typed, by rw [moved, Nat.add_assoc]⟩
      cases piece with
      | kept text =>
          rw [typedOffset]
          split
          · next inside =>
              refine ⟨offset, ?_, rfl⟩
              rcases Text.IsBoundary.of_append boundary with here | ⟨place, -, rfl⟩
              · exact here.append_right _
              · exact absurd inside (Nat.not_lt.mpr (Nat.le_add_right ..))
          · next outside => exact later (Nat.le_of_not_lt outside)
      | replaced typed markup =>
          rw [typedOffset]
          split
          · exact ⟨0, start, rfl⟩
          · split
            · split
              · exact ⟨_, behind, rfl⟩
              · exact ⟨0, start, rfl⟩
            · next outside => exact later (Nat.le_of_not_lt outside)

/-- What does not end before it starts still does not in what was typed. -/
theorem typedOffset_le (shown : ∀ piece ∈ pieces, piece.shown ≠ []) {start stop : Nat}
    (ordered : start ≤ stop) (base : Nat) :
    typedOffset false pieces base start ≤ typedOffset true pieces base stop := by
  induction pieces generalizing base start stop with
  | nil =>
      simp only [typedOffset]
      omega
  | cons piece pieces ih =>
      obtain ⟨whole, others⟩ := List.forall_mem_cons.mp shown
      have later := ih others (Nat.sub_le_sub_right ordered piece.shown.byteSize)
        (base + piece.typed.byteSize)
      have behind := le_typedOffset true pieces (base + piece.typed.byteSize)
        (stop - piece.shown.byteSize)
      cases piece with
      | kept text =>
          simp only [Segment.shown, Segment.typed] at later behind
          simp only [typedOffset]
          split <;> split <;> omega
      | replaced typed markup =>
          -- A region at empty markup would start behind the variable and end in front of it.
          have some : 0 < Text.byteSize markup :=
            Nat.pos_of_ne_zero (mt Text.byteSize_eq_zero_iff.mp whole)
          simp only [Segment.shown, Segment.typed] at later behind
          simp only [typedOffset, Bool.false_and, Bool.false_eq_true, if_false, Bool.true_and,
            beq_iff_eq, if_true]
          repeat' split
          all_goals omega

/-- A region of what is shown moves to a region of what was typed. -/
theorem typedSpan_within (shown : ∀ piece ∈ pieces, piece.shown ≠ []) {span : Span}
    (within : span.Within (shownText pieces)) :
    (typedSpan pieces span).Within (typedText pieces) := by
  obtain ⟨start, starts, first⟩ := exists_typedOffset false within.starts 0
  obtain ⟨stop, stops, last⟩ := exists_typedOffset true within.stops 0
  have ordered := typedOffset_le shown within.ordered 0
  rw [Nat.zero_add] at first last
  rw [typedSpan, first, last]
  rw [first, last] at ordered
  exact ⟨ordered, stops.le, starts, stops⟩

/-- Every fault of a formula with its values filled in points into what was typed. -/
theorem pointsInto_of_renderExpanded (failed : renderExpanded ν store source = .error diagnostic) :
    diagnostic.PointsInto source := by
  simp only [renderExpanded] at failed
  split at failed
  · cases failed
  · next other rendered =>
      cases failed
      obtain ⟨within, labelled⟩ := (cites_of_render rendered).points
      refine ⟨List.forall_mem_map.mpr fun span member => ?_, by simpa using labelled⟩
      have moved := typedSpan_within (shown_ne_nil_of_segmentsOf ν store source)
        (within span member)
      rwa [typedText_segmentsOf] at moved

/-- Every fault of a formula points at what it is about, whether the formula is evaluated or
displayed. When values are filled in, it points into what was typed. -/
theorem faults_cite_source (ν : Type) [Numeral ν] (store : Store) (source : Text)
    (diagnostic : Diagnostic) :
    (Formula.evaluate ν store source = .error diagnostic → diagnostic.Cites source) ∧
    (∀ style, render style source = .error diagnostic → diagnostic.Cites source) ∧
    (∀ palette, renderColored store palette source = .error diagnostic →
      diagnostic.Cites source) ∧
    (renderExpanded ν store source = .error diagnostic → diagnostic.PointsInto source) :=
  ⟨Formula.cites_of_evaluate, fun _ => cites_of_render, fun _ => cites_of_render,
    pointsInto_of_renderExpanded⟩

/-- An unknown name behind a dot of two bytes, a parenthesis that is left open, a sign where a
denominator must start, and text behind a transposed variable. -/
theorem faults_cite_source_samples :
    (∃ diagnostic : Diagnostic, Formula.evaluate ℚ Formula.letters "2·c" = .error diagnostic ∧
      diagnostic.spans = [⟨3, 4⟩] ∧ diagnostic.Cites "2·c") ∧
    (∃ diagnostic : Diagnostic, render .plain "(a é" = .error diagnostic ∧
      diagnostic.spans = [⟨0, 1⟩] ∧ diagnostic.Cites "(a é") ∧
    (∃ diagnostic : Diagnostic, renderColored Formula.letters {} "a /-b" = .error diagnostic ∧
      diagnostic.spans = [⟨3, 4⟩] ∧ diagnostic.Cites "a /-b") ∧
    (∃ diagnostic : Diagnostic, renderExpanded ℚ Formula.letters "a ^T )é" = .error diagnostic ∧
      diagnostic.spans = [⟨5, 8⟩] ∧ diagnostic.PointsInto "a ^T )é") := by
  have unknown : Formula.evaluate ℚ Formula.letters "2·c" =
      .error ⟨.undefinedVariable ['c'] [['a'], ['b']], [⟨3, 4⟩]⟩ := by decide +kernel
  have unclosed : render .plain "(a é" = .error ⟨.unclosedParenthesis, [⟨0, 1⟩]⟩ := by
    decide +kernel
  have sign : renderColored Formula.letters {} "a /-b" =
      .error ⟨.unexpectedToken ['-'], [⟨3, 4⟩]⟩ := by decide +kernel
  have trailing : renderExpanded ℚ Formula.letters "a ^T )é" =
      .error ⟨.trailingText [')'], [⟨5, 8⟩]⟩ := by decide +kernel
  refine ⟨⟨_, unknown, rfl, ?_⟩, ⟨_, unclosed, rfl, ?_⟩, ⟨_, sign, rfl, ?_⟩, ⟨_, trailing, rfl, ?_⟩⟩
  · exact (faults_cite_source ℚ Formula.letters _ _).1 unknown
  · exact (faults_cite_source ℚ Formula.letters _ _).2.1 .plain unclosed
  · exact (faults_cite_source ℚ Formula.letters _ _).2.2.1 {} sign
  · exact (faults_cite_source ℚ Formula.letters _ _).2.2.2 trailing

end MatrixFormula.Markup
