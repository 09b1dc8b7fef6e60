import MatrixFormula.Proofs.Decimal.Rational
import MatrixFormula.Proofs.Formula.ProductSigns
import MatrixFormula.Proofs.Formula.Spacing
import MatrixFormula.Proofs.Markup.Outline
import MatrixFormula.Proofs.Markup.Pieces

/-!
# Blanks in a displayed formula

The words of a formula whose values are filled in can be told from its pieces, and its pieces,
apart from blanks, from its solid tokens. A formula that is displayed by its names is one whose
values are filled in for no variable. So blanks between tokens do not matter in any mode, and the
sign of a product does not matter for the value.
-/

namespace MatrixFormula.Markup

variable {ν : Type} [Numeral ν] {store : Store} {source text other : Text} {offset : Nat}
  {tokens : List Token} {pieces : List Segment}

/-! ## The words of pieces -/

/-- The word of a piece, if any. Blanks are none, and a transposed value is one block. -/
def Segment.content? : Segment → Option (Word × Text)
  | .kept [] => none
  | .kept (char :: run) => (word? char).map fun word => (word, char :: run)
  | .replaced _ markup => some (.block, markup)

/-- The words of a formula with its values filled in are those of its pieces. -/
theorem Segmented.content_shownText (segmented : Segmented ν store text pieces)
    (blocks : Blocks pieces) (offset : Nat) :
    (lexemes offset (shownText pieces)).map Lexeme.content =
      pieces.filterMap Segment.content? := by
  induction segmented generalizing offset with
  | nil =>
      show (lexemes offset []).map _ = _
      rw [lexemes]
      rfl
  | @kept char run rest others plain inside ends segmented ih =>
      have shown := lexemes_kept plain inside ends segmented blocks.tail.readable offset
      rw [writtenText_shown, writtenText_shown] at shown
      rw [shown, List.map_append, ih blocks.tail, firstWord, List.filterMap_cons, Segment.content?]
      cases word? char <;> rfl
  | @replaced name mark rest tensor others named known marked ends segmented ih =>
      have stops := segmented.ends_name blocks.tail.readable ends
      rw [writtenText_shown] at stops
      have block := lexemes_block (blocks _ _ (List.mem_cons_self ..)) stops offset
      show (lexemes offset (tensor.transposedLatex ν ++ shownText others)).map _ = _
      rw [block, List.map_cons, ih blocks.tail]
      rfl

/-! ## Pieces of solid tokens -/

/-- Dropping blank tokens leaves the same solid ones. -/
theorem solid_dropWhile (tokens : List Token) :
    Token.solid (tokens.dropWhile isBlankToken) = Token.solid tokens := by
  induction tokens with
  | nil => rfl
  | cons token tokens ih =>
      by_cases blank : token.kind = .blank
      · rw [List.dropWhile_cons_of_pos (by simpa [isBlankToken] using blank), ih,
          Token.solid_cons_of_blank blank]
      · rw [List.dropWhile_cons_of_neg (by simpa [isBlankToken] using blank)]

/-- The first token that is not blank is the first solid one. -/
theorem exists_of_dropWhile {token : Token} {rest : List Token}
    (shown : tokens.dropWhile isBlankToken = token :: rest) :
    (Token.solid tokens).dropWhile isBlankToken =
      { token with span := .point 0 } :: Token.solid rest := by
  have solid : token.kind ≠ .blank := by
    have head := List.head?_dropWhile_not isBlankToken tokens
    rw [shown] at head
    simpa [isBlankToken] using head
  rw [← solid_dropWhile, shown, Token.solid_cons_of_shown solid,
    List.dropWhile_cons_of_neg (by simpa [isBlankToken] using solid)]

/-- A mark of transposition is found whatever blanks stand around it. -/
theorem afterTranspose?_solid (tokens : List Token) :
    afterTranspose? (Token.solid tokens) = (afterTranspose? tokens).map Token.solid := by
  have none {tokens : List Token} (blank : tokens.dropWhile isBlankToken = []) :
      (Token.solid tokens).dropWhile isBlankToken = [] := by
    rw [← solid_dropWhile, blank]
    rfl
  cases spread : tokens.dropWhile isBlankToken with
  | nil => simp only [afterTranspose?, spread, none spread, Option.map_none]
  | cons caret more =>
      have first := exists_of_dropWhile spread
      cases closer : more.dropWhile isBlankToken with
      | nil => simp only [afterTranspose?, spread, first, closer, none closer, Option.map_none]
      | cons letter rest =>
          simp only [afterTranspose?, spread, first, closer, exists_of_dropWhile closer]
          split <;> rfl

variable {token : Token} {tensor : Tensor} {after : List Token}

/-- A token is kept unless it is a variable with a mark of transposition. -/
theorem segments_kept
    (kept : (if token.kind = .name then store.get? token.lexeme else none) = none ∨
      afterTranspose? tokens = none) :
    segments ν store (token :: tokens) = .kept token.lexeme :: segments ν store tokens := by
  rw [segments]
  rcases kept with unknown | unmarked
  · rw [unknown]
  · split
    · rfl
    · split
      · rfl
      · next after marked =>
          rw [unmarked] at marked
          cases marked

/-- A variable with a mark of transposition is replaced together with the mark. -/
theorem exists_segments_replaced
    (known : (if token.kind = .name then store.get? token.lexeme else none) = some tensor)
    (marked : afterTranspose? tokens = some after) :
    ∃ typed, segments ν store (token :: tokens) =
      .replaced typed (tensor.transposedLatex ν) :: segments ν store after := by
  rw [segments, known]
  simp only
  split
  · next unmarked =>
      rw [marked] at unmarked
      cases unmarked
  · next found =>
      obtain rfl := Option.some.inj (marked.symm.trans found)
      exact ⟨_, rfl⟩

/-- A blank token has no word. -/
theorem content?_of_blank (cut : token ∈ Token.listFrom offset text) (blank : token.kind = .blank) :
    (Segment.kept token.lexeme).content? = none := by
  obtain ⟨char, run, spelled, kind, -⟩ := Token.exists_of_mem_listFrom cut
  rw [spelled, Segment.content?, word?, ← kind, blank]
  rfl

/-- The words of the pieces of a formula are those of the pieces of its solid tokens. -/
theorem content_segments_solid (cut : ∀ token ∈ tokens, token ∈ Token.listFrom offset text) :
    (segments ν store (Token.solid tokens)).filterMap Segment.content? =
      (segments ν store tokens).filterMap Segment.content? := by
  induction size : tokens.length using Nat.strongRecOn generalizing tokens with
  | ind bound ih =>
      cases tokens with
      | nil => rfl
      | cons token rest =>
          obtain ⟨here, cut⟩ := List.forall_mem_cons.mp cut
          have later {behind : List Token} (suffix : behind <:+ rest) :
              (segments ν store (Token.solid behind)).filterMap Segment.content? =
                (segments ν store behind).filterMap Segment.content? :=
            ih _ (size ▸ Nat.lt_succ_of_le suffix.length_le)
              (fun token member => cut token (suffix.subset member)) rfl
          have tail := later (List.suffix_refl rest)
          have marks := afterTranspose?_solid rest
          by_cases blank : token.kind = .blank
          · rw [Token.solid_cons_of_blank blank, segments_kept (.inl (by simp [blank])),
              List.filterMap_cons_none (content?_of_blank here blank)]
            exact tail
          · rw [Token.solid_cons_of_shown blank]
            by_cases kept : (if token.kind = .name then store.get? token.lexeme else none) = none ∨
                afterTranspose? rest = none
            · have also := @segments_kept ν _ store (Token.solid rest)
                { token with span := .point 0 }
                (kept.imp_right fun unmarked => by rw [marks, unmarked]; rfl)
              rw [segments_kept kept, also, List.filterMap_cons, List.filterMap_cons, tail]
            · obtain ⟨known, marked⟩ := not_or.mp kept
              obtain ⟨tensor, known⟩ := Option.ne_none_iff_exists'.mp known
              obtain ⟨after, marked⟩ := Option.ne_none_iff_exists'.mp marked
              rw [marked] at marks
              obtain ⟨_, shown⟩ := @exists_segments_replaced ν _ _ _ _ _ _ known marked
              obtain ⟨_, solid⟩ := @exists_segments_replaced ν _ store _
                { token with span := .point 0 } _ _ known marks
              rw [shown, solid, List.filterMap_cons, List.filterMap_cons,
                later (suffix_of_afterTranspose? marked)]
              rfl

/-! ## Whole formulas -/

/-- The words of a formula with its values filled in do not depend on its blanks. -/
theorem content_respaced (plain : '\\' ∉ source) (enclosed : EnclosedStore store)
    (respaced : Token.Respaced (Token.list source) other) :
    (lexemes 0 (shownText (segmentsOf Float store other))).map Lexeme.content =
      (lexemes 0 (shownText (segmentsOf Float store source))).map Lexeme.content := by
  have content {text : Text} (plain : '\\' ∉ text) :
      (lexemes 0 (shownText (segmentsOf Float store text))).map Lexeme.content =
        (segments Float store (Token.solid (Token.list text))).filterMap Segment.content? := by
    have segmented : Segmented Float store text (segmentsOf Float store text) :=
      segmented_segments plain 0
    rw [segmented.content_shownText (segmented.blocks not_mem_write enclosed)]
    exact (content_segments_solid fun _ member => member).symm
  have also : '\\' ∉ other := fun member => by
    rcases respaced.isBlank_or_mem _ member with blank | inside
    · exact absurd blank (by decide)
    · exact plain inside
  rw [content plain, content also, respaced.solid_eq]

/-- No values are filled in without variables. -/
theorem shownText_empty (text : Text) : shownText (segmentsOf Float Store.empty text) = text := by
  have whole (tokens : List Token) :
      shownText (segments Float Store.empty tokens) = tokens.flatMap Token.lexeme := by
    induction tokens with
    | nil =>
        rw [segments]
        rfl
    | cons token tokens ih =>
        rw [segments_kept (.inl (by split <;> rfl)), shownText, List.flatMap_cons,
          List.flatMap_cons, ← ih]
        rfl
  exact (whole _).trans (Token.flatMap_lexeme_listFrom 0 text)

/-- A formula with other blanks is displayed alike in every style. -/
theorem render_respaced (plain : '\\' ∉ source) (style : NameStyle)
    (respaced : Token.Respaced (Token.list source) other) :
    (render style other).mapError Diagnostic.fault =
      (render style source).mapError Diagnostic.fault := by
  have content := @content_respaced Store.empty _ _ plain nofun respaced
  rw [shownText_empty, shownText_empty] at content
  rw [render_eq_run, render_eq_run, content]

/-- A source without backslashes is expanded alike with other blanks between its tokens. -/
theorem renderExpanded_respaced (plain : '\\' ∉ source) (enclosed : EnclosedStore store)
    (respaced : Token.Respaced (Token.list source) other) :
    (renderExpanded Float store other).mapError Diagnostic.fault =
      (renderExpanded Float store source).mapError Diagnostic.fault := by
  rw [mapError_renderExpanded, mapError_renderExpanded, render_eq_run, render_eq_run,
    content_respaced plain enclosed respaced]

/-- Blanks between tokens do not matter in any mode, and the sign of a product does not matter for
the value. -/
theorem blanks_and_signs_ignored (ν : Type) [Numeral ν] (store : Store) (source : Text)
    (plain : '\\' ∉ source) :
    (∀ other, Token.Respaced (Token.list source) other →
      ((Token.solid (Token.list source)).IsChain Token.Marks →
        (Token.list source).IsChain (Token.Apart store) →
        (Formula.evaluate ν store other).mapError Diagnostic.fault =
          (Formula.evaluate ν store source).mapError Diagnostic.fault) ∧
      (∀ palette, (renderColored store palette other).mapError Diagnostic.fault =
        (renderColored store palette source).mapError Diagnostic.fault) ∧
      (EnclosedStore store → (renderExpanded Float store other).mapError Diagnostic.fault =
        (renderExpanded Float store source).mapError Diagnostic.fault)) ∧
    ∀ other, List.Forall₂ Formula.SameSign source other → ∀ grid,
      Formula.evaluate ν store source = .ok grid → Formula.evaluate ν store other = .ok grid := by
  refine ⟨fun other respaced => ⟨?_, ?_, ?_⟩, ?_⟩
  · exact Formula.evaluate_respaced ν respaced
  · exact fun palette => render_respaced plain (.colored store palette) respaced
  · exact fun enclosed => renderExpanded_respaced plain enclosed respaced
  · exact fun other same grid done => Formula.evaluate_sameSign same done

/-- A store with a variable that is a digit. -/
def numbered : Store :=
  (Store.empty.insert ['a'] (.filled (.scalar ['x']))).insert ['2'] (.filled (.scalar ['y']))

/-- Blanks around the caret do not matter, and neither does a dot in place of the asterisk. -/
theorem blanks_and_signs_ignored_transposed :
    '\\' ∉ ("2a^T*.5" : Text) ∧
      Token.Respaced (Token.list "2a^T*.5") "2 a ^ \u00a0T*.5" ∧
      (Formula.evaluate ℚ numbered "2 a ^ \u00a0T*.5").mapError Diagnostic.fault =
        (Formula.evaluate ℚ numbered "2a^T*.5").mapError Diagnostic.fault ∧
      (renderColored numbered {} "2 a ^ \u00a0T*.5").mapError Diagnostic.fault =
        (renderColored numbered {} "2a^T*.5").mapError Diagnostic.fault ∧
      (renderExpanded Float numbered "2 a ^ \u00a0T*.5").mapError Diagnostic.fault =
        (renderExpanded Float numbered "2a^T*.5").mapError Diagnostic.fault ∧
      Formula.evaluate ℚ numbered "2a^T*.5" = .ok (.scalar "2x \\cdot 0.5".toList) ∧
      Formula.evaluate ℚ numbered "2a^T·.5" = .ok (.scalar "2x \\cdot 0.5".toList) := by
  have plain : '\\' ∉ ("2a^T*.5" : Text) := by decide
  have tokens : Token.list "2a^T*.5" =
      [⟨.number, ['2'], ⟨0, 1⟩⟩, ⟨.name, ['a'], ⟨1, 2⟩⟩, ⟨.caret, ['^'], ⟨2, 3⟩⟩,
        ⟨.name, ['T'], ⟨3, 4⟩⟩, ⟨.times, ['*'], ⟨4, 5⟩⟩, ⟨.number, ['.', '5'], ⟨5, 7⟩⟩] := by
    decide +kernel
  have respaced : Token.Respaced (Token.list "2a^T*.5") "2 a ^ \u00a0T*.5" := by
    rw [tokens]
    exact .kept (.inserted (by decide) (.kept (.inserted (by decide) (.kept (.inserted (by decide)
      (.inserted (by decide) (.kept (.kept (.kept .nil)))))))))
  have done : Formula.evaluate ℚ numbered "2a^T*.5" = .ok (.scalar "2x \\cdot 0.5".toList) := by
    decide +kernel
  have same : List.Forall₂ Formula.SameSign "2a^T*.5" "2a^T·.5" :=
    .cons (.inl rfl) (.cons (.inl rfl) (.cons (.inl rfl) (.cons (.inl rfl)
      (.cons (.inr ⟨rfl, rfl⟩) (.cons (.inl rfl) (.cons (.inl rfl) .nil))))))
  obtain ⟨blanks, signs⟩ := blanks_and_signs_ignored ℚ numbered "2a^T*.5" plain
  obtain ⟨evaluated, colored, expanded⟩ := blanks _ respaced
  exact ⟨plain, respaced, evaluated (by decide +kernel) (by decide +kernel), colored {},
    expanded (by decide +kernel), done, signs _ same _ done⟩

/-- The digit that is a variable is read with the point behind it, unless there is a blank. So the
value changes, or the number that a fault names. -/
theorem not_blanks_ignored_numbered :
    ('\\' ∉ ("a2.5" : Text) ∧ (Token.solid (Token.list "a2.5")).IsChain Token.Marks ∧
      Token.Respaced (Token.list "a2.5") "a2 .5" ∧
      Formula.evaluate ℚ numbered "a2.5" = .ok (.scalar "2.5x".toList) ∧
      Formula.evaluate ℚ numbered "a2 .5" = .ok (.scalar "2x \\cdot 0.5".toList) ∧
      Formula.evaluate ℚ numbered "a2.5" ≠ Formula.evaluate ℚ numbered "a2 .5") ∧
    '\\' ∉ ("a2.5." : Text) ∧ (Token.solid (Token.list "a2.5.")).IsChain Token.Marks ∧
      Token.Respaced (Token.list "a2.5.") "a2 .5." ∧
      Formula.evaluate Float numbered "a2.5." =
        .error ⟨.invalidNumber ['2', '.', '5', '.'], [⟨1, 5⟩]⟩ ∧
      Formula.evaluate Float numbered "a2 .5." =
        .error ⟨.invalidNumber ['.', '5', '.'], [⟨3, 6⟩]⟩ ∧
      (Formula.evaluate Float numbered "a2.5.").mapError Diagnostic.fault ≠
        (Formula.evaluate Float numbered "a2 .5.").mapError Diagnostic.fault := by
  have respaced : Token.Respaced (Token.list "a2.5") "a2 .5" := by
    have tokens : Token.list "a2.5" =
        [⟨.name, ['a', '2'], ⟨0, 2⟩⟩, ⟨.number, ['.', '5'], ⟨2, 4⟩⟩] := by decide +kernel
    rw [tokens]
    exact .kept (.inserted (by decide) (.kept .nil))
  have faulty : Token.Respaced (Token.list "a2.5.") "a2 .5." := by
    have tokens : Token.list "a2.5." =
        [⟨.name, ['a', '2'], ⟨0, 2⟩⟩, ⟨.number, ['.', '5', '.'], ⟨2, 5⟩⟩] := by decide +kernel
    rw [tokens]
    exact .kept (.inserted (by decide) (.kept .nil))
  have whole : Formula.evaluate ℚ numbered "a2.5" = .ok (.scalar "2.5x".toList) := by
    decide +kernel
  have parts : Formula.evaluate ℚ numbered "a2 .5" = .ok (.scalar "2x \\cdot 0.5".toList) := by
    decide +kernel
  have joined : Formula.evaluate Float numbered "a2.5." =
      .error ⟨.invalidNumber ['2', '.', '5', '.'], [⟨1, 5⟩]⟩ := by decide +kernel
  have apart : Formula.evaluate Float numbered "a2 .5." =
      .error ⟨.invalidNumber ['.', '5', '.'], [⟨3, 6⟩]⟩ := by decide +kernel
  refine ⟨⟨by decide, by decide +kernel, respaced, whole, parts, ?_⟩, by decide, by decide +kernel,
    faulty, joined, apart, ?_⟩
  · rw [whole, parts]
    decide +kernel
  · rw [joined, apart]
    exact nofun

end MatrixFormula.Markup
