import MatrixFormula.Proofs.Markup.Pieces
import MatrixFormula.Proofs.Markup.Verdict

/-!
# All modes agree on what a formula is

How names are written does not decide whether a formula can be displayed. When values are filled
in, the formula that is read is not the one that was typed, but its words are the same except
that a single block stands for a variable with a mark of transposition. So it fails where the
typed formula does, and every region that its faults can point at starts and ends between two
pieces, where it moves back to the place in what was typed.
-/

namespace MatrixFormula.Markup

variable {ν : Type} [Numeral ν] {store : Store} {text : Text} {front back pieces : List Segment}

/-! ## Places between pieces -/

/-- The text of a formula as it was typed. -/
def typedText (pieces : List Segment) : Text := pieces.flatMap Segment.typed

/-- Offsets behind a piece are moved by the pieces that follow. -/
theorem typedOffset_behind (isEnd : Bool) {piece : Segment} (shown : piece.shown ≠ [])
    (base offset : Nat) :
    typedOffset isEnd (piece :: back) base (piece.shown.byteSize + offset) =
      typedOffset isEnd back (base + piece.typed.byteSize) offset := by
  cases piece with
  | kept text => simp [typedOffset, Segment.shown, Segment.typed]
  | replaced typed markup =>
      have whole : markup ≠ [] := shown
      simp [typedOffset, Segment.shown, Segment.typed, whole]

/-- The start of a piece moves to the start of what was typed. -/
theorem typedOffset_zero (isEnd : Bool) (shown : ∀ piece ∈ back, piece.shown ≠ []) (base : Nat) :
    typedOffset isEnd back base 0 = base := by
  cases back with
  | nil => simp [typedOffset]
  | cons piece back =>
      have whole := shown piece (by simp)
      cases piece with
      | kept text =>
          have some : 0 < Text.byteSize text :=
            Nat.pos_of_ne_zero (mt Text.byteSize_eq_zero_iff.mp whole)
          simp [typedOffset, some]
      | replaced typed markup =>
          have some : 0 < Text.byteSize markup :=
            Nat.pos_of_ne_zero (mt Text.byteSize_eq_zero_iff.mp whole)
          cases isEnd <;> simp [typedOffset, some]

/-- Offsets behind some pieces are moved by the pieces that follow. -/
theorem typedOffset_append (isEnd : Bool) (shown : ∀ piece ∈ front, piece.shown ≠ [])
    (back : List Segment) (base offset : Nat) :
    typedOffset isEnd (front ++ back) base ((shownText front).byteSize + offset) =
      typedOffset isEnd back (base + (typedText front).byteSize) offset := by
  induction front generalizing base with
  | nil => simp [shownText, typedText]
  | cons piece front ih =>
      obtain ⟨whole, later⟩ := List.forall_mem_cons.mp shown
      have sizes (write : Segment → Text) : Text.byteSize ((piece :: front).flatMap write) =
          (write piece).byteSize + Text.byteSize (front.flatMap write) := by simp
      rw [shownText, typedText, sizes, sizes, ← Nat.add_assoc, Nat.add_assoc, List.cons_append,
        typedOffset_behind isEnd whole]
      exact ih later _

/-- An offset between two pieces moves to the place between them in what was typed. -/
theorem typedOffset_prefix (isEnd : Bool) (shown : ∀ piece ∈ pieces, piece.shown ≠ [])
    (starts : front <+: pieces) (base : Nat) :
    typedOffset isEnd pieces base (shownText front).byteSize =
      base + (typedText front).byteSize := by
  obtain ⟨back, rfl⟩ := starts
  obtain ⟨before, behind⟩ := List.forall_mem_append.mp shown
  exact (typedOffset_append isEnd before back base 0).trans (typedOffset_zero isEnd behind _)

/-- The region between two places between pieces moves to the region between them in what was
typed. -/
theorem typedSpan_prefix {middle : List Segment} (shown : ∀ piece ∈ pieces, piece.shown ≠ [])
    (first : front <+: pieces) (second : middle <+: pieces) :
    typedSpan pieces ⟨(shownText front).byteSize, (shownText middle).byteSize⟩ =
      ⟨(typedText front).byteSize, (typedText middle).byteSize⟩ := by
  rw [typedSpan, typedOffset_prefix false shown first, typedOffset_prefix true shown second,
    Nat.zero_add, Nat.zero_add]

/-! ## Faults are moved to what was typed -/

/-- A fault with its regions moved. -/
def respan (move : Span → Span) (diagnostic : Diagnostic) : Diagnostic :=
  { diagnostic with spans := diagnostic.spans.map move }

/-- A word that is the same in both formulas is read alike, wherever it stands. -/
theorem mapError_verdict_cons {move : Span → Span} {stop typedStop : Nat} {lexeme typed : Lexeme}
    {words typedWords : List Lexeme} (word : lexeme.word = typed.word)
    (same : lexeme.text = typed.text) (moved : move lexeme.span = typed.span)
    (behind : move ⟨lexeme.span.start, stop⟩ = ⟨typed.span.start, typedStop⟩)
    (next : ∀ opened place, (verdict stop opened place words).mapError (respan move) =
      verdict typedStop (opened.map move) place typedWords) (opened : List Span) (place : Place) :
    (verdict stop opened place (lexeme :: words)).mapError (respan move) =
      verdict typedStop (opened.map move) place (typed :: typedWords) := by
  have trails : respan move (trailing stop lexeme) = trailing typedStop typed := by
    simp [respan, trailing, Fault.located, behind, same]
  obtain ⟨found, text, span⟩ := lexeme
  obtain ⟨found, text, span⟩ := typed
  cases word
  cases same
  cases moved
  cases place with
  | operand signed =>
      cases found with
      | number | name | block | openParen => exact next _ _
      | minus =>
          cases signed with
          | true => exact next _ _
          | false => rfl
      | _ => rfl
  | behind =>
      cases found with
      | closeParen =>
          cases opened with
          | nil => exact congrArg Except.error trails
          | cons outer opened => exact next _ _
      | stray =>
          cases opened with
          | nil => exact congrArg Except.error trails
          | cons outer opened => rfl
      | _ => exact next _ _

/-- A block is read like a name with a mark of transposition. -/
theorem verdict_transposed (stop : Nat) (opened : List Span) (place : Place)
    {first caret last : Lexeme} {words : List Lexeme} (name : first.word = .name)
    (sign : caret.word = .caret) (letter : last.word = .name) :
    verdict stop opened place (first :: caret :: last :: words) =
      verdict stop opened .behind words := by
  cases place <;> simp only [verdict, name, sign, letter]

/-- A block is an operand in every place. -/
theorem verdict_block (stop : Nat) (opened : List Span) (place : Place) {lexeme : Lexeme}
    {words : List Lexeme} (block : lexeme.word = .block) :
    verdict stop opened place (lexeme :: words) = verdict stop opened .behind words := by
  cases place <;> simp only [verdict, block]

/-! ## The simulation -/

/-- What was typed is the text that the pieces are cut from. -/
theorem Segmented.typedText_eq (segmented : Segmented ν store text pieces) :
    typedText pieces = text := by
  induction segmented with
  | nil => rfl
  | kept _ _ _ _ ih | replaced _ _ _ _ _ ih => rw [typedText, List.flatMap_cons, ← ih]; rfl

/-- Something is shown for each piece. -/
theorem Segmented.shown_ne_nil (segmented : Segmented ν store text pieces)
    (blocks : Blocks pieces) : ∀ piece ∈ pieces, piece.shown ≠ [] := by
  induction segmented with
  | nil => exact nofun
  | kept _ _ _ _ ih => exact List.forall_mem_cons.mpr ⟨List.cons_ne_nil _ _, ih blocks.tail⟩
  | replaced _ _ _ _ _ ih =>
      obtain ⟨run, spelled, -⟩ := blocks _ _ (List.mem_cons_self ..)
      refine List.forall_mem_cons.mpr ⟨?_, ih blocks.tail⟩
      rw [Segment.shown, spelled]
      exact List.cons_ne_nil _ _

/-- One more piece makes what is shown longer by what is shown for it. -/
theorem byteSize_shownText (front : List Segment) (piece : Segment) :
    (shownText (front ++ [piece])).byteSize =
      (shownText front).byteSize + piece.shown.byteSize := by
  simp [shownText]

/-- One more piece makes what was typed longer by what was typed for it. -/
theorem byteSize_typedText (front : List Segment) (piece : Segment) :
    (typedText (front ++ [piece])).byteSize =
      (typedText front).byteSize + piece.typed.byteSize := by
  simp [typedText]

/-- What is shown is read to the same end as what was typed, from any place between two pieces. -/
theorem Segmented.verdict_shown (segmented : Segmented ν store text back) (blocks : Blocks back)
    (whole : pieces = front ++ back) (shown : ∀ piece ∈ pieces, piece.shown ≠ [])
    (opened : List Span) (place : Place) :
    (verdict (shownText pieces).byteSize opened place
        (lexemes (shownText front).byteSize (shownText back))).mapError
          (respan (typedSpan pieces)) =
      verdict (typedText pieces).byteSize (opened.map (typedSpan pieces)) place
        (lexemes (typedText front).byteSize text) := by
  induction segmented generalizing front opened place with
  | nil =>
      have last := typedSpan_prefix shown (List.prefix_refl pieces) (List.prefix_refl pieces)
      have none : shownText [] = [] := rfl
      rw [none, lexemes, lexemes]
      cases place with
      | operand signed =>
          show Except.error _ = Except.error _
          simp [respan, Fault.located, Span.point, last]
      | behind => cases opened <;> rfl
  | @kept char run rest others plain inside ends segmented ih =>
      have step : pieces = front ++ [.kept (char :: run)] ++ others := by simp [whole]
      have starts : front <+: pieces := ⟨_, whole.symm⟩
      have region := typedSpan_prefix shown starts ⟨_, step.symm⟩
      have behind := typedSpan_prefix shown starts (List.prefix_refl pieces)
      have next := ih blocks.tail step
      rw [byteSize_shownText, byteSize_typedText] at next region
      have first := lexemes_kept plain inside ends segmented blocks.tail.readable
        (shownText front).byteSize
      rw [writtenText_shown, writtenText_shown] at first
      rw [first, lexemes_token (fun kind => plain (eq_of_ofHead_backslash kind)) inside ends]
      unfold firstWord
      cases word? char with
      | none => exact next opened place
      | some word =>
          refine mapError_verdict_cons ?_ ?_ region behind next opened place
          · rfl
          · rfl
  | @replaced name mark rest tensor others identifier known marked ends segmented ih =>
      have step : pieces =
          front ++ [.replaced (name ++ mark) (tensor.transposedLatex ν)] ++ others := by
        simp [whole]
      have next := ih blocks.tail step opened .behind
      rw [byteSize_shownText, byteSize_typedText] at next
      obtain ⟨first, caret, last, word, sign, letter, spelled⟩ :=
        lexemes_transposed identifier marked ends (typedText front).byteSize
      have stops := segmented.ends_name blocks.tail.readable ends
      rw [writtenText_shown] at stops
      have block := lexemes_block (blocks _ _ (List.mem_cons_self ..)) stops
        (shownText front).byteSize
      rw [spelled, verdict_transposed _ _ _ word sign letter]
      show (verdict _ _ _ (lexemes _ (tensor.transposedLatex ν ++ shownText others))).mapError _ = _
      rw [block, verdict_block _ _ _ rfl]
      exact next

/-! ## Whole formulas -/

/-- A formula with its values filled in can be displayed when the typed formula can be, and has
the same fault at the same places otherwise. -/
theorem judged_renderExpanded (unmarked : ∀ value : ν, '\\' ∉ Numeral.write value)
    (enclosed : EnclosedStore store) {source : Text} (plain : '\\' ∉ source) (style : NameStyle) :
    judged (renderExpanded ν store source) = judged (render style source) := by
  have segmented : Segmented ν store source (segmentsOf ν store source) :=
    segmented_segments plain 0
  have blocks := segmented.blocks unmarked enclosed
  have read := segmented.verdict_shown blocks (List.nil_append _).symm
    (segmented.shown_ne_nil blocks) [] (.operand true)
  rw [segmented.typedText_eq] at read
  have expanded : judged (renderExpanded ν store source) =
      (judged (render (.expanded store) (shownText (segmentsOf ν store source)))).mapError
        (respan (typedSpan (segmentsOf ν store source))) := by
    rw [renderExpanded]
    cases render (.expanded store) (shownText (segmentsOf ν store source)) <;> rfl
  rw [expanded, judged_render, judged_render]
  exact read

/-- How names are written decides nothing about whether a formula can be displayed, nor does
filling in values that are delimited by their own commands and braces. -/
theorem modes_agree :
    (∀ (first second : NameStyle) (source : Text),
      judged (render first source) = judged (render second source)) ∧
    ∀ (store : Store), EnclosedStore store → ∀ (palette : Palette) (source : Text), '\\' ∉ source →
      judged (renderExpanded Float store source) = judged (renderColored store palette source) := by
  constructor
  · intro first second source
    rw [judged_render, judged_render]
  · intro store enclosed palette source plain
    exact judged_renderExpanded not_mem_write enclosed plain _

/-- Behind a transposed variable, a fault of the formula that is shown points at what was typed. -/
theorem modes_agree_sized :
    EnclosedStore sized ∧
      judged (renderColored sized {} "A^T ) x") =
        .error ⟨.trailingText [')'], [⟨4, 7⟩]⟩ ∧
      judged (renderExpanded Float sized "A^T ) x") =
        .error ⟨.trailingText [')'], [⟨4, 7⟩]⟩ := by
  have enclosed : EnclosedStore sized := by decide +kernel
  have colored : judged (renderColored sized {} "A^T ) x") =
      .error ⟨.trailingText [')'], [⟨4, 7⟩]⟩ := by decide +kernel
  exact ⟨enclosed, colored, (modes_agree.2 sized enclosed {} "A^T ) x" (by decide)).trans colored⟩

end MatrixFormula.Markup
