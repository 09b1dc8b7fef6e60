import MatrixFormula.Proofs.Markup.Regions

/-!
# Regions are traced back to what was typed

A formula with its values filled in is made of kept text and of markup in the place of transposed
variables. A region of it is traced back to a region of what was typed: kept text to itself, and
a region that touches markup to one that takes in the whole variable with its mark.
-/

namespace MatrixFormula

namespace Span

/-- The regions have more in common than their ends. A place inside a region overlaps it. -/
def Overlaps (left right : Span) : Prop := left.start < right.stop ∧ right.start < left.stop

instance (left right : Span) : Decidable (left.Overlaps right) :=
  inferInstanceAs (Decidable (_ ∧ _))

/-- The second region lies in the first. -/
def Contains (outer inner : Span) : Prop := outer.start ≤ inner.start ∧ inner.stop ≤ outer.stop

variable {source : Text} {span : Span}

/-- A region that lies in a source quotes what stands there. -/
theorem Within.exists_quotes (within : span.Within source) : ∃ text, span.Quotes source text := by
  obtain ⟨before, rest, whole, first⟩ := within.starts
  obtain ⟨front, behind, parts, last⟩ := within.stops
  have ordered := within.ordered
  rcases List.append_eq_append_iff.mp (whole.symm.trans parts) with ⟨text, rfl, -⟩ | ⟨text, rfl, -⟩
  · rw [Text.byteSize_append] at last
    exact ⟨text, before, behind, parts, congrArg₂ Span.mk first last⟩
  · obtain rfl : text = [] := by
      rw [first, last, Text.byteSize_append] at ordered
      exact Text.byteSize_eq_zero_iff.mp (by omega)
    rw [List.append_nil] at first
    exact ⟨[], front, behind, by simpa using parts, congrArg₂ Span.mk first last⟩

end Span

namespace Markup

/-- A piece that was replaced, and the pieces around it. -/
structure Replacement (pieces : List Segment) where
  front : List Segment
  typed : Text
  markup : Text
  back : List Segment
  parts : pieces = front ++ .replaced typed markup :: back

namespace Replacement

variable {pieces : List Segment}

/-- The region of the markup in what is shown. -/
def shownSpan (replacement : Replacement pieces) : Span :=
  .ofText (shownText replacement.front).byteSize replacement.markup

/-- The region of the variable with its mark in what was typed. -/
def typedSpan (replacement : Replacement pieces) : Span :=
  .ofText (typedText replacement.front).byteSize replacement.typed

/-- The replacement when a further piece stands in front. -/
def behind (piece : Segment) (replacement : Replacement pieces) :
    Replacement (piece :: pieces) where
  front := piece :: replacement.front
  typed := replacement.typed
  markup := replacement.markup
  back := replacement.back
  parts := congrArg (piece :: ·) replacement.parts

theorem shownSpan_behind (piece : Segment) (replacement : Replacement pieces) :
    (replacement.behind piece).shownSpan =
      ⟨piece.shown.byteSize + replacement.shownSpan.start,
        piece.shown.byteSize + replacement.shownSpan.stop⟩ := by
  simp [shownSpan, behind, shownText, Span.ofText, Nat.add_assoc]

end Replacement

variable {ν : Type} [Numeral ν] {store : Store} {pieces : List Segment}

/-! ## Kept text -/

/-- An offset in a kept piece is as far behind its start in what was typed. -/
theorem typedOffset_kept (isEnd : Bool) (before text : Text) (base offset : Nat) :
    typedOffset isEnd (.kept (before ++ text) :: pieces) base (before.byteSize + offset) =
      typedOffset isEnd (.kept text :: pieces) (base + before.byteSize) offset := by
  simp [typedOffset, Nat.add_assoc, Nat.add_sub_add_left]

/-- When a text is cut in two ways, the first part of one cut goes beyond that of the other or
ends in front of its end. -/
theorem append_cases {left right front back : Text} (same : left ++ right = front ++ back) :
    (∃ later, front = left ++ later ∧ right = later ++ back) ∨
      ∃ rest, rest ≠ [] ∧ left = front ++ rest ∧ back = rest ++ right := by
  rcases List.append_eq_append_iff.mp same with beyond | ⟨rest, rfl, later⟩
  · exact .inl beyond
  · by_cases empty : rest = []
    · subst empty
      exact .inl ⟨[], by simp, later.symm⟩
    · exact .inr ⟨rest, empty, rfl, later⟩

/-- Text that ends in front of all markup was typed as it is shown. -/
theorem typedOffset_front (shown : ∀ piece ∈ pieces, piece.shown ≠ []) {text after : Text}
    (starts : shownText pieces = text ++ after)
    (apart : ∀ replacement : Replacement pieces, text.byteSize ≤ replacement.shownSpan.start)
    (base : Nat) :
    text <+: typedText pieces ∧
      typedOffset true pieces base text.byteSize = base + text.byteSize := by
  induction pieces generalizing text base with
  | nil =>
      obtain ⟨rfl, -⟩ := List.append_eq_nil_iff.mp starts.symm
      exact ⟨List.nil_prefix, typedOffset_zero true shown base⟩
  | cons piece pieces ih =>
      obtain ⟨whole, others⟩ := List.forall_mem_cons.mp shown
      cases piece with
      | kept first =>
          have parts : first ++ shownText pieces = text ++ after := starts
          rcases append_cases parts with ⟨later, rfl, rest⟩ | ⟨rest, some, rfl, -⟩
          · have further (replacement : Replacement pieces) :
                Text.byteSize later ≤ replacement.shownSpan.start := by
              have behind := apart (replacement.behind (.kept first))
              rw [Replacement.shownSpan_behind, Text.byteSize_append] at behind
              exact Nat.le_of_add_le_add_left behind
            obtain ⟨typed, moved⟩ := ih others rest further (base + first.byteSize)
            refine ⟨(List.prefix_append_right_inj first).mpr typed, ?_⟩
            rw [Text.byteSize_append, ← Nat.add_assoc, ← moved]
            exact typedOffset_behind true whole base (Text.byteSize later)
          · have shown : ∀ piece ∈ Segment.kept rest :: pieces, piece.shown ≠ [] :=
              List.forall_mem_cons.mpr ⟨some, others⟩
            refine ⟨⟨rest ++ typedText pieces, (List.append_assoc ..).symm⟩, ?_⟩
            exact (typedOffset_kept true text rest base 0).trans (typedOffset_zero true shown _)
      | replaced typed markup =>
          have least := apart ⟨[], typed, markup, pieces, rfl⟩
          obtain rfl : text = [] := Text.byteSize_eq_zero_iff.mp (Nat.le_zero.mp least)
          exact ⟨List.nil_prefix, typedOffset_zero true shown base⟩

/-- All replacements behind a kept piece are those in the pieces behind it. -/
theorem Replacement.eq_behind {text : Text} (replacement : Replacement (.kept text :: pieces)) :
    ∃ later : Replacement pieces, replacement = later.behind (.kept text) := by
  obtain ⟨front, typed, markup, back, parts⟩ := replacement
  cases front with
  | nil => cases parts
  | cons piece front =>
      obtain ⟨rfl, rest⟩ := List.cons.inj parts
      exact ⟨⟨front, typed, markup, back, rest⟩, rfl⟩

/-- Text that overlaps no markup was typed as it is shown, and its ends move to its ends. -/
theorem exists_typed_of_apart (shown : ∀ piece ∈ pieces, piece.shown ≠ [])
    {before text after : Text} (parts : shownText pieces = before ++ text ++ after)
    (apart : ∀ replacement : Replacement pieces,
      ¬ (Span.ofText before.byteSize text).Overlaps replacement.shownSpan) (base : Nat) :
    ∃ front behind, typedText pieces = front ++ text ++ behind ∧
      typedOffset false pieces base before.byteSize = base + front.byteSize ∧
      typedOffset true pieces base (before.byteSize + text.byteSize) =
        base + front.byteSize + text.byteSize := by
  induction pieces generalizing before base with
  | nil =>
      obtain ⟨start, -⟩ := List.append_eq_nil_iff.mp parts.symm
      obtain ⟨rfl, rfl⟩ := List.append_eq_nil_iff.mp start
      exact ⟨[], [], rfl, typedOffset_zero false shown base, typedOffset_zero true shown base⟩
  | cons piece pieces ih =>
      obtain ⟨whole, others⟩ := List.forall_mem_cons.mp shown
      have cut : piece.shown ++ shownText pieces = before ++ (text ++ after) := by
        rw [← List.append_assoc, ← parts]
        rfl
      rcases append_cases cut with ⟨later, rfl, rest⟩ | ⟨rest, some, inside, behind⟩
      · -- The text starts behind the first piece.
        have further (replacement : Replacement pieces) :
            ¬ (Span.ofText (Text.byteSize later) text).Overlaps replacement.shownSpan := by
          have behind := apart (replacement.behind piece)
          rw [Replacement.shownSpan_behind] at behind
          simp only [Span.Overlaps, Span.ofText, Text.byteSize_append] at behind ⊢
          omega
        obtain ⟨front, after, typed, first, last⟩ :=
          ih others (by rw [rest, List.append_assoc]) further (base + piece.typed.byteSize)
        refine ⟨piece.typed ++ front, after, ?_, ?_, ?_⟩
        · rw [List.append_assoc, List.append_assoc, ← List.append_assoc front, ← typed]
          rfl
        · rw [Text.byteSize_append, Text.byteSize_append, typedOffset_behind false whole, first,
            Nat.add_assoc]
        · rw [Text.byteSize_append, Text.byteSize_append, Nat.add_assoc,
            typedOffset_behind true whole, last, Nat.add_assoc base]
      · have size : 0 < Text.byteSize rest :=
          Nat.pos_of_ne_zero (mt Text.byteSize_eq_zero_iff.mp some)
        cases piece with
        | kept first =>
            obtain rfl : first = before ++ rest := inside
            have shown : ∀ piece ∈ Segment.kept rest :: pieces, piece.shown ≠ [] :=
              List.forall_mem_cons.mpr ⟨some, others⟩
            have further (replacement : Replacement (.kept rest :: pieces)) :
                text.byteSize ≤ replacement.shownSpan.start := by
              obtain ⟨later, rfl⟩ := replacement.eq_behind
              have apart := apart (later.behind (.kept (before ++ rest)))
              rw [Replacement.shownSpan_behind] at apart ⊢
              simp only [Span.Overlaps, Span.ofText, Segment.shown, Text.byteSize_append]
                at apart ⊢
              omega
            obtain ⟨⟨back, typed⟩, moved⟩ :=
              typedOffset_front shown behind.symm further (base + before.byteSize)
            refine ⟨before, back, ?_, ?_, ?_⟩
            · rw [List.append_assoc, typed]
              exact List.append_assoc ..
            · exact (typedOffset_kept false before rest base 0).trans
                (typedOffset_zero false shown _)
            · rw [typedOffset_kept, moved]
        | replaced typed markup =>
            obtain rfl : markup = before ++ rest := inside
            have least := apart ⟨[], typed, before ++ rest, pieces, rfl⟩
            have none : before.byteSize = 0 ∧ text.byteSize = 0 := by
              simp only [Span.Overlaps, Replacement.shownSpan, Span.ofText, shownText,
                List.flatMap_nil, Text.byteSize_nil, Text.byteSize_append] at least
              omega
            obtain rfl : before = [] := Text.byteSize_eq_zero_iff.mp none.1
            obtain rfl : text = [] := Text.byteSize_eq_zero_iff.mp none.2
            exact ⟨[], typedText (.replaced typed ([] ++ rest) :: pieces), rfl,
              typedOffset_zero false shown base, typedOffset_zero true shown base⟩

/-! ## Markup -/

/-- A place further on is traced back to a place further on. -/
theorem typedOffset_mono (isEnd : Bool) (pieces : List Segment) (base : Nat) {first second : Nat}
    (ordered : first ≤ second) :
    typedOffset isEnd pieces base first ≤ typedOffset isEnd pieces base second := by
  induction pieces generalizing base first second with
  | nil =>
      simp only [typedOffset]
      omega
  | cons piece pieces ih =>
      have later := ih (base + piece.typed.byteSize)
        (Nat.sub_le_sub_right ordered piece.shown.byteSize)
      have behind := le_typedOffset isEnd pieces (base + piece.typed.byteSize)
        (second - piece.shown.byteSize)
      cases piece with
      | kept text =>
          simp only [Segment.shown, Segment.typed] at later behind
          simp only [typedOffset]
          split <;> split <;> omega
      | replaced typed markup =>
          simp only [Segment.shown, Segment.typed] at later behind
          cases isEnd with
          | false =>
              simp only [typedOffset, Bool.false_and, Bool.false_eq_true, if_false]
              split <;> split <;> omega
          | true =>
              simp only [typedOffset, Bool.true_and, beq_iff_eq, if_true]
              repeat' split
              all_goals omega

/-- A region that overlaps markup is traced back to one that takes in the whole variable with its
mark. -/
theorem typedSpan_contains (shown : ∀ piece ∈ pieces, piece.shown ≠ []) {span : Span}
    (replacement : Replacement pieces) (overlaps : span.Overlaps replacement.shownSpan) :
    (typedSpan pieces span).Contains replacement.typedSpan := by
  obtain ⟨front, typed, markup, back, rfl⟩ := replacement
  obtain ⟨before, others⟩ := List.forall_mem_append.mp shown
  obtain ⟨whole, behind⟩ := List.forall_mem_cons.mp others
  have size : 0 < Text.byteSize markup :=
    Nat.pos_of_ne_zero (mt Text.byteSize_eq_zero_iff.mp whole)
  obtain ⟨starts, stops⟩ := overlaps
  simp only [Replacement.shownSpan, Span.ofText] at starts stops
  constructor
  · -- The last byte of the markup still moves to the start of the variable.
    have last : span.start ≤ (shownText front).byteSize + (Text.byteSize markup - 1) := by omega
    have moved := typedOffset_mono false (front ++ .replaced typed markup :: back) 0 last
    rw [typedOffset_append false before] at moved
    simpa [typedOffset, size, typedSpan, Replacement.typedSpan, Span.ofText] using moved
  · -- A region that ends behind the first byte of the markup ends behind the variable.
    obtain ⟨place, inside⟩ := Nat.exists_eq_add_of_lt stops
    have moved := typedOffset_append true before (.replaced typed markup :: back) 0 (place + 1)
    rw [← Nat.add_assoc, ← inside, Nat.zero_add] at moved
    change _ ≤ typedOffset true (front ++ .replaced typed markup :: back) 0 span.stop
    rw [moved, typedOffset]
    simp only [Replacement.typedSpan, Span.ofText]
    split
    · next none => simp at none
    · split
      · exact Nat.le_refl _
      · exact le_typedOffset true back _ _

/-- What was typed for markup is a stored name with a mark of transposition. -/
theorem exists_identifier_of_replaced {tokens : List Token}
    (cut : ∃ offset text, Token.listFrom offset text = tokens) :
    ∀ typed markup, Segment.replaced typed markup ∈ segments ν store tokens →
      ∃ name mark tensor, (typed = name ++ mark ∧ IsMark mark ∧ store.get? name = some tensor ∧
        markup = tensor.transposedLatex ν) ∧ Token.isIdentifier name := by
  have behind {token : Token} {rest : List Token}
      (cut : ∃ offset text, Token.listFrom offset text = token :: rest) :
      ∃ offset text, Token.listFrom offset text = rest := by
    obtain ⟨offset, text, parts⟩ := cut
    obtain ⟨later, -, same⟩ := @Token.listFrom_of_append _ _ [token] _ parts
    exact ⟨_, later, same.symm⟩
  fun_induction segments ν store tokens with
  | case1 => simp
  | case2 token rest _ ih | case3 token rest _ _ _ ih =>
      intro typed markup member
      exact ih (behind cut) typed markup (by simpa using member)
  | case4 token rest tensor named after found mark ih =>
      obtain ⟨offset, text, rfl⟩ := behind cut
      obtain ⟨front, spelled, later, parts, same, marked, -, -, rfl⟩ :=
        exists_isMarkof_afterTranspose? found
      have typed : mark = front := by simp [mark, parts]
      obtain ⟨kind, known⟩ : token.kind = .name ∧ store.get? token.lexeme = some tensor := by
        split at named
        · exact ⟨‹_›, named⟩
        · cases named
      obtain ⟨place, source, whole⟩ := cut
      have identifier := Token.isIdentifier_lexeme (whole ▸ List.mem_cons_self ..) kind
      intro typed' markup member
      rcases List.mem_cons.mp member with here | further
      · obtain ⟨rfl, rfl⟩ := Segment.replaced.inj here
        exact ⟨token.lexeme, spelled, tensor, ⟨by rw [typed, same], marked, known, rfl⟩,
          identifier⟩
      · exact ih ⟨_, _, rfl⟩ _ _ further

theorem exists_of_replaced {tokens : List Token}
    (cut : ∃ offset text, Token.listFrom offset text = tokens) (typed markup : Text)
    (member : Segment.replaced typed markup ∈ segments ν store tokens) :
    ∃ name mark tensor, typed = name ++ mark ∧ IsMark mark ∧ store.get? name = some tensor ∧
      markup = tensor.transposedLatex ν := by
  obtain ⟨name, mark, tensor, replaced, -⟩ := exists_identifier_of_replaced cut typed markup member
  exact ⟨name, mark, tensor, replaced⟩

theorem Replacement.mem (replacement : Replacement pieces) :
    .replaced replacement.typed replacement.markup ∈ pieces := by
  obtain ⟨front, typed, markup, back, rfl⟩ := replacement
  simp

theorem Replacement.quotes (replacement : Replacement pieces) :
    replacement.typedSpan.Quotes (typedText pieces) replacement.typed ∧
      replacement.shownSpan.Quotes (shownText pieces) replacement.markup := by
  obtain ⟨front, typed, markup, back, rfl⟩ := replacement
  exact ⟨⟨typedText front, typedText back, by simp [typedText, Segment.typed], rfl⟩,
    shownText front, shownText back, by simp [shownText, Segment.shown], rfl⟩

/-! ## Whole formulas -/

/-- How regions of what is shown are traced back to what was typed. -/
structure Traced (pieces : List Segment) (source : Text) : Prop where
  /-- Regions go to regions. -/
  within : ∀ span, span.Within (shownText pieces) → (typedSpan pieces span).Within source
  /-- A region of kept text goes to the same text. -/
  kept : ∀ span, span.Within (shownText pieces) →
    (∀ replacement : Replacement pieces, ¬ span.Overlaps replacement.shownSpan) →
    ∃ text, span.Quotes (shownText pieces) text ∧ (typedSpan pieces span).Quotes source text
  /-- A region with some markup takes in all that was typed for the markup. -/
  replaced : ∀ (span : Span) (replacement : Replacement pieces),
    span.Overlaps replacement.shownSpan → (typedSpan pieces span).Contains replacement.typedSpan
  /-- Both texts of a replaced piece stand where the regions say. -/
  spelled : ∀ replacement : Replacement pieces,
    replacement.typedSpan.Quotes source replacement.typed ∧
      replacement.shownSpan.Quotes (shownText pieces) replacement.markup
  starts_mono : ∀ first second : Span, first.start ≤ second.start →
    (typedSpan pieces first).start ≤ (typedSpan pieces second).start
  stops_mono : ∀ first second : Span, first.stop ≤ second.stop →
    (typedSpan pieces first).stop ≤ (typedSpan pieces second).stop
  /-- The end goes to the end. -/
  ends : typedSpan pieces (.point (shownText pieces).byteSize) = .point source.byteSize

/-- The pieces may be any that are not empty in what is shown. -/
theorem traced_typedText (shown : ∀ piece ∈ pieces, piece.shown ≠ []) :
    Traced pieces (typedText pieces) where
  within _ := typedSpan_within shown
  kept span within apart := by
    obtain ⟨text, before, after, parts, rfl⟩ := within.exists_quotes
    obtain ⟨front, behind, spelled, first, last⟩ := exists_typed_of_apart shown parts apart 0
    rw [Nat.zero_add] at first last
    exact ⟨text, ⟨before, after, parts, rfl⟩, front, behind, spelled,
      congrArg₂ Span.mk first last⟩
  replaced _ := typedSpan_contains shown
  spelled := Replacement.quotes
  starts_mono _ _ := typedOffset_mono false pieces 0
  stops_mono _ _ := typedOffset_mono true pieces 0
  ends := typedSpan_prefix shown (List.prefix_refl pieces) (List.prefix_refl pieces)

/-- Every region of a formula with its values filled in is traced back to what was typed, and the
pieces that were replaced are the stored variables with a mark of transposition. -/
theorem regions_traced (ν : Type) [Numeral ν] (store : Store) (source : Text) :
    Traced (segmentsOf ν store source) source ∧
      ∀ replacement : Replacement (segmentsOf ν store source),
        ∃ name mark tensor, replacement.typed = name ++ mark ∧ IsMark mark ∧
          store.get? name = some tensor ∧ replacement.markup = tensor.transposedLatex ν := by
  have traced := traced_typedText (shown_ne_nil_of_segmentsOf ν store source)
  rw [typedText_segmentsOf] at traced
  exact ⟨traced, fun replacement => exists_of_replaced ⟨0, source, rfl⟩ _ _ replacement.mem⟩

/-- A region that starts in the markup of a transposed variable and ends behind the blank after
it is traced back to the variable with its mark and the blank. -/
theorem regions_traced_across :
    ∃ replacement : Replacement (segmentsOf ℚ Formula.letters "a ^T )é"),
      replacement.typed = "a ^T" ∧ (⟨20, 30⟩ : Span).Overlaps replacement.shownSpan ∧
        typedSpan (segmentsOf ℚ Formula.letters "a ^T )é") ⟨20, 30⟩ = ⟨0, 5⟩ ∧
        (typedSpan (segmentsOf ℚ Formula.letters "a ^T )é") ⟨20, 30⟩).Contains
          replacement.typedSpan := by
  let replacement : Replacement (segmentsOf ℚ Formula.letters "a ^T )é") :=
    ⟨[], "a ^T", Latex.matrix (.scalar ['x']), [.kept [' '], .kept [')'], .kept ['é']],
      by decide +kernel⟩
  have overlaps : (⟨20, 30⟩ : Span).Overlaps replacement.shownSpan := by decide +kernel
  exact ⟨replacement, rfl, overlaps, by decide +kernel,
    (regions_traced ℚ Formula.letters "a ^T )é").1.replaced _ replacement overlaps⟩

end Markup

end MatrixFormula
