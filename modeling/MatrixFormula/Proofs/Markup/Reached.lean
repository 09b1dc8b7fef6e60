import MatrixFormula.Proofs.Markup.Grammar
import MatrixFormula.Proofs.Markup.Remainder

/-!
# Places in a formula that is displayed

When a formula has been read up to a place, what was read is a stack of frames, and behind an
operand also a formula with its markup. Each token that may follow leads to another such place, or
the formula has a fault there.
-/

namespace MatrixFormula.Markup

open Descent

section Places

variable (style : NameStyle) (source : Text)

/-- The formula has been read up to a cursor, onto a stack of frames. -/
structure Reached (stack : List Frame) (operand? : Option Node) (cursor : Cursor) : Prop where
  whole : cursor.source = source
  comes : parse source = read (Text.byteSize source) stack operand? (words cursor)

/-- The formula has been read up to a cursor, behind an operand with the markup. -/
def Holds (stack : List Frame) (output : Text) (cursor : Cursor) : Prop :=
  ∃ node : Node, node.layout style = output ∧ Reached source stack (some node) cursor

/-- Nothing behind the cursor binds more tightly than the bound. -/
def Limited (bound : Nat) (cursor : Cursor) : Prop :=
  ∀ token, cursor.look? = some token → (Word.ofToken token.kind).reach ≤ bound

/-- The formula has been read behind an operand, and nothing behind it binds more tightly than the
bound. -/
structure Complete (bound : Nat) (stack : List Frame) (output : Text) (cursor : Cursor) : Prop where
  holds : Holds style source stack output cursor
  limited : Limited bound cursor

end Places

variable {style : NameStyle} {source : Text} {stack : List Frame} {operand? : Option Node}
  {operand : Node} {cursor : Cursor} {token : Token} {bound : Nat} {diagnostic : Diagnostic}

theorem Limited.mono {less : Nat} (limited : Limited less cursor) (looser : less ≤ bound) :
    Limited bound cursor :=
  fun token found => (limited token found).trans looser

/-- The word behind the cursor binds no more tightly than the bound. -/
theorem Limited.reach_le (limited : Limited bound cursor) :
    ∀ lexeme ∈ (words cursor).head?, lexeme.word.reach ≤ bound := by
  cases found : cursor.look? with
  | none => simp [words_of_look?_eq_none found]
  | some token =>
      obtain ⟨lexeme, rest, first, word⟩ := exists_words found
      rw [first]
      rintro _ ⟨⟩
      exact word ▸ limited token found

/-- Passing over blanks does not change what is next. -/
theorem limited_skipBlanks : Limited bound cursor.skipBlanks ↔ Limited bound cursor := by
  rw [Limited, Limited, Cursor.look?_skipBlanks]

/-- The formula has been read up to a cursor also when that is moved over blanks. -/
theorem Reached.skipBlanks (reached : Reached source stack operand? cursor) :
    Reached source stack operand? cursor.skipBlanks where
  whole := (Cursor.source_skipBlanks _).trans reached.whole
  comes := by rw [words_skipBlanks, reached.comes]

theorem Holds.skipBlanks {output : Text} (holds : Holds style source stack output cursor) :
    Holds style source stack output cursor.skipBlanks :=
  holds.imp fun _ ⟨same, reached⟩ => ⟨same, reached.skipBlanks⟩

/-! ## Places where an operand must follow -/

section Operand

variable (reached : Reached source stack none cursor)
include reached

/-- Where an operand must follow and nothing does, reading ends with that fault. -/
theorem Reached.missing (none : cursor.look? = none) :
    FaultOf (parse source) (.fault (cursor.report .unexpectedEnd)) := by
  refine .of_eq ?_
  rw [reached.comes, words_of_look?_eq_none none, read, Cursor.report_of_look?_eq_none none,
    reached.whole]

variable (found : cursor.look? = some token)
include found

/-- A number is an operand. -/
theorem Reached.number (kind : token.kind = .number) :
    Reached source stack (some (.number token.lexeme)) (cursor.pass token) where
  whole := (Cursor.source_pass ..).trans reached.whole
  comes := by
    rw [reached.comes, words_of_look? found (by simp [kind]), kind, read]
    rfl

/-- A name is an operand. -/
theorem Reached.name (kind : token.kind = .name) :
    Reached source stack (some (.name token.lexeme)) (cursor.pass token) where
  whole := (Cursor.source_pass ..).trans reached.whole
  comes := by
    rw [reached.comes, words_of_look? found (by simp [kind]), kind, read]
    rfl

/-- A backslash is an operand together with the rest of its block. -/
theorem Reached.block (kind : token.kind = .backslash) :
    Reached source stack (some (.block ('\\' :: (Block.cut (cursor.pass token).rest).1)))
      ((cursor.pass token).through (Block.cut (cursor.pass token).rest)) where
  whole := ((Cursor.source_through (Block.cut_append _)).trans (Cursor.source_pass ..)).trans
    reached.whole
  comes := by rw [reached.comes, words_of_backslash found kind, read]

/-- Behind an open parenthesis an operand must follow. -/
theorem Reached.opens (kind : token.kind = .openParen) :
    Reached source (.group token.span :: stack) none (cursor.pass token) where
  whole := (Cursor.source_pass ..).trans reached.whole
  comes := by
    rw [reached.comes, words_of_look? found (by simp [kind]), kind, read]
    rfl

/-- Behind a minus sign an operand must follow, where one is admitted. -/
theorem Reached.minus (kind : token.kind = .minus) (admits : stack.head?.all Frame.admitsMinus) :
    Reached source (.negation :: stack) none (cursor.pass token) where
  whole := (Cursor.source_pass ..).trans reached.whole
  comes := by
    rw [reached.comes, words_of_look? found (by simp [kind]), kind, read]
    exact if_pos admits

/-- Any other token is no operand, and neither is a minus sign where there must be none. -/
theorem Reached.unexpected (other : (Word.ofToken token.kind).startsAtom = false)
    (unsigned : token.kind = .minus → stack.head?.all Frame.admitsMinus = false) :
    FaultOf (parse source) (.fault ((Fault.unexpectedToken token.lexeme).located token.span)) := by
  have plain : token.kind ≠ .backslash := fun kind => by
    rw [kind] at other
    cases other
  refine .of_eq ?_
  rw [reached.comes, words_of_look? found plain, read]
  cases kind : token.kind
  all_goals rw [kind] at other
  case minus => simp only [Word.ofKind, unsigned kind, Bool.false_eq_true, if_false]
  case number | name | openParen | backslash => cases other
  all_goals rfl

end Operand

/-! ## Places behind an operand -/

/-- A frame takes in its operand in front of what does not bind more tightly. -/
theorem Reached.fill {frame : Frame}
    (reached : Reached source (frame :: stack) (some operand) cursor)
    (closed : 1 ≤ Pending.rank frame) (limited : Limited (Pending.rank frame) cursor) :
    Reached source stack (some (Pending.fill frame operand)) cursor where
  whole := reached.whole
  comes := by rw [reached.comes, read_fill closed limited.reach_le]

/-- A sign waits for its right operand. -/
theorem Reached.sign (reached : Reached source stack (some operand) cursor) (operator : Operator)
    (found : cursor.look? = some token) (sign : (Word.ofKind token.kind).operator? = some operator)
    (loose : Loose operator.rank stack) :
    Reached source (operator.frame operand :: stack) none (cursor.pass token) where
  whole := (Cursor.source_pass ..).trans reached.whole
  comes := by
    have plain : token.kind ≠ .backslash := fun kind => by rw [kind] at sign; cases sign
    have waits := @await_append stack operand operator [] nofun loose
    rw [List.nil_append] at waits
    rw [reached.comes, words_of_look? found plain, read_operator sign, waits]
    rfl

/-- An operand without a sign in front of it is the right operand of a product. -/
theorem Reached.juxtaposed (reached : Reached source stack (some operand) cursor)
    (found : cursor.look? = some token) (starts : (Word.ofToken token.kind).startsAtom)
    (loose : Loose 3 stack) :
    Reached source (.product operand :: stack) none cursor where
  whole := reached.whole
  comes := by
    obtain ⟨lexeme, rest, first, word⟩ := exists_words found
    have waits : awaitFactor operand ([] ++ stack) = _ :=
      @await_append stack operand .product [] nofun loose
    rw [List.nil_append] at waits
    rw [reached.comes, first, read_juxtaposed (word ▸ starts), waits]
    rfl

/-- A parenthesis closes the one that was opened last. -/
theorem Reached.closes {span : Span}
    (reached : Reached source (.group span :: stack) (some operand) cursor)
    (found : cursor.look? = some token) (kind : token.kind = .closeParen) :
    Reached source stack (some (.group operand)) (cursor.pass token) where
  whole := (Cursor.source_pass ..).trans reached.whole
  comes := by
    rw [reached.comes, words_of_look? found (by simp [kind]), kind, read]
    simp only [Word.ofKind, settle_group]

/-! ## Places behind an expression -/

section Whole

variable (limited : Limited 0 cursor)
include limited

/-- A parenthesis that is not closed is reported, whatever stands in place of the other one. -/
theorem Reached.unclosed {span : Span}
    (reached : Reached source (.group span :: stack) (some operand) cursor)
    (other : ∀ token, cursor.look? = some token → token.kind ≠ .closeParen) :
    FaultOf (parse source) (.fault (Fault.unclosedParenthesis.located span)) := by
  have halt (late : Diagnostic) : stopAt operand (.group span :: stack) late =
      Fault.unclosedParenthesis.located span := by
    rw [stopAt, settle_group]
  refine .of_eq ?_
  rw [reached.comes]
  cases found : cursor.look? with
  | none =>
      rw [words_of_look?_eq_none found, read, settle_group]
      simp only [halt]
  | some token =>
      have loose := limited token found
      have open_ := other token found
      have plain : token.kind ≠ .backslash := fun kind => by rw [kind] at loose; cases loose
      rw [words_of_look? found plain, read]
      cases kind : token.kind
      all_goals rw [kind] at loose
      case closeParen => exact absurd kind open_
      case blank | dot | symbol => exact congrArg _ (halt _)
      all_goals exact absurd loose (by decide)

/-- Nothing may follow a whole formula. -/
theorem Reached.whole_formula (reached : Reached source [] (some operand) cursor) :
    (cursor.expectEnd = .ok () → parse source = .ok operand) ∧
      ∀ diagnostic, cursor.expectEnd = .error diagnostic →
        FaultOf (parse source) (.fault diagnostic) := by
  rw [Cursor.expectEnd]
  cases found : cursor.look? with
  | none =>
      have nothing := (Cursor.visible_of_look?_eq_none found).1
      rw [nothing]
      refine ⟨fun _ => ?_, by rintro _ ⟨⟩⟩
      rw [reached.comes, words_of_look?_eq_none found, read]
      rfl
  | some token =>
      obtain ⟨char, rest, behind, -, same, -⟩ := Cursor.exists_of_look? found
      rw [behind]
      refine ⟨by rintro ⟨⟩, fun diagnostic failed => ?_⟩
      cases failed
      have loose := limited token found
      have plain : token.kind ≠ .backslash := fun kind => by rw [kind] at loose; cases loose
      have report : trailing (Text.byteSize source)
          ⟨.ofKind token.kind, token.lexeme, token.span⟩ =
          (Fault.trailingText [char]).located ⟨cursor.skipBlanks.offset, cursor.endSpan.stop⟩ := by
        rw [same, Cursor.endSpan, reached.whole]
        rfl
      refine .of_eq ?_
      rw [reached.comes, words_of_look? found plain, ← report, read]
      cases kind : token.kind
      all_goals rw [kind] at loose
      case blank | dot | symbol | closeParen => rfl
      all_goals exact absurd loose (by decide)

end Whole

end MatrixFormula.Markup
