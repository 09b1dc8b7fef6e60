import MatrixFormula.Proofs.Formula.Descent
import MatrixFormula.Proofs.Formula.Remainder

/-!
# Places in a formula that is evaluated

When a formula has been read up to a place, what was read is a stack of frames, and behind an
operand also an expression with a value. Each token that may follow leads to another such place, or
the formula has a fault there.
-/

namespace MatrixFormula

/-- How tightly a token binds to what is in front of it, when it may go on with an expression. -/
def Token.Kind.reach : Token.Kind → Nat
  | .plus | .minus => 1
  | .times | .dot | .slash | .number | .name | .openParen => 2
  | .caret => 4
  | _ => 0

namespace Formula

open Descent Trail

variable (ν : Type) [Numeral ν] (store : Store) (source : Text)

/-- The formula has been read up to a cursor, onto a stack of frames with complete operands. -/
structure Reached (stack : List Frame) (operand? : Option Expr) (cursor : Cursor) : Prop where
  whole : cursor.source = source
  valued : Valued ν store (completed stack)
  comes : evaluate ν store source =
    conclude ν store (read (Text.byteSize source) stack operand? (words store cursor))

/-- The expression has the value and the region of the operand. -/
structure Stands (expr : Expr) (operand : Operand) : Prop where
  value : expr.value ν store = .ok operand.grid
  span : expr.span = operand.span

/-- The formula has been read up to a cursor, behind an operand. -/
def Holds (stack : List Frame) (operand : Operand) (cursor : Cursor) : Prop :=
  ∃ expr, Stands ν store expr operand ∧ Reached ν store source stack (some expr) cursor

/-- Nothing behind the cursor binds more tightly than the bound. -/
def Bound (bound : Nat) (cursor : Cursor) : Prop :=
  ∀ token, cursor.look? = some token → token.kind.reach ≤ bound

/-- The formula has been read behind an operand, and nothing behind it binds more tightly than the
bound. -/
structure Settled (bound : Nat) (stack : List Frame) (operand : Operand) (cursor : Cursor) :
    Prop where
  holds : Holds ν store source stack operand cursor
  bounded : Bound bound cursor

variable {ν store source} {stack : List Frame} {cursor : Cursor} {token : Token} {expr : Expr}
  {operand : Operand} {bound : Nat}

/-! ## Places where an operand must follow -/

/-- A formula has been read up to a cursor also when that is moved over blanks. -/
theorem Reached.skipBlanks {operand? : Option Expr}
    (reached : Reached ν store source stack operand? cursor) :
    Reached ν store source stack operand? cursor.skipBlanks where
  whole := (Cursor.source_skipBlanks _).trans reached.whole
  valued := reached.valued
  comes := by rw [words_skipBlanks, reached.comes]

theorem Holds.skipBlanks (holds : Holds ν store source stack operand cursor) :
    Holds ν store source stack operand cursor.skipBlanks :=
  holds.imp fun _ ⟨stands, reached⟩ => ⟨stands, reached.skipBlanks⟩

section Operand

variable (reached : Reached ν store source stack none cursor)
include reached

/-- Where an operand must follow and nothing does, evaluation ends with that fault. -/
theorem Reached.missing (none : cursor.look? = none) :
    FaultOf (evaluate ν store source) (.fault (cursor.report .unexpectedEnd)) := by
  refine .of_eq ?_
  rw [reached.comes, words_of_look?_eq_none none, read, conclude_valued reached.valued,
    Cursor.report_of_look?_eq_none none, reached.whole]

variable (found : cursor.look? = some token)
include found

/-- A number is an operand. -/
theorem Reached.number (kind : token.kind = .number) :
    Reached ν store source stack (some (.number token.lexeme token.span)) (cursor.pass token) where
  whole := (Cursor.source_pass ..).trans reached.whole
  valued := reached.valued
  comes := by
    rw [reached.comes, words_of_look? found (by simp [kind]), kind, read]
    rfl

/-- A name is an operand, or starts with one. -/
theorem Reached.name (kind : token.kind = .name) :
    Reached ν store source stack
      (some (.name (leadingName store token.lexeme)
        (.ofText token.span.start (leadingName store token.lexeme))))
      ((cursor.pass token).moveTo
        (token.span.start + (leadingName store token.lexeme).byteSize)) where
  whole := ((Cursor.source_moveTo ..).trans (Cursor.source_pass ..)).trans reached.whole
  valued := reached.valued
  comes := by rw [reached.comes, words_of_name found kind, read]

/-- Behind a minus sign an operand must follow. -/
theorem Reached.minus (kind : token.kind = .minus) :
    Reached ν store source (.negation token.span.start :: stack) none (cursor.pass token) where
  whole := (Cursor.source_pass ..).trans reached.whole
  valued := by simpa [completed_cons] using reached.valued
  comes := by
    rw [reached.comes, words_of_look? found (by simp [kind]), kind, read]
    rfl

/-- Behind an open parenthesis an operand must follow. -/
theorem Reached.opens (kind : token.kind = .openParen) :
    Reached ν store source (.group token.span :: stack) none (cursor.pass token) where
  whole := (Cursor.source_pass ..).trans reached.whole
  valued := by simpa [completed_cons] using reached.valued
  comes := by
    rw [reached.comes, words_of_look? found (by simp [kind]), kind, read]
    rfl

/-- Any other token is no operand. -/
theorem Reached.unexpected (other : token.kind ≠ .number ∧ token.kind ≠ .name ∧
    token.kind ≠ .minus ∧ token.kind ≠ .openParen) :
    FaultOf (evaluate ν store source)
      (.fault ((Fault.unexpectedToken token.lexeme).located token.span)) := by
  refine .of_eq ?_
  obtain ⟨number, name, minus, opens⟩ := other
  by_cases caret : token.kind = .caret
  · rw [reached.comes, words_of_caret found caret, read, conclude_valued reached.valued]
  · rw [reached.comes, words_of_look? found ⟨name, caret⟩, read]
    cases kind : token.kind
    case number | name | minus | openParen | caret => contradiction
    all_goals exact conclude_valued reached.valued

end Operand

/-! ## Places behind an operand -/

/-- The word behind the cursor binds no more tightly than the bound. -/
theorem Bound.reach_le (bounded : Bound bound cursor) :
    ∀ lexeme ∈ (words store cursor).head?, lexeme.word.reach ≤ bound := by
  cases found : cursor.look? with
  | none => simp [words_of_look?_eq_none found]
  | some token =>
      have tight := bounded token found
      by_cases name : token.kind = .name
      · rw [words_of_name found name]
        rintro _ ⟨⟩
        rwa [name] at tight
      · by_cases caret : token.kind = .caret
        · rw [words_of_caret found caret]
          rintro _ ⟨⟩
          rwa [caret] at tight
        · rw [words_of_look? found ⟨name, caret⟩]
          rintro _ ⟨⟩
          cases kind : token.kind
          all_goals rw [kind] at tight
          case caret => exact absurd kind caret
          all_goals exact tight

section Behind

variable {grid : Grid Text} {diagnostic : Diagnostic}

/-- A frame takes in its operand in front of what does not bind more tightly. -/
theorem Reached.fill {frame : Frame}
    (reached : Reached ν store source (frame :: stack) (some expr) cursor)
    (closed : 1 ≤ Pending.rank frame) (bounded : Bound (Pending.rank frame) cursor) :
    Reached ν store source stack (some (Pending.fill frame expr)) cursor where
  whole := reached.whole
  valued := by
    have valued := reached.valued
    rw [completed_cons] at valued
    exact valued.left
  comes := by rw [reached.comes, read_fill closed bounded.reach_le]

variable (reached : Reached ν store source stack (some expr) cursor)
include reached

/-- An operand without a value is what the formula fails for. -/
theorem Reached.spoiled (failed : expr.value ν store = .error diagnostic) :
    FaultOf (evaluate ν store source) (.fault diagnostic) := by
  refine .of_eq ?_
  rw [reached.comes]
  exact conclude_read_spoiled _
    (spoiled_append_iff.mpr (.inr ⟨reached.valued, spoiled_singleton_iff.mpr failed⟩))

variable (value : expr.value ν store = .ok grid)
include value

/-- A sign waits for its right operand. -/
theorem Reached.sign {operator : Operator} (found : cursor.look? = some token)
    (sign : (Word.ofKind token.kind).operator? = some operator)
    (loose : Loose operator.rank stack) :
    Reached ν store source (.binary expr operator (some token.span) :: stack) none
      (cursor.pass token) where
  whole := (Cursor.source_pass ..).trans reached.whole
  valued := by
    rw [completed_cons]
    exact reached.valued.concat value
  comes := by
    have whole : token.kind ≠ .name ∧ token.kind ≠ .caret := by
      constructor <;> intro kind <;> rw [kind] at sign <;> cases sign
    have waits : await operator (some token.span) expr ([] ++ stack) = _ :=
      await_append nofun loose
    rw [List.nil_append] at waits
    rw [reached.comes, words_of_look? found whole, read_operator sign, waits]
    rfl

/-- An operand without a sign in front of it is the right operand of a product. -/
theorem Reached.juxtaposed (found : cursor.look? = some token)
    (starts : token.kind.startsOperand) (loose : Loose 2 stack) :
    Reached ν store source (.binary expr .mul none :: stack) none cursor where
  whole := reached.whole
  valued := by
    rw [completed_cons]
    exact reached.valued.concat value
  comes := by
    obtain ⟨lexeme, rest, first, power⟩ :
        ∃ lexeme rest, words store cursor = lexeme :: rest ∧ lexeme.word.startsPower := by
      cases kind : token.kind <;> rw [kind] at starts <;> try cases starts
      · exact ⟨_, _, words_of_look? found (by simp [kind]), by rw [kind]; rfl⟩
      · exact ⟨_, _, words_of_name found kind, rfl⟩
      · exact ⟨_, _, words_of_look? found (by simp [kind]), by rw [kind]; rfl⟩
    have waits : await .mul none expr ([] ++ stack) = _ := await_append nofun loose
    rw [List.nil_append] at waits
    rw [reached.comes, first, read_juxtaposed power, waits]
    rfl

omit value in
/-- The mark of transposition belongs to the operand in front of it. -/
theorem Reached.transpose {mark : Char} {after : Text} (found : cursor.look? = some token)
    (kind : token.kind = .caret) (behind : (cursor.pass token).skipBlanks.rest = mark :: after)
    (marks : isTransposeMark mark) :
    Reached ν store source stack
      (some (.transpose expr ((cursor.pass token).skipBlanks.advance 1).offset))
      ((cursor.pass token).skipBlanks.advance 1) where
  whole := by
    rw [Cursor.source_advance, Cursor.source_skipBlanks, Cursor.source_pass, reached.whole]
  valued := reached.valued
  comes := by rw [reached.comes, words_of_transpose found kind behind marks, read]

/-- Another exponent is not supported. -/
theorem Reached.unsupported {other : Token} (found : cursor.look? = some token)
    (kind : token.kind = .caret) (next : (cursor.pass token).look? = some other)
    (unmarked : ∀ mark ∈ other.lexeme.head?, isTransposeMark mark = false) :
    FaultOf (evaluate ν store source)
      (.fault ((Fault.unsupportedExponent other.lexeme).located other.span)) := by
  refine .of_eq ?_
  rw [reached.comes, words_of_unsupported found kind next unmarked, read]
  exact conclude_valued (reached.valued.concat value)

/-- An exponent is missing at the end of the formula. -/
theorem Reached.missing_exponent (found : cursor.look? = some token) (kind : token.kind = .caret)
    (behind : (cursor.pass token).skipBlanks.rest = []) :
    FaultOf (evaluate ν store source) (.fault ((cursor.pass token).report .unexpectedEnd)) := by
  have none : (cursor.pass token).look? = none := Token.first?_eq_none_iff.mpr behind
  refine .of_eq ?_
  rw [reached.comes, words_of_missing found kind behind, read,
    Cursor.report_of_look?_eq_none none, Cursor.offset_of_look?_eq_none none]
  exact conclude_valued (reached.valued.concat value)

end Behind

/-- A parenthesis closes the one that was opened last. -/
theorem Reached.closes {span : Span}
    (reached : Reached ν store source (.group span :: stack) (some expr) cursor)
    (found : cursor.look? = some token) (kind : token.kind = .closeParen) :
    Reached ν store source stack (some (.group (span.through token.span) expr))
      (cursor.pass token) where
  whole := (Cursor.source_pass ..).trans reached.whole
  valued := completed_group span stack ▸ reached.valued
  comes := by
    rw [reached.comes, words_of_look? found (by simp [kind]), kind, read]
    simp only [Word.ofKind, settle_group]

/-! ## Places behind an expression -/

section Whole

variable {grid : Grid Text} {diagnostic : Diagnostic} (bounded : Bound 0 cursor)
include bounded

/-- A parenthesis that is not closed is reported, whatever stands in place of the other one. -/
theorem Reached.unclosed {span : Span}
    (reached : Reached ν store source (.group span :: stack) (some expr) cursor)
    (value : expr.value ν store = .ok grid)
    (other : ∀ token, cursor.look? = some token → token.kind ≠ .closeParen) :
    FaultOf (evaluate ν store source) (.fault (Fault.unclosedParenthesis.located span)) := by
  have halt (late : Diagnostic) :
      conclude ν store (.error (stopAt expr (.group span :: stack) late)) =
        .error (Fault.unclosedParenthesis.located span) := by
    rw [stopAt, settle_group]
    refine conclude_valued (Valued.concat ?_ value)
    exact completed_group span stack ▸ reached.valued
  refine .of_eq ?_
  rw [reached.comes]
  cases found : cursor.look? with
  | none =>
      rw [words_of_look?_eq_none found, read, settle_group]
      exact halt _
  | some token =>
      have loose := bounded token found
      have open_ := other token found
      have whole : token.kind ≠ .name ∧ token.kind ≠ .caret := by
        constructor <;> intro kind <;> rw [kind] at loose <;> cases loose
      rw [words_of_look? found whole, read]
      cases kind : token.kind
      all_goals rw [kind] at loose
      case closeParen => exact absurd kind open_
      case blank | equals | backslash | symbol => exact halt _
      all_goals exact absurd loose (by decide)

/-- Nothing may follow a whole formula. -/
theorem Reached.whole_formula (reached : Reached ν store source [] (some expr) cursor)
    (value : expr.value ν store = .ok grid) :
    (cursor.expectEnd = .ok () → evaluate ν store source = .ok grid) ∧
      ∀ diagnostic, cursor.expectEnd = .error diagnostic →
        FaultOf (evaluate ν store source) (.fault diagnostic) := by
  rw [Cursor.expectEnd]
  cases found : cursor.look? with
  | none =>
      have nothing := (Cursor.visible_of_look?_eq_none found).1
      rw [nothing]
      refine ⟨fun _ => ?_, by rintro _ ⟨⟩⟩
      rw [reached.comes, words_of_look?_eq_none found, read]
      exact value
  | some token =>
      obtain ⟨char, rest, behind, -, same, -⟩ := Cursor.exists_of_look? found
      rw [behind]
      refine ⟨by rintro ⟨⟩, fun diagnostic failed => ?_⟩
      cases failed
      have loose := bounded token found
      have whole : token.kind ≠ .name ∧ token.kind ≠ .caret := by
        constructor <;> intro kind <;> rw [kind] at loose <;> cases loose
      have report : trailing (Text.byteSize source)
          ⟨.ofKind token.kind, token.lexeme, token.span⟩ =
          (Fault.trailingText [char]).located ⟨cursor.skipBlanks.offset, cursor.endSpan.stop⟩ := by
        rw [same, Cursor.endSpan, reached.whole]
        rfl
      refine .of_eq ?_
      rw [reached.comes, words_of_look? found whole, ← report, read]
      cases kind : token.kind
      all_goals rw [kind] at loose
      case blank | equals | backslash | symbol | closeParen =>
        exact conclude_valued (Valued.concat reached.valued value)
      all_goals exact absurd loose (by decide)

end Whole

end Formula

end MatrixFormula
