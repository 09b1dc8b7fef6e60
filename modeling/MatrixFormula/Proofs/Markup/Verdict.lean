import MatrixFormula.Markup.Reading

/-!
# Whether a displayed formula can be read

Whether words make a formula, and otherwise where they stop making sense, depends on little of
what was read before: on the parentheses that are open, and on what may follow next. The verdict
keeps just that in place of the stack.
-/

namespace MatrixFormula.Markup

/-- What may follow the words that were read. -/
inductive Place where
  /-- An operand, which may start with a minus sign only if `signed` holds. -/
  | operand (signed : Bool)
  /-- Whatever may stand behind an operand. -/
  | behind
deriving DecidableEq, Repr

/-- The fault where a formula does not go on: the nearest parenthesis that was left open, or
else the given one. -/
def halt (opened : List Span) (diagnostic : Diagnostic) : Diagnostic :=
  match opened with
  | [] => diagnostic
  | span :: _ => Fault.unclosedParenthesis.located span

/-- Whether words can be read, when the given parentheses are open, nearest first. -/
def verdict (stop : Nat) : List Span → Place → List Lexeme → Except Diagnostic Unit
  | _, .operand _, [] => .error (Fault.unexpectedEnd.located (.point stop))
  | opened, .operand signed, lexeme :: rest =>
      match lexeme.word with
      | .number | .name | .block => verdict stop opened .behind rest
      | .openParen => verdict stop (lexeme.span :: opened) (.operand true) rest
      | .minus =>
          if signed then verdict stop opened (.operand true) rest
          else .error ((Fault.unexpectedToken lexeme.text).located lexeme.span)
      | _ => .error ((Fault.unexpectedToken lexeme.text).located lexeme.span)
  | opened, .behind, [] =>
      match opened with
      | [] => .ok ()
      | span :: _ => .error (Fault.unclosedParenthesis.located span)
  | opened, .behind, lexeme :: rest =>
      match lexeme.word with
      | .equals | .plus | .minus | .times => verdict stop opened (.operand true) rest
      | .slash | .caret => verdict stop opened (.operand false) rest
      | .number | .name | .block => verdict stop opened .behind rest
      | .openParen => verdict stop (lexeme.span :: opened) (.operand true) rest
      | .closeParen =>
          match opened with
          | [] => .error (trailing stop lexeme)
          | _ :: outer => verdict stop outer .behind rest
      | .stray => .error (halt opened (trailing stop lexeme))

/-- The parentheses that a stack waits to be closed, nearest first. -/
def opened (stack : List Frame) : List Span :=
  stack.filterMap fun
    | .group span => some span
    | _ => none

/-- What may follow when a stack waits, possibly with a last operand. -/
def place (stack : List Frame) : Option Node → Place
  | none => .operand (stack.head?.all Frame.admitsMinus)
  | some _ => .behind

/-- Whether there is a result, or why not. -/
def judged {α : Type} (result : Except Diagnostic α) : Except Diagnostic Unit :=
  result.map fun _ => ()

variable {stack : List Frame} {operand : Node}

/-- Operands are settled inside the nearest parenthesis. -/
theorem opened_settle {least : Nat} (inside : 1 ≤ least) (operand : Node) (stack : List Frame) :
    opened (Pending.settle least operand stack).2 = opened stack := by
  induction stack generalizing operand with
  | nil => rfl
  | cons frame stack ih =>
      rw [Pending.settle]
      split
      · next tight =>
          rw [ih]
          cases frame with
          | group => exact absurd (Nat.le_trans inside tight) (by simp [Pending.rank])
          | _ => rfl
      · rfl

theorem opened_await {operator : Node → Frame} {least : Nat} (inside : 1 ≤ least)
    (joins : ∀ left below, opened (operator left :: below) = opened below) (operand : Node)
    (stack : List Frame) :
    opened (Pending.await operator least operand stack) = opened stack := by
  rw [Pending.await, joins, opened_settle inside]

/-- Behind a whole expression there is an open parenthesis or nothing. -/
theorem settle_one (operand : Node) (stack : List Frame) :
    (opened stack = [] ∧ ∃ whole, Pending.settle 1 operand stack = (whole, [])) ∨
      ∃ whole span below, Pending.settle 1 operand stack = (whole, .group span :: below) ∧
        opened stack = span :: opened below := by
  have kept := opened_settle (Nat.le_refl 1) operand stack
  cases settled : Pending.settle 1 operand stack with
  | mk whole below =>
      rw [settled] at kept
      cases below with
      | nil => exact .inl ⟨kept.symm, whole, rfl⟩
      | cons frame below =>
          obtain ⟨span, rfl⟩ := group_of_settle settled
          exact .inr ⟨whole, span, below, rfl, kept.symm⟩

theorem stopAt_eq_halt (diagnostic : Diagnostic) :
    stopAt operand stack diagnostic = halt (opened stack) diagnostic := by
  rw [stopAt]
  rcases settle_one operand stack with
    ⟨closed, whole, settled⟩ | ⟨whole, span, below, settled, same⟩
  · rw [settled, closed]
    rfl
  · rw [settled, same]
    rfl

/-- Reading words succeeds, or stops with a fault, as the verdict says. -/
theorem judged_read (stop : Nat) (stack : List Frame) (operand? : Option Node)
    (words : List Lexeme) :
    judged (read stop stack operand? words) =
      verdict stop (opened stack) (place stack operand?) words := by
  induction words generalizing stack operand? with
  | nil =>
      cases operand? with
      | none => rfl
      | some operand =>
          rw [read, place]
          rcases settle_one operand stack with
            ⟨closed, whole, settled⟩ | ⟨whole, span, below, settled, same⟩
          · rw [settled, closed]
            rfl
          · rw [settled, same, stopAt_eq_halt, same]
            rfl
  | cons lexeme rest ih =>
      obtain ⟨word, text, span⟩ := lexeme
      cases operand? with
      | none =>
          rw [place]
          cases word with
          | number | name | block | openParen => exact ih _ _
          | minus =>
              simp only [read, verdict]
              split
              · exact ih _ _
              · rfl
          | _ => rfl
      | some operand =>
          have waits {operator : Node → Frame} {least : Nat} (inside : 1 ≤ least)
              (joins : ∀ left below, opened (operator left :: below) = opened below) :
              opened (Pending.await operator least operand stack) = opened stack :=
            opened_await inside joins operand stack
          have factor : opened (awaitFactor operand stack) = opened stack :=
            waits (by decide) fun _ _ => rfl
          rw [place]
          cases word with
          | equals | plus | minus | slash =>
              simp only [read, verdict]
              rw [ih, waits (by decide) fun _ _ => rfl]
              rfl
          | number | name | block | times =>
              simp only [read, verdict]
              rw [ih, factor]
              rfl
          | openParen =>
              simp only [read, verdict]
              rw [ih, ← factor]
              rfl
          | caret =>
              simp only [read, verdict]
              exact ih _ _
          | closeParen =>
              simp only [read, verdict]
              rcases settle_one operand stack with
                ⟨closed, whole, settled⟩ | ⟨whole, open_, below, settled, same⟩
              · rw [settled, closed, stopAt_eq_halt, closed]
                rfl
              · rw [settled, same]
                exact ih _ _
          | stray =>
              simp only [read, verdict, stopAt_eq_halt]
              rfl

/-- Whether a formula can be displayed does not depend on how its names are written. -/
theorem judged_render (style : NameStyle) (source : Text) :
    judged (render style source) =
      verdict (Text.byteSize source) [] (.operand true) (lexemes 0 source) := by
  have read := judged_read (Text.byteSize source) [] none (lexemes 0 source)
  rw [render, parse]
  generalize Markup.read (Text.byteSize source) [] none (lexemes 0 source) = result at read ⊢
  cases result <;> exact read

end MatrixFormula.Markup
