import MatrixFormula.Formula.Value
import MatrixFormula.Proofs.Outcome

/-!
# Which formulas can be read

Whether a formula can be read to its end depends on how many parentheses are open and on whether
an operand was just read. A formula that has a value was read to its end.
-/

namespace MatrixFormula.Formula

/-- Whether words can be read to their end, with a number of open parentheses, from behind an
operand or from a place where an operand must follow. -/
def accepts : Nat → Bool → List Lexeme → Bool
  | _, false, [] => false
  | depth, false, lexeme :: rest =>
      match lexeme.word with
      | .number | .name => accepts depth true rest
      | .minus => accepts depth false rest
      | .openParen => accepts (depth + 1) false rest
      | _ => false
  | depth, true, [] => depth == 0
  | depth, true, lexeme :: rest =>
      match lexeme.word with
      | .plus | .minus | .times | .slash => accepts depth false rest
      | .number | .name | .caret (.transpose _) => accepts depth true rest
      | .openParen => accepts (depth + 1) false rest
      | .closeParen =>
          match depth with
          | 0 => false
          | outer + 1 => accepts outer true rest
      | _ => false

/-- The number of parentheses that a stack waits to be closed. -/
def depth (stack : List Frame) : Nat := stack.countP fun frame => Pending.rank frame == 0

variable {stack : List Frame} {operand : Expr}

/-- Operands are settled inside the nearest parenthesis. -/
theorem depth_settle {least : Nat} (inside : 1 ≤ least) (operand : Expr) (stack : List Frame) :
    depth (Pending.settle least operand stack).2 = depth stack := by
  induction stack generalizing operand with
  | nil => rfl
  | cons frame stack ih =>
      rw [Pending.settle]
      split
      · next tight =>
          have bound : Pending.rank frame ≠ 0 := by omega
          rw [ih, depth, depth, List.countP_cons_of_neg (by simpa using bound)]
      · rfl

theorem depth_await (operator : Operator) (sign? : Option Span) (operand : Expr)
    (stack : List Frame) : depth (await operator sign? operand stack) = depth stack := by
  have bound : 1 ≤ operator.rank := by cases operator <;> decide
  have binary (left : Expr) : (Pending.rank (Frame.binary left operator sign?) == 0) = false :=
    beq_eq_false_iff_ne.mpr (Nat.ne_of_gt bound)
  rw [await, Pending.await, ← depth_settle bound operand stack, depth,
    List.countP_cons_of_neg (by simp [binary])]
  rfl

/-- Behind a whole expression there is an open parenthesis or nothing. -/
theorem settle_one (operand : Expr) (stack : List Frame) :
    (depth stack = 0 ∧ ∃ whole, Pending.settle 1 operand stack = (whole, [])) ∨
      ∃ whole span below, Pending.settle 1 operand stack = (whole, .group span :: below) ∧
        depth stack = depth below + 1 := by
  have kept := depth_settle (Nat.le_refl 1) operand stack
  cases settled : Pending.settle 1 operand stack with
  | mk whole below =>
      rw [settled] at kept
      cases below with
      | nil => exact .inl ⟨kept.symm, whole, rfl⟩
      | cons frame below =>
          have loose := Pending.rank_lt_of_settle settled
          cases frame with
          | group span =>
              refine .inr ⟨whole, span, below, rfl, ?_⟩
              rw [← kept, depth, List.countP_cons_of_pos (by rfl)]
              rfl
          | negation => exact absurd loose (by simp [Pending.rank])
          | binary _ operator =>
              exact absurd loose (by cases operator <;> simp [Pending.rank, Operator.rank])

/-- Reading words succeeds exactly when they are accepted. -/
theorem isOk_read (stop : Nat) (stack : List Frame) (operand? : Option Expr)
    (words : List Lexeme) :
    (read stop stack operand? words).isOk = accepts (depth stack) operand?.isSome words := by
  induction words generalizing stack operand? with
  | nil =>
      cases operand? with
      | none => rfl
      | some operand =>
          rw [read, Option.isSome_some, accepts]
          rcases settle_one operand stack with
            ⟨closed, whole, settled⟩ | ⟨whole, span, below, settled, deeper⟩
          · rw [settled, closed]
            rfl
          · rw [settled, deeper]
            rfl
  | cons lexeme rest ih =>
      obtain ⟨word, text, span⟩ := lexeme
      cases operand? with
      | none =>
          cases word with
          | number | name | minus => exact ih _ _
          | openParen =>
              have inner := ih (.group span :: stack) none
              rwa [depth, List.countP_cons_of_pos (by rfl)] at inner
          | _ => rfl
      | some operand =>
          cases word with
          | plus | minus | times | slash | number | name =>
              simp only [read, accepts, Option.isSome_some]
              rw [ih, depth_await]
              rfl
          | openParen =>
              have inner := ih (.group span :: await .mul none operand stack) none
              rw [depth, List.countP_cons_of_pos (by rfl)] at inner
              simp only [read, accepts, Option.isSome_some]
              rw [inner, ← depth_await .mul none operand stack]
              rfl
          | closeParen =>
              simp only [read, accepts, Option.isSome_some]
              rcases settle_one operand stack with
                ⟨closed, whole, settled⟩ | ⟨whole, open_, below, settled, deeper⟩
              · rw [settled, closed]
                rfl
              · rw [settled, deeper]
                exact ih _ _
          | caret exponent =>
              cases exponent with
              | transpose => exact ih _ _
              | _ => rfl
          | stray => rfl

variable (ν : Type) [Numeral ν]

/-- A formula with a value is read to an expression with that value. -/
theorem exists_parse_of_evaluate {store : Store} {source : Text} {grid : Grid Text}
    (done : evaluate ν store source = .ok grid) :
    ∃ expr, parse store source = .ok expr ∧ expr.value ν store = .ok grid := by
  rw [evaluate] at done
  split at done
  · next expr read => exact ⟨expr, read, done⟩
  -- The operands that were complete may have values, but what follows them is a fault.
  · obtain ⟨_, -, failed⟩ := exists_of_bind_eq_ok done
    cases failed

/-- A formula that has a value was read to its end. -/
theorem accepts_of_evaluate {store : Store} {source : Text} {grid : Grid Text}
    (done : evaluate ν store source = .ok grid) : accepts 0 false (lexemes store 0 source) := by
  obtain ⟨expr, outcome, -⟩ := exists_parse_of_evaluate ν done
  have read := isOk_read (Text.byteSize source) [] none (lexemes store 0 source)
  rw [parse] at outcome
  rw [outcome] at read
  exact read.symm

end MatrixFormula.Formula
