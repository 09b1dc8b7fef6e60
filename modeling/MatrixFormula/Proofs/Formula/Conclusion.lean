import MatrixFormula.Formula.Value
import MatrixFormula.Proofs.Formula.Grammar

/-!
# What reading comes to

A formula is evaluated after it has been read. The outcome is the same when an operand is settled
early, where the word behind it leaves no choice, and it is the fault of an operand as soon as all
operands in front of that one have values.
-/

namespace MatrixFormula.Formula

section Conclusion

variable (ν : Type) [Numeral ν] (store : Store)

/-- What a formula comes to when it has been read. -/
def conclude : Except Stop Expr → Except Diagnostic (Grid Text)
  | .ok expr => expr.value ν store
  | .error stop => do
      discard (stop.completed.mapM (Expr.value ν store))
      .error stop.diagnostic

/-- A formula is evaluated after it has been read. -/
theorem evaluate_eq_conclude (source : Text) :
    evaluate ν store source = conclude ν store (parse store source) := by
  unfold evaluate conclude
  rfl

end Conclusion

variable {ν : Type} [Numeral ν] {store : Store} {stop : Nat} {stack : List Frame}
  {operand : Expr} {diagnostic : Diagnostic} {grid : Grid Text} {exprs others : List Expr}

/-- All of the expressions have values. -/
def Valued (ν : Type) [Numeral ν] (store : Store) (exprs : List Expr) : Prop :=
  ∃ grids, exprs.mapM (Expr.value ν store) = .ok grids

/-- Some of the expressions have no value, and the first one that has none has the fault. -/
def Spoiled (ν : Type) [Numeral ν] (store : Store) (exprs : List Expr) (diagnostic : Diagnostic) :
    Prop :=
  exprs.mapM (Expr.value ν store) = .error diagnostic

/-- Expressions in a row are spoiled by the first ones, or by those behind when the first ones have
values. -/
theorem spoiled_append_iff : Spoiled ν store (exprs ++ others) diagnostic ↔
    Spoiled ν store exprs diagnostic ∨
      Valued ν store exprs ∧ Spoiled ν store others diagnostic := by
  rw [Spoiled, Spoiled, Spoiled, Valued, List.mapM_append]
  cases exprs.mapM (Expr.value ν store) with
  | error => simp [bind, Except.bind]
  | ok grids =>
      cases others.mapM (Expr.value ν store) <;> simp [bind, Except.bind, pure, Except.pure]

/-- A single expression is spoiled by its own fault. -/
theorem spoiled_singleton_iff :
    Spoiled ν store [operand] diagnostic ↔ operand.value ν store = .error diagnostic := by
  rw [Spoiled, List.mapM_cons, List.mapM_nil]
  cases operand.value ν store <;> simp [bind, Except.bind, pure, Except.pure]

/-- Expressions have values when one more with a value is put behind them. -/
theorem Valued.concat (valued : Valued ν store exprs) (value : operand.value ν store = .ok grid) :
    Valued ν store (exprs ++ [operand]) := by
  obtain ⟨grids, values⟩ := valued
  exact ⟨grids ++ [grid], by rw [List.mapM_append, values, List.mapM_cons, value]; rfl⟩

/-- The first ones among expressions with values have values. -/
theorem Valued.left (valued : Valued ν store (exprs ++ others)) : Valued ν store exprs := by
  obtain ⟨grids, values⟩ := valued
  cases first : exprs.mapM (Expr.value ν store) with
  | ok left => exact ⟨left, first⟩
  | error diagnostic =>
      have failed : Spoiled ν store (exprs ++ others) diagnostic :=
        spoiled_append_iff.mpr (.inl first)
      rw [Spoiled, values] at failed
      cases failed

/-- Faults of the operands come first. -/
theorem conclude_spoiled {late : Diagnostic} (spoiled : Spoiled ν store exprs diagnostic) :
    conclude ν store (.error ⟨exprs, late⟩) = .error diagnostic := by
  rw [conclude, spoiled]
  rfl

/-- When all operands have values, the fault counts at which reading stopped. -/
theorem conclude_valued (valued : Valued ν store exprs) :
    conclude ν store (.error ⟨exprs, diagnostic⟩) = .error diagnostic := by
  obtain ⟨grids, values⟩ := valued
  rw [conclude, values]
  rfl

/-! ## Operands without a value -/

/-- An operator has the fault of its operands. -/
theorem spoiled_binary {operator : Operator} {sign? : Option Span} {left : Expr}
    (spoiled : Spoiled ν store [left, operand] diagnostic) :
    (Expr.binary operator sign? left operand).value ν store = .error diagnostic := by
  rw [Expr.value]
  rcases spoiled_append_iff.mp (show Spoiled ν store ([left] ++ [operand]) diagnostic from spoiled)
    with first | ⟨⟨grids, valued⟩, second⟩
  · rw [spoiled_singleton_iff.mp first]
    rfl
  · rw [spoiled_singleton_iff.mp second]
    cases value : left.value ν store with
    | error other =>
        rw [List.mapM_cons, value] at valued
        cases valued
    | ok grid => rfl

/-- Frames that take in an operand without a value pass on its fault. -/
theorem spoiled_settle {least : Nat} {whole : Expr} {below : List Frame}
    (settled : Pending.settle least operand stack = (whole, below))
    (spoiled : Spoiled ν store (completed stack ++ [operand]) diagnostic) :
    Spoiled ν store (completed below ++ [whole]) diagnostic := by
  fun_induction Pending.settle least operand stack with
  | case1 =>
      cases settled
      exact spoiled
  | case2 operand frame stack tight ih =>
      refine ih settled ?_
      rw [completed_cons, List.append_assoc] at spoiled
      refine spoiled_append_iff.mpr ((spoiled_append_iff.mp spoiled).imp_right
        (And.imp_right fun rest => spoiled_singleton_iff.mpr ?_))
      cases frame with
      | binary left operator sign? => exact spoiled_binary rest
      | negation start =>
          have failed := spoiled_singleton_iff.mp rest
          change (operand.value ν store).map (Grid.neg ν) = .error diagnostic
          rw [failed]
          rfl
      | group span => exact spoiled_singleton_iff.mp rest
  | case3 =>
      cases settled
      exact spoiled

/-- An open parenthesis is no operand. -/
theorem completed_group (span : Span) (stack : List Frame) :
    completed (.group span :: stack) = completed stack := by
  rw [completed_cons, List.append_nil]

/-- An operator that waits for its right operand passes on the fault of its left operand. -/
theorem spoiled_await {operator : Operator} {sign? : Option Span}
    (spoiled : Spoiled ν store (completed stack ++ [operand]) diagnostic) :
    Spoiled ν store (completed (await operator sign? operand stack)) diagnostic := by
  rw [await, Pending.await, completed_cons]
  exact spoiled_settle rfl spoiled

/-- The fault of an operand counts also where an expression ends too early. -/
theorem conclude_stopAt_spoiled {late : Diagnostic}
    (spoiled : Spoiled ν store (completed stack ++ [operand]) diagnostic) :
    conclude ν store (.error (stopAt operand stack late)) = .error diagnostic := by
  unfold stopAt
  split
  · next whole span below settled =>
      have left := spoiled_settle settled spoiled
      rw [completed_group] at left
      exact conclude_spoiled left
  · next whole below _ settled => exact conclude_spoiled (spoiled_settle settled spoiled)

/-- Once an operand has no value, while those in front of it have one, its fault is the outcome,
whatever follows. -/
theorem conclude_read_spoiled (words : List Lexeme) {operand? : Option Expr}
    (spoiled : Spoiled ν store (completed stack ++ operand?.toList) diagnostic) :
    conclude ν store (read stop stack operand? words) = .error diagnostic := by
  have earlier {others : List Expr} {stack : List Frame}
      (first : Spoiled ν store (completed stack) diagnostic) :
      Spoiled ν store (completed stack ++ others) diagnostic :=
    spoiled_append_iff.mpr (.inl first)
  -- Whatever is read, the operand without a value stays among the first ones, or is part of one.
  fun_induction read stop stack operand? words with
  | case1 stack => exact conclude_spoiled (by simpa using spoiled)
  | case2 stack lexeme rest number ih | case3 stack lexeme rest name ih =>
      exact ih (earlier (by simpa using spoiled))
  | case4 stack lexeme rest minus ih | case5 stack lexeme rest opens ih =>
      refine ih ?_
      rwa [completed_cons, List.append_nil]
  | case6 stack => exact conclude_spoiled (by simpa using spoiled)
  | case7 stack operand whole settled =>
      exact spoiled_singleton_iff.mp (spoiled_settle settled spoiled)
  | case8 stack operand =>
      exact conclude_stopAt_spoiled spoiled
  | case9 _ _ _ _ _ ih | case10 _ _ _ _ _ ih | case11 _ _ _ _ _ ih | case12 _ _ _ _ _ ih
  | case13 _ _ _ _ _ ih | case14 _ _ _ _ _ ih =>
      exact ih (earlier (spoiled_await spoiled))
  | case15 stack operand lexeme rest opens ih =>
      refine ih ?_
      rw [completed_group]
      exact earlier (spoiled_await spoiled)
  | case16 stack operand lexeme rest closes inner span below settled ih =>
      have left := spoiled_settle settled spoiled
      rw [completed_group] at left
      refine ih (spoiled_append_iff.mpr ((spoiled_append_iff.mp left).imp_right
        (And.imp_right fun failed => spoiled_singleton_iff.mpr ?_)))
      exact spoiled_singleton_iff.mp failed
  | case17 stack operand => exact conclude_stopAt_spoiled spoiled
  | case18 stack operand lexeme rest mark caret ih =>
      refine ih (spoiled_append_iff.mpr ((spoiled_append_iff.mp spoiled).imp_right
        (And.imp_right fun failed => spoiled_singleton_iff.mpr ?_)))
      rw [Expr.value, spoiled_singleton_iff.mp failed]
      rfl
  | case19 | case20 => exact conclude_spoiled spoiled
  | case21 => exact conclude_stopAt_spoiled spoiled

/-! ## Operands that are settled early -/

/-- How tightly a word binds to what is in front of it, and nothing that ends an expression does. -/
def Word.reach : Word → Nat
  | .plus | .minus => 1
  | .times | .slash | .number | .name | .openParen => 2
  | .caret _ => 4
  | .closeParen | .stray => 0

/-- A frame takes in its operand in front of a word that does not bind more tightly. -/
theorem read_fill {frame : Frame} {words : List Lexeme} (closed : 1 ≤ Pending.rank frame)
    (reaches : ∀ lexeme ∈ words.head?, lexeme.word.reach ≤ Pending.rank frame) :
    read stop (frame :: stack) (some operand) words =
      read stop stack (some (Pending.fill frame operand)) words := by
  have waits (operator : Operator) (sign? : Option Span)
      (tight : operator.rank ≤ Pending.rank frame) :
      await operator sign? operand (frame :: stack) =
        await operator sign? (Pending.fill frame operand) stack :=
    Pending.await_tight tight _ operand stack
  have halt {late : Diagnostic} : stopAt operand (frame :: stack) late =
      stopAt (Pending.fill frame operand) stack late := by
    rw [stopAt, stopAt, Pending.settle_tight closed]
  cases words with
  | nil => rw [read, read, Pending.settle_tight closed, halt]
  | cons lexeme rest =>
      have tight := reaches lexeme rfl
      rw [read, read]
      cases word : lexeme.word
      all_goals rw [word] at tight
      case plus => simp only [waits .add _ tight]
      case minus => simp only [waits .sub _ tight]
      case slash => simp only [waits .div _ tight]
      case times | number | name | openParen => simp only [waits .mul _ tight]
      case closeParen => simp only [Pending.settle_tight closed, halt]
      case stray => simp only [halt]
      case caret =>
        exact absurd tight (Nat.not_le_of_lt (Nat.lt_succ_of_le frame.rank_le))

/-- In front of something that cannot continue an expression, the expression is whole. -/
theorem settle_group (span : Span) (stack : List Frame) (operand : Expr) :
    Pending.settle 1 operand (.group span :: stack) = (operand, .group span :: stack) := by
  exact Pending.settle_loose Nat.zero_lt_one operand stack

end MatrixFormula.Formula
