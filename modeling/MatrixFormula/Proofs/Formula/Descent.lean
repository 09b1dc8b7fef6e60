import MatrixFormula.Formula.Value
import MatrixFormula.Proofs.Descent.Progress
import MatrixFormula.Proofs.Formula.Spelling

/-!
# Evaluating by recursive descent

A formula can be evaluated while it is read, by routines for sums, products, factors, powers and
atoms that call each other. A run of letters that is two variables is read up to the end of the
first one, and the cursor moves back to the second one.
-/

namespace MatrixFormula.Formula

open Descent Trail

/-- A value with the region of the source that it came from. -/
structure Operand where
  grid : Grid Text
  span : Span
deriving DecidableEq, Repr

section Routines

variable (ν : Type) [Numeral ν] (store : Store) (call : Level → Descent Operand)

/-- The value of two operands. A fault points at both of them and at what joins them. -/
def combine (operator : Operator) (left : Operand) (sign : Span) (right : Operand) :
    Except Diagnostic Operand :=
  match operator.apply ν left.grid right.grid with
  | .ok grid => .ok ⟨grid, left.span.through right.span⟩
  | .error fault => .error ⟨.arithmetic fault, [left.span, sign, right.span]⟩

/-- Reads the sign of an operator and the operand behind it. -/
def signed (operator : Operator) (level : Level) (left : Operand) :
    Descent (Turn Operand Operand) := do
  let sign ← readToken
  let right ← call level
  return .again (← ofOutcome (combine ν operator left sign.span right))

/-- The operator that a token writes in a sum. -/
def sumSign? : Token.Kind → Option Operator
  | .plus => some .add
  | .minus => some .sub
  | _ => none

/-- The operator that a token writes in a product. -/
def productSign? : Token.Kind → Option Operator
  | .times | .dot => some .mul
  | .slash => some .div
  | _ => none

/-- One more term of a sum. -/
def sumPass (left : Operand) : Descent (Turn Operand Operand) := do
  match (← look).bind fun token => sumSign? token.kind with
  | some operator => signed ν call operator .term left
  | none => return .done left

/-- One more factor of a product. It need not have a sign, and only then the place in front of it is
kept. -/
def productPass (left : Operand) : Descent (Turn Operand Operand) := do
  match (← look).bind fun token => productSign? token.kind with
  | some operator => signed ν call operator .factor left
  | none =>
      let place ← here
      if (← look).any fun token => token.kind.startsOperand then
        let right ← call .factor
        return .again (← ofOutcome (combine ν .mul left (left.span.between right.span) right))
      else
        back place
        return .done left

/-- One more mark of transposition. -/
def markPass (base : Operand) : Descent (Turn Operand Operand) := do
  match ← readIf .caret with
  | none => return .done base
  | some _ =>
      match ← lookChar with
      | none => fail ((← here).report .unexpectedEnd)
      | some char =>
          if isTransposeMark char then
            let _ ← readChar
            return .again ⟨base.grid.transpose, ⟨base.span.start, (← here).offset⟩⟩
          else
            let found := ((← here).look?.map Token.lexeme).getD []
            fail ((← here).report (.unsupportedExponent found))

/-- The value of a name at a region. -/
def named (name : Text) (span : Span) : Descent Operand := do
  return ⟨← ofOutcome (nameValue store name span), span⟩

/-- The value of a run of letters. When it is two variables, the cursor moves back to the second
one. -/
def identifier (token : Token) : Descent Operand := do
  if store.contains token.lexeme then named store token.lexeme token.span
  else
    match store.split? token.lexeme with
    | some (left, _) =>
        let span := Span.ofText token.span.start left
        moveTo span.stop
        named store left span
    | none => named store token.lexeme token.span

/-- The routines of the evaluator. -/
def routine : Level → Descent Operand
  | .expr => do iterate (.level .expr) (sumPass ν call) (← call .term)
  | .term => do iterate (.level .term) (productPass ν call) (← call .factor)
  | .factor => do
      match ← readIf .minus with
      | some minus =>
          let operand ← call .factor
          return ⟨operand.grid.neg ν, ⟨minus.span.start, operand.span.stop⟩⟩
      | none => call .power
  | .power => do iterate (.level .power) markPass (← call .atom)
  | .atom => do
      let token ← readToken
      match token.kind with
      | .openParen =>
          let inner ← call .expr
          match ← readIf .closeParen with
          | some closing => return ⟨inner.grid, token.span.through closing.span⟩
          | none => fail (Fault.unclosedParenthesis.located token.span)
      | .number => return ⟨← ofOutcome (numberValue ν token.lexeme token.span), token.span⟩
      | .name => visiting (.call .identifier) (identifier store token)
      | _ => fail ((Fault.unexpectedToken token.lexeme).located token.span)

/-- Evaluates a formula by recursive descent. -/
def descent (fuel : Nat) : Descent (Grid Text) := do
  return (← tie (routine ν store) fuel .expr).grid

end Routines

/-! ## Progress -/

variable {ν : Type} [Numeral ν] {store : Store} {call : Level → Descent Operand} {fuel : Nat}
  {trail : Trail}

section Progress

variable (progress : Progresses call fuel)
include progress

theorem progresses_signed (operator : Operator) (level : Level) :
    PassProgresses (signed ν call operator level) 0 fuel := by
  intro left trail
  unfold signed
  rw [ensures_bind, ensures_readToken]
  refine ⟨fun sign found => ?_, fun _ => .fault (.skipBlanks trail)⟩
  have passed := Forward.pass found
  simp only [ensures_bind, ensures_ofOutcome, ensures_pure]
  refine (progress level _).mono (fun right after forward => ?_) fun reason after halts => ?_
  · have forward := passed.trans forward
    exact ⟨fun _ _ => forward.mono (by omega), fun _ _ => .fault forward⟩
  · refine halts.behind passed ?_ ?_ <;> cases level <;> decide

theorem progresses_sumPass : PassProgresses (sumPass ν call) 0 fuel := by
  intro left trail
  unfold sumPass
  rw [ensures_bind, ensures_look]
  have skipped := Forward.skipBlanks trail
  cases trail.cursor.look?.bind fun token => sumSign? token.kind with
  | none => exact skipped
  | some operator =>
      refine (progresses_signed progress operator .term left _).mono (fun turn after forward => ?_)
        fun reason after halts => halts.behind skipped (Nat.le_refl _) (by decide)
      cases turn with
      | again | done => exact (skipped.trans forward).mono (by omega)

theorem progresses_productPass : PassProgresses (productPass ν call) 3 fuel := by
  intro left trail
  unfold productPass
  rw [ensures_bind, ensures_look]
  have skipped := Forward.skipBlanks trail
  cases trail.cursor.look?.bind fun token => productSign? token.kind with
  | some operator =>
      refine (progresses_signed progress operator .factor left _).mono
        (fun turn after forward => ?_)
        fun reason after halts => halts.behind skipped (by decide) (by decide)
      cases turn with
      | again | done => exact (skipped.trans forward).mono (by omega)
  | none =>
      have twice := skipped.trans (.skipBlanks _)
      simp only [ensures_bind, ensures_here, ensures_look, ensures_ite, ensures_ofOutcome,
        ensures_pure]
      refine ⟨fun _ => (progress .factor _).mono (fun right after forward => ?_)
        fun reason after halts => ?_, fun _ => skipped⟩
      · have forward := twice.trans forward
        exact ⟨fun _ _ => forward.mono (by decide), fun _ _ => .fault forward⟩
      · exact halts.behind twice (Nat.le_refl _) (by decide)

end Progress

theorem progresses_markPass : PassProgresses markPass 0 fuel := by
  intro base trail
  unfold markPass
  rw [ensures_bind, ensures_readIf]
  refine ⟨fun caret found _ => ?_, fun _ => .skipBlanks trail⟩
  have passed := (Forward.pass found).trans (.skipBlanks _)
  rw [ensures_bind, ensures_lookChar]
  cases follows : (trail.goto (trail.cursor.pass caret)).cursor.skipBlanks.rest.head? with
  | none => exact Halted.fault passed
  | some char =>
      simp only [ensures_ite]
      refine ⟨fun _ => ?_, fun _ => Halted.fault passed⟩
      exact (passed.trans (.advance follows)).mono (by decide)

/-- When a name has been looked up, the cursor is beyond the place in front of it, also when it
moves back to the second of two variables. -/
theorem progresses_identifier {token : Token} (found : trail.cursor.look? = some token) :
    Ensures (identifier store token) (trail.goto (trail.cursor.pass token))
      (fun _ after => Forward trail after 8)
      (fun reason after => (∃ diagnostic, reason = .fault diagnostic) ∧ Forward trail after 8) := by
  have passed := Forward.pass found
  have whole : Ensures (named store token.lexeme token.span) (trail.goto (trail.cursor.pass token))
      (fun _ after => Forward trail after 8)
      (fun reason after => (∃ diagnostic, reason = .fault diagnostic) ∧ Forward trail after 8) := by
    simp only [named, ensures_bind, ensures_ofOutcome, ensures_pure]
    exact ⟨fun _ _ => passed, fun diagnostic _ => ⟨⟨diagnostic, rfl⟩, passed⟩⟩
  unfold identifier
  rw [ensures_ite]
  refine ⟨fun _ => whole, fun _ => ?_⟩
  cases halves : store.split? token.lexeme with
  | none => exact whole
  | some parts =>
      obtain ⟨left, right⟩ := parts
      obtain ⟨nonempty, spelled, -⟩ := contains_of_split? halves
      -- The first variable is not empty, so the cursor stays behind the place in front of it.
      have inside : Forward trail (trail.goto ((trail.cursor.pass token).moveTo
          (token.span.start + left.byteSize))) 8 := by
        refine .goto ((Cursor.source_moveTo ..).trans (Cursor.source_pass ..)) ?_
        rw [Cursor.moveTo_pass found spelled.symm]
        exact Cursor.length_behind_lt found spelled.symm nonempty
      simp only [named, ensures_bind, ensures_moveTo, ensures_ofOutcome, ensures_pure]
      exact ⟨fun _ _ => inside, fun diagnostic _ => ⟨⟨diagnostic, rfl⟩, inside⟩⟩

/-- An atom reads at least one token, or at least a part of a name. -/
theorem progresses_atom (progress : Progresses call fuel) (trail : Trail) :
    Ensures (routine ν store call .atom) trail (fun _ after => Forward trail after 6)
      (Halted trail 0 fuel) := by
  rw [routine, ensures_bind, ensures_readToken]
  refine ⟨fun token found => ?_, fun _ => .fault (.skipBlanks trail)⟩
  have passed := Forward.pass found
  cases kind : token.kind with
  | openParen =>
      rw [ensures_bind]
      refine (progress .expr _).mono (fun inner between forward => ?_)
        fun reason after halts => ?_
      · have inside := passed.trans forward
        rw [ensures_bind, ensures_readIf]
        refine ⟨fun closing closes _ => ?_, fun _ => .fault (inside.trans (.skipBlanks _))⟩
        exact (inside.trans (.pass closes)).mono (by decide)
      · exact halts.behind passed (by decide) (by decide)
  | number =>
      simp only [ensures_bind, ensures_ofOutcome, ensures_pure]
      exact ⟨fun _ _ => passed.mono (by decide), fun _ _ => .fault passed⟩
  | name =>
      rw [ensures_visiting]
      refine (progresses_identifier found).mono (fun _ after forward => ?_) ?_
      · exact (forward.log (Visit.sound_of_not_advances rfl)).mono (by decide)
      · rintro _ after ⟨⟨diagnostic, rfl⟩, forward⟩
        exact Halted.fault (forward.log (Visit.sound_of_not_advances rfl))
  | _ => exact Halted.fault passed

/-- The routines of the evaluator make progress as long as those that they call do. -/
theorem progresses_routine (progress : Progresses call fuel) (level : Level) (trail : Trail) :
    Ensures (routine ν store call level) trail
      (fun _ after => Forward trail after (7 - level.rank))
      (Halted trail (level.rank - 1) fuel) := by
  cases level with
  | expr => exact progresses_chain progress (progresses_sumPass progress) rfl (by decide) trail
  | term => exact progresses_chain progress (progresses_productPass progress) rfl (by decide) trail
  | factor =>
      rw [routine, ensures_bind, ensures_readIf]
      refine ⟨fun minus found _ => ?_, fun _ => ?_⟩
      · rw [ensures_bind]
        have passed := Forward.pass found
        refine (progress .factor _).mono (fun _ after forward => ?_) fun reason after halts => ?_
        · exact (passed.trans forward).mono (by decide)
        · exact halts.behind passed (by decide) (by decide)
      · have skipped := Forward.skipBlanks trail
        refine (progress .power _).mono (fun _ after forward => ?_) fun reason after halts => ?_
        · exact (skipped.trans forward).mono (by decide)
        · exact halts.behind skipped (by decide) (by decide)
  | power => exact progresses_chain progress progresses_markPass rfl (by decide) trail
  | atom => exact progresses_atom progress trail

end MatrixFormula.Formula
