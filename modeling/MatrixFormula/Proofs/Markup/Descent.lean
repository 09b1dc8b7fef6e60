import MatrixFormula.Markup.Reading
import MatrixFormula.Proofs.Markup.BlockDescent
import MatrixFormula.Proofs.Markup.Spelling

/-!
# Displaying by recursive descent

A formula can be displayed while it is read, by routines for equations and sums, products,
fractions, powers and atoms that call each other. Each of them gives the markup of what it has read.
-/

namespace MatrixFormula.Markup

open Descent Trail

section Routines

variable (style : NameStyle) (call : Level → Descent Text)

/-- Reads a sign and what stands behind it, and displays both. -/
def signed (sign : Text) (level : Level) (output : Text) : Descent Text := do
  let _ ← readToken
  return output ++ sign ++ (← call level)

/-- One more term of a sum, or all of the other side of an equation. -/
def sumPass (output : Text) : Descent (Turn Text Text) := do
  match (← look).map Token.kind with
  | some .plus => return .again (← signed call " + " .term output)
  | some .minus => return .again (← signed call " - " .term output)
  | some .equals => return .done (← signed call " = " .expr output)
  | _ => return .done output

/-- One more factor of a product. It need not have a sign, and only then the place in front of it is
kept. -/
def productPass (output : Text) : Descent (Turn Text Text) := do
  match ← readIf .times with
  | some _ => return .again (output ++ Latex.productDot ++ (← call .factor))
  | none =>
      let place ← here
      if (← look).any fun token => token.kind.startsOperand || token.kind == .backslash then
        return .again (output ++ Latex.productDot ++ (← call .factor))
      else
        back place
        return .done output

/-- One more denominator. -/
def fractionPass (output : Text) : Descent (Turn Text Text) := do
  match ← readIf .slash with
  | some _ => return .again (Latex.fraction output (← call .power))
  | none => return .done output

/-- The routines that display a formula. -/
def routine : Level → Descent Text
  | .expr => do iterate (.level .expr) (sumPass call) (← call .term)
  | .term => do iterate (.level .term) (productPass call) (← call .factor)
  | .factor => do
      match ← readIf .minus with
      | some _ => return '-' :: (← call .factor)
      | none => iterate (.level .factor) (fractionPass call) (← call .power)
  | .power => do
      let base ← call .atom
      match ← readIf .caret with
      | some _ => return Latex.power base (← call .power)
      | none => return base
  | .atom => do
      let token ← readToken
      match token.kind with
      | .backslash => visiting (.call .block) (block token.span.start)
      | .openParen =>
          let inner ← call .expr
          match ← readIf .closeParen with
          | some _ => return Latex.parenthesized inner
          | none => fail (Fault.unclosedParenthesis.located token.span)
      | .number => return Decimal.tidy token.lexeme
      | .name => visiting (.call .identifier) (pure (writeName style token.lexeme))
      | _ => fail ((Fault.unexpectedToken token.lexeme).located token.span)

/-- Displays a formula by recursive descent. -/
def descent (fuel : Nat) : Descent Text := tie (routine style) fuel .expr

end Routines

/-! ## Progress -/

variable {style : NameStyle} {call : Level → Descent Text} {fuel : Nat} {trail : Trail}

/-- A backslash is a token of its own, and passing it leads right behind it. -/
theorem pass_of_backslash {cursor : Cursor} {token : Token} (found : cursor.look? = some token)
    (kind : token.kind = .backslash) :
    ∃ rest, cursor.skipBlanks.rest = '\\' :: rest ∧
      token.span.start = cursor.skipBlanks.passed.byteSize ∧
      cursor.pass token = ⟨cursor.skipBlanks.passed ++ ['\\'], rest⟩ := by
  obtain ⟨char, rest, behind, -, rfl, passed⟩ := Cursor.exists_of_look? found
  obtain rfl := eq_of_ofHead_backslash kind
  refine ⟨rest, behind, rfl, ?_⟩
  have alone : rest.takeWhile (Token.Kind.ofHead '\\').continuedBy = [] ∧
      rest.dropWhile (Token.Kind.ofHead '\\').continuedBy = rest := by
    rw [show Token.Kind.ofHead '\\' = .backslash from kind]
    cases rest <;> simp [Token.Kind.continuedBy]
  rw [passed]
  dsimp only
  rw [alone.1, alone.2]

section Progress

variable (progress : Progresses call fuel)
include progress

theorem progresses_signed (sign : Text) (level : Level) (output : Text) (trail : Trail) :
    Ensures (signed call sign level output) trail (fun _ after => Forward trail after 1)
      (Halted trail 0 fuel) := by
  rw [signed, ensures_bind, ensures_readToken]
  refine ⟨fun token found => ?_, fun _ => .fault (.skipBlanks trail)⟩
  have passed := Forward.pass found
  rw [ensures_bind]
  refine (progress level _).mono (fun _ after forward => ?_) fun reason after halts => ?_
  · exact (passed.trans forward).mono (by omega)
  · refine halts.behind passed ?_ ?_ <;> cases level <;> decide

theorem progresses_sumPass : PassProgresses (sumPass call) 0 fuel := by
  intro output trail
  have skipped := Forward.skipBlanks trail
  have sign (sign : Text) (level : Level) {turn : Text → Turn Text Text}
      (either : ∀ text after, Forward trail after 1 →
        Turn.Ends (fun _ after => Forward trail after 1) (fun _ after => Forward trail after 0)
          (turn text) after) :
      Ensures (signed call sign level output >>= fun text => pure (turn text))
        (trail.goto trail.cursor.skipBlanks)
        (Turn.Ends (fun _ after => Forward trail after 1) fun _ after => Forward trail after 0)
        (Halted trail 0 fuel) := by
    rw [ensures_bind]
    refine (progresses_signed progress sign level output _).mono (fun text after forward => ?_)
      fun reason after halts => halts.behind skipped (Nat.le_refl _) (by decide)
    exact either text after ((skipped.trans forward).mono (by decide))
  rw [sumPass, ensures_bind, ensures_look]
  split
  · exact sign _ _ fun _ _ forward => forward
  · exact sign _ _ fun _ _ forward => forward
  · exact sign _ _ fun _ _ forward => forward.mono (by decide)
  · exact skipped

theorem progresses_productPass : PassProgresses (productPass call) 3 fuel := by
  intro output trail
  rw [productPass, ensures_bind, ensures_readIf]
  have skipped := Forward.skipBlanks trail
  refine ⟨fun token found _ => ?_, fun _ => ?_⟩
  · have passed := Forward.pass found
    rw [ensures_bind]
    refine (progress .factor _).mono (fun _ after forward => ?_) fun reason after halts => ?_
    · exact (passed.trans forward).mono (by decide)
    · exact halts.behind passed (by decide) (by decide)
  · have twice := skipped.trans (.skipBlanks _)
    simp only [ensures_bind, ensures_here, ensures_look, ensures_ite, ensures_pure]
    refine ⟨fun _ => (progress .factor _).mono (fun _ after forward => ?_)
      fun reason after halts => halts.behind twice (Nat.le_refl _) (by decide), fun _ => skipped⟩
    exact (twice.trans forward).mono (by decide)

theorem progresses_fractionPass : PassProgresses (fractionPass call) 0 fuel := by
  intro output trail
  rw [fractionPass, ensures_bind, ensures_readIf]
  refine ⟨fun slash found _ => ?_, fun _ => .skipBlanks trail⟩
  have passed := Forward.pass found
  rw [ensures_bind]
  refine (progress .power _).mono (fun _ after forward => ?_) fun reason after halts => ?_
  · exact (passed.trans forward).mono (by decide)
  · exact halts.behind passed (by decide) (by decide)

end Progress

/-- An atom reads at least one token. -/
theorem progresses_atom (progress : Progresses call fuel) (trail : Trail) :
    Ensures (routine style call .atom) trail (fun _ after => Forward trail after 6)
      (Halted trail 0 fuel) := by
  rw [routine, ensures_bind, ensures_readToken]
  refine ⟨fun token found => ?_, fun _ => .fault (.skipBlanks trail)⟩
  have passed := Forward.pass found
  cases kind : token.kind with
  | backslash =>
      obtain ⟨_, -, place, stands⟩ := pass_of_backslash found kind
      rw [place, ensures_visiting]
      refine (ensures_block (congrArg Cursor.passed stands) passed).mono
        (fun _ after stops => ?_) fun _ _ => False.elim
      exact stops.2.1.log (Visit.sound_of_not_advances rfl)
  | openParen =>
      rw [ensures_bind]
      refine (progress .expr _).mono (fun inner between forward => ?_)
        fun reason after halts => ?_
      · have inside := passed.trans forward
        rw [ensures_bind, ensures_readIf]
        refine ⟨fun closing closes _ => ?_, fun _ => .fault (inside.trans (.skipBlanks _))⟩
        exact (inside.trans (.pass closes)).mono (by decide)
      · exact halts.behind passed (by decide) (by decide)
  | number => exact passed.mono (by decide)
  | name =>
      rw [ensures_visiting]
      exact (passed.log (Visit.sound_of_not_advances rfl)).mono (by decide)
  | _ => exact Halted.fault passed

/-- The routines make progress as long as those that they call do. -/
theorem progresses_routine (progress : Progresses call fuel) (level : Level) (trail : Trail) :
    Ensures (routine style call level) trail
      (fun _ after => Forward trail after (7 - level.rank))
      (Halted trail (level.rank - 1) fuel) := by
  cases level with
  | expr => exact progresses_chain progress (progresses_sumPass progress) rfl (by decide) trail
  | term => exact progresses_chain progress (progresses_productPass progress) rfl (by decide) trail
  | factor =>
      rw [routine, ensures_bind, ensures_readIf]
      refine ⟨fun minus found _ => ?_, fun _ => ?_⟩
      · have passed := Forward.pass found
        rw [ensures_bind]
        refine (progress .factor _).mono (fun _ after forward => ?_) fun reason after halts => ?_
        · exact (passed.trans forward).mono (by decide)
        · exact halts.behind passed (by decide) (by decide)
      · have skipped := Forward.skipBlanks trail
        refine (@progresses_chain _ _ _ _ _ (.level .factor) .factor .power _ progress
          (progresses_fractionPass progress) rfl (by decide) _).mono
          (fun _ after forward => ?_) fun reason after halts => ?_
        · exact (skipped.trans forward).mono (by decide)
        · exact halts.behind skipped (by decide) (by decide)
  | power =>
      rw [routine, ensures_bind]
      refine (progress .atom _).mono (fun base between forward => ?_) fun _ _ halts => halts
      rw [ensures_bind, ensures_readIf]
      refine ⟨fun caret found _ => ?_, fun _ => ?_⟩
      · have inside := forward.trans (.pass found)
        rw [ensures_bind]
        refine (progress .power _).mono (fun _ after later => ?_) fun reason after halts => ?_
        · exact (inside.trans later).mono (by decide)
        · exact halts.behind inside (by decide) (by decide)
      · exact forward.trans (.skipBlanks _)
  | atom => exact progresses_atom progress trail

end MatrixFormula.Markup
