import Mathlib.Data.List.Forall2
import MatrixFormula.Proofs.Formula.Grammar
import MatrixFormula.Proofs.Formula.Splitting

/-!
# Powers can be replaced

A formula is evaluated in one store as another formula is in another store, when the words of the
two are the same except that powers stand for powers with the same value. The two are read in step,
with stacks of frames that make the same of operands with the same value.
-/

namespace MatrixFormula

/-- A fault without the names that it suggests. -/
def Fault.unadvised : Fault → Fault
  | .undefinedVariable name _ => .undefinedVariable name []
  | fault => fault

namespace Formula

variable (ν : Type) [Numeral ν]

/-- The value of an expression, or its fault without the regions it concerns and the names it
suggests. -/
def Expr.answer (store : Store) (expr : Expr) : Except Fault (Grid Text) :=
  (expr.verdict ν store).mapError Fault.unadvised

variable {first second : Store}

/-- What is combined from two operands depends on their answers. -/
theorem answer_binary (store : Store) (operator : Operator) (sign? : Option Span)
    (left right : Expr) :
    (Expr.binary operator sign? left right).answer ν store = (do
      let grid ← left.answer ν store
      let other ← right.answer ν store
      (operator.apply ν grid other).mapError Fault.arithmetic) := by
  have keeps (outcome : Except ArithmeticFault (Grid Text)) :
      (outcome.mapError Fault.arithmetic).mapError Fault.unadvised =
        outcome.mapError Fault.arithmetic := by
    cases outcome <;> rfl
  simp only [Expr.answer, verdict_binary, mapError_bind, keeps]

/-- The answer for a negation is the opposite of the answer for the operand. -/
theorem answer_negation (store : Store) (start : Nat) (operand : Expr) :
    (Expr.negation start operand).answer ν store = (operand.answer ν store).map (Grid.neg ν) := by
  simp only [Expr.answer, Expr.verdict, Expr.value, map_mapError]

/-- The answer for a transpose is the transpose of the answer for the operand. -/
theorem answer_transpose (store : Store) (operand : Expr) (stop : Nat) :
    (Expr.transpose operand stop).answer ν store = (operand.answer ν store).map Grid.transpose := by
  simp only [Expr.answer, Expr.verdict, Expr.value, map_mapError]

/-! ## Reading in step -/

/-- Expressions that have the same answer, each in its store. -/
def SameAnswer (first second : Store) (expr other : Expr) : Prop :=
  expr.answer ν first = other.answer ν second

/-- Frames that make the same of operands with the same answer. -/
inductive SameFrame (first second : Store) : Frame → Frame → Prop where
  | negation (start place : Nat) : SameFrame first second (.negation start) (.negation place)
  | binary {left other : Expr} (operator : Operator) (sign? mark? : Option Span)
      (same : SameAnswer ν first second left other) :
      SameFrame first second (.binary left operator sign?) (.binary other operator mark?)
  | group (span place : Span) : SameFrame first second (.group span) (.group place)

/-- Outcomes of reading that have the same answer: expressions, or the operands that were complete
and the fault. -/
inductive SameOutcome (first second : Store) : Except Stop Expr → Except Stop Expr → Prop where
  | ok {expr other : Expr} (same : SameAnswer ν first second expr other) :
      SameOutcome first second (.ok expr) (.ok other)
  | error {stop halt : Stop}
      (completed : List.Forall₂ (SameAnswer ν first second) stop.completed halt.completed)
      (fault : stop.diagnostic.fault = halt.diagnostic.fault) :
      SameOutcome first second (.error stop) (.error halt)

variable {ν} {stack others : List Frame} {operand another : Expr}

/-- Frames that are the same bind equally tightly. -/
theorem SameFrame.rank {frame other : Frame} (same : SameFrame ν first second frame other) :
    Pending.rank frame = Pending.rank other := by
  cases same <;> rfl

/-- Frames that are the same make the same of operands with the same answers. -/
theorem SameFrame.fill {frame other : Frame} (same : SameFrame ν first second frame other)
    (operands : SameAnswer ν first second operand another) :
    SameAnswer ν first second (Pending.fill frame operand) (Pending.fill other another) := by
  cases same with
  | negation start place =>
      simp only [SameAnswer, Pending.fill, answer_negation]
      rw [show operand.answer ν first = another.answer ν second from operands]
  | binary operator sign? mark? left =>
      simp only [SameAnswer, Pending.fill, answer_binary]
      rw [show operand.answer ν first = another.answer ν second from operands,
        show Expr.answer ν first _ = Expr.answer ν second _ from left]
  | group => exact operands

section Step

variable (frames : List.Forall₂ (SameFrame ν first second) stack others)
  (operands : SameAnswer ν first second operand another)

include frames operands

/-- Operands with the same answers settle to such operands on the same frames. -/
theorem settle_same (least : Nat) :
    SameAnswer ν first second (Pending.settle least operand stack).1
        (Pending.settle least another others).1 ∧
      List.Forall₂ (SameFrame ν first second) (Pending.settle least operand stack).2
        (Pending.settle least another others).2 := by
  induction frames generalizing operand another with
  | nil => exact ⟨operands, .nil⟩
  | cons frame below ih =>
      rw [Pending.settle, Pending.settle, frame.rank]
      split
      · exact ih (frame.fill operands)
      · exact ⟨operands, .cons frame below⟩

/-- Operators wait for such operands on the same frames. -/
theorem await_same (operator : Operator) (sign? mark? : Option Span) :
    List.Forall₂ (SameFrame ν first second) (await operator sign? operand stack)
      (await operator mark? another others) := by
  obtain ⟨left, below⟩ := settle_same frames operands operator.rank
  exact .cons (.binary operator sign? mark? left) below

omit operands in
/-- The operands that are complete have the same answers. -/
theorem completed_same :
    List.Forall₂ (SameAnswer ν first second) (completed stack) (completed others) := by
  refine List.rel_filterMap (fun frame other same => ?_) (List.rel_reverse frames)
  cases same with
  | binary operator sign? mark? same => exact .some same
  | negation | group => exact .none

/-- The same operands are complete where an expression ends, and nothing or the same is missing. -/
theorem stopAt_same {diagnostic report : Diagnostic} (fault : diagnostic.fault = report.fault) :
    SameOutcome ν first second (.error (stopAt operand stack diagnostic))
      (.error (stopAt another others report)) := by
  obtain ⟨whole, below⟩ := settle_same frames operands 1
  have complete {stack others : List Frame}
      (below : List.Forall₂ (SameFrame ν first second) stack others) :=
    List.rel_append (completed_same below) (.cons whole .nil)
  unfold stopAt
  generalize Pending.settle 1 operand stack = settled at whole below complete ⊢
  generalize Pending.settle 1 another others = settling at whole below complete ⊢
  obtain ⟨left, below⟩ := settled
  obtain ⟨right, under⟩ := settling
  cases below with
  | nil => exact .error (complete .nil) fault
  | cons same below =>
      cases same with
      | group span place => exact .error (complete below) rfl
      | negation start place => exact .error (complete (.cons (.negation start place) below)) fault
      | binary operator sign? mark? left =>
          exact .error (complete (.cons (.binary operator sign? mark? left) below)) fault

/-- A formula that ends behind an operand. -/
theorem read_end_same (stop halt : Nat) :
    SameOutcome ν first second (read stop stack (some operand) [])
      (read halt others (some another) []) := by
  have stopped := stopAt_same frames operands
    (show (Fault.unexpectedEnd.located (.point stop)).fault =
      (Fault.unexpectedEnd.located (.point halt)).fault from rfl)
  obtain ⟨whole, below⟩ := settle_same frames operands 1
  rw [read, read]
  generalize Pending.settle 1 operand stack = settled at whole below ⊢
  generalize Pending.settle 1 another others = settling at whole below ⊢
  obtain ⟨left, rest⟩ := settled
  obtain ⟨right, under⟩ := settling
  cases below with
  | nil => exact .ok whole
  | cons same below => exact stopped

/-- A closing parenthesis behind an operand. -/
theorem read_closeParen_same {stop halt : Nat} {words changed : List Lexeme} (text : Text)
    (span : Span)
    (next : ∀ {stack others : List Frame} {operand another : Expr},
      List.Forall₂ (SameFrame ν first second) stack others →
      SameAnswer ν first second operand another →
      SameOutcome ν first second (read stop stack (some operand) words)
        (read halt others (some another) changed)) :
    SameOutcome ν first second (read stop stack (some operand) (⟨.closeParen, text, span⟩ :: words))
      (read halt others (some another) (⟨.closeParen, text, span⟩ :: changed)) := by
  have stopped := stopAt_same frames operands
    (show (trailing stop ⟨.closeParen, text, span⟩).fault =
      (trailing halt ⟨.closeParen, text, span⟩).fault from rfl)
  obtain ⟨whole, below⟩ := settle_same frames operands 1
  rw [read, read]
  simp only
  generalize Pending.settle 1 operand stack = settled at whole below ⊢
  generalize Pending.settle 1 another others = settling at whole below ⊢
  obtain ⟨left, rest⟩ := settled
  obtain ⟨right, under⟩ := settling
  cases below with
  | nil => exact stopped
  | cons same below =>
      cases same with
      | group opening start => exact next below whole
      | negation | binary => exact stopped

end Step

/-! ## Powers in other words -/

variable (ν) in
/-- Words that are the same, with names that have the same answers, except that powers stand for
powers with the same answer. -/
inductive Replaced (first second : Store) : List Lexeme → List Lexeme → Prop where
  | nil : Replaced first second [] []
  | word {words others : List Lexeme} (lexeme : Lexeme)
      (known : lexeme.word = .name →
        SameAnswer ν first second (.name lexeme.text lexeme.span) (.name lexeme.text lexeme.span))
      (later : Replaced first second words others) :
      Replaced first second (lexeme :: words) (lexeme :: others)
  | power {front back words others : List Lexeme} {operand another : Expr}
      (here : Derives 4 front operand) (there : Derives 4 back another)
      (same : SameAnswer ν first second operand another)
      (later : Replaced first second words others) :
      Replaced first second (front ++ words) (back ++ others)

/-- A power is read to an operand. -/
theorem read_power {words : List Lexeme} {expr : Expr} (derives : Derives 4 words expr) (stop : Nat)
    (stack : List Frame) (rest : List Lexeme) :
    read stop stack none (words ++ rest) = read stop stack (some expr) rest := by
  obtain ⟨frames, operand, tight, filled, run⟩ :=
    derives.read stack (fun _ _ => .inr (by decide)) rest
  have none : frames = [] := List.eq_nil_iff_forall_not_mem.mpr fun frame member => by
    have := tight frame member
    have := frame.rank_le
    omega
  subst none
  rw [run, ← filled]
  rfl

/-- A power behind an operand is read to the right operand of a product. -/
theorem read_power_behind {words : List Lexeme} {expr operand : Expr}
    (derives : Derives 4 words expr) (stop : Nat) (stack : List Frame) (rest : List Lexeme) :
    read stop stack (some operand) (words ++ rest) =
      read stop (await .mul none operand stack) (some expr) rest := by
  obtain ⟨head, others, rfl, starts⟩ := derives.startsPower (Nat.le_refl 4)
  rw [← read_power derives, List.cons_append, read_juxtaposed starts]

/-- Words with powers replaced are read in step. -/
theorem read_replaced {words others : List Lexeme} (replaced : Replaced ν first second words others)
    {stack below : List Frame} (frames : List.Forall₂ (SameFrame ν first second) stack below)
    {operand? another? : Option Expr}
    (operands : Option.Rel (SameAnswer ν first second) operand? another?) (stop halt : Nat) :
    SameOutcome ν first second (read stop stack operand? words)
      (read halt below another? others) := by
  induction replaced generalizing stack below operand? another? with
  | nil =>
      cases operands with
      | none => exact .error (completed_same frames) rfl
      | some operands => exact read_end_same frames operands stop halt
  | @power front back words others operand another here there same later ih =>
      cases operands with
      | none =>
          rw [read_power here, read_power there]
          exact ih frames (.some same)
      | some operands =>
          rw [read_power_behind here, read_power_behind there]
          exact ih (await_same frames operands .mul none none) (.some same)
  | word lexeme known later ih =>
      obtain ⟨word, text, span⟩ := lexeme
      cases operands with
      | none =>
          rw [read, read]
          cases word with
          | number => exact ih frames (.some rfl)
          | name => exact ih frames (.some (known rfl))
          | minus => exact ih (.cons (.negation _ _) frames) .none
          | openParen => exact ih (.cons (.group _ _) frames) .none
          | _ => exact .error (completed_same frames) rfl
      | some operands =>
          have waits (operator : Operator) (sign? mark? : Option Span) :=
            await_same frames operands operator sign? mark?
          cases word with
          | closeParen =>
              exact read_closeParen_same frames operands text span fun below whole =>
                ih below (.some whole)
          | plus | minus | times | slash =>
              rw [read, read]
              exact ih (waits _ _ _) .none
          | number =>
              rw [read, read]
              exact ih (waits _ _ _) (.some rfl)
          | name =>
              rw [read, read]
              exact ih (waits _ _ _) (.some (known rfl))
          | openParen =>
              rw [read, read]
              exact ih (.cons (.group _ _) (waits _ _ _)) .none
          | caret exponent =>
              rw [read, read]
              cases exponent with
              | transpose mark =>
                  refine ih frames (.some ?_)
                  simp only [SameAnswer, answer_transpose]
                  exact congrArg _ operands
              | unsupported | missing =>
                  exact .error (List.rel_append (completed_same frames) (.cons operands .nil)) rfl
          | stray =>
              rw [read, read]
              exact stopAt_same frames operands rfl

/-- Operands with the same answers have their say alike. -/
theorem mapM_same {exprs others : List Expr}
    (same : List.Forall₂ (SameAnswer ν first second) exprs others) :
    ((exprs.map Expr.placeless).mapM (Expr.verdict ν first)).mapError Fault.unadvised =
      ((others.map Expr.placeless).mapM (Expr.verdict ν second)).mapError Fault.unadvised := by
  induction same with
  | nil => rfl
  | @cons expr other exprs others same later ih =>
      rw [SameAnswer, Expr.answer, Expr.answer] at same
      simp only [List.map_cons, List.mapM_cons, verdict_placeless, mapError_bind, same, ih]

/-- Formulas whose words differ in powers with the same answer have the same value, or the same
fault but for what it suggests. -/
theorem settledValue_replaced {words others : List Lexeme}
    (replaced : Replaced ν first second words others) :
    (settledValue ν first (outcome (read 0 [] none words))).mapError Fault.unadvised =
      (settledValue ν second (outcome (read 0 [] none others))).mapError Fault.unadvised := by
  have same := read_replaced replaced .nil .none 0 0
  generalize read 0 [] none words = result at same ⊢
  generalize read 0 [] none others = reading at same ⊢
  cases same with
  | ok same =>
      simp only [outcome, settledValue, verdict_placeless]
      exact same
  | error completed fault =>
      simp only [outcome, settledValue, mapError_bind, mapError_discard, mapM_same completed, fault]

end Formula

end MatrixFormula
