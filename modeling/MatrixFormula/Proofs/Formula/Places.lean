import MatrixFormula.Formula.Value
import MatrixFormula.Proofs.Outcome

/-!
# Values do not depend on places

Where the words of a formula stand only tells where its faults are. So formulas with the same
words have the same value, or the same fault, and what stands behind a word without a meaning
is never read.
-/

namespace MatrixFormula.Formula

/-- The region that stands in for all regions when places do not matter. -/
def nowhere : Span := .point 0

def Exponent.placeless : Exponent → Exponent
  | .transpose _ => .transpose 0
  | .unsupported found _ => .unsupported found nowhere
  | .missing _ => .missing 0

def Word.placeless : Word → Word
  | .caret exponent => .caret exponent.placeless
  | word => word

def Lexeme.placeless (lexeme : Lexeme) : Lexeme :=
  ⟨lexeme.word.placeless, lexeme.text, nowhere⟩

def Expr.placeless : Expr → Expr
  | .number lexeme _ => .number lexeme nowhere
  | .name text _ => .name text nowhere
  | .negation _ operand => .negation 0 operand.placeless
  | .transpose operand _ => .transpose operand.placeless 0
  | .group _ inner => .group nowhere inner.placeless
  | .binary operator sign? left right =>
      .binary operator (sign?.map fun _ => nowhere) left.placeless right.placeless

def Frame.placeless : Frame → Frame
  | .negation _ => .negation 0
  | .binary left operator sign? => .binary left.placeless operator (sign?.map fun _ => nowhere)
  | .group _ => .group nowhere

/-- The words that are read, without their places: all up to the first one that has no meaning. -/
def heard : List Lexeme → List Lexeme
  | [] => []
  | lexeme :: rest =>
      if lexeme.word = .stray then [lexeme.placeless] else lexeme.placeless :: heard rest

/-- What reading a formula leads to, without places: an expression, or the operands that were
complete and the fault. -/
def outcome (result : Except Stop Expr) : Except (List Expr × Fault) Expr :=
  match result with
  | .ok expr => .ok expr.placeless
  | .error stop => .error (stop.completed.map Expr.placeless, stop.diagnostic.fault)

variable {stack : List Frame} {operand : Expr}

/-- An expression loses its places only once. -/
@[simp] theorem Expr.placeless_placeless (expr : Expr) :
    expr.placeless.placeless = expr.placeless := by
  induction expr with
  | number | name => rfl
  | negation _ operand ih | transpose operand _ ih | group _ operand ih =>
      simp only [placeless, ih]
  | binary operator sign? left right first second =>
      simp only [placeless, first, second, Option.map_map, Function.comp_def]

/-- How tightly a frame binds does not depend on places. -/
@[simp] theorem Frame.rank_placeless (frame : Frame) :
    Pending.rank frame.placeless = Pending.rank frame := by
  cases frame <;> rfl

/-- A frame makes the same of its operand, places apart. -/
theorem Frame.placeless_fill (frame : Frame) (operand : Expr) :
    (Pending.fill frame operand).placeless = Pending.fill frame.placeless operand.placeless := by
  cases frame <;> rfl

/-- Operands settle in the same way, places apart. -/
theorem settle_placeless (least : Nat) (operand : Expr) (stack : List Frame) :
    Pending.settle least operand.placeless (stack.map Frame.placeless) =
      ((Pending.settle least operand stack).1.placeless,
        (Pending.settle least operand stack).2.map Frame.placeless) :=
  Pending.settle_map Frame.rank_placeless Frame.placeless_fill least operand stack

/-- Operators wait in the same way, places apart. -/
theorem await_placeless (operator : Operator) (sign? : Option Span) :
    (await operator sign? operand stack).map Frame.placeless =
      await operator (sign?.map fun _ => nowhere) operand.placeless (stack.map Frame.placeless) :=
  Pending.await_map Frame.rank_placeless Frame.placeless_fill (fun _ => rfl) operator.rank operand
    stack

/-- The same operands are complete, places apart. -/
theorem completed_placeless (stack : List Frame) :
    completed (stack.map Frame.placeless) = (completed stack).map Expr.placeless := by
  rw [completed, completed, ← List.map_reverse, List.filterMap_map, List.map_filterMap]
  refine congrArg (List.filterMap · _) (funext fun frame => ?_)
  cases frame <;> rfl

/-- A fault behind complete operands. -/
theorem outcome_error (behind : List Expr) {diagnostic other : Diagnostic}
    (same : diagnostic.fault = other.fault) :
    outcome (.error ⟨completed stack ++ behind, diagnostic⟩) =
      outcome (.error
        ⟨completed (stack.map Frame.placeless) ++ behind.map Expr.placeless, other⟩) := by
  have again : Expr.placeless ∘ Expr.placeless = Expr.placeless :=
    funext Expr.placeless_placeless
  simp only [outcome, completed_placeless, same, List.map_append, List.map_map, again]

/-- A fault where an operand must start. -/
theorem outcome_missing {diagnostic other : Diagnostic} (same : diagnostic.fault = other.fault) :
    outcome (.error ⟨completed stack, diagnostic⟩) =
      outcome (.error ⟨completed (stack.map Frame.placeless), other⟩) := by
  simpa using outcome_error [] same

/-- What stops a formula has the same outcome, places apart. -/
theorem outcome_stopAt {diagnostic other : Diagnostic} (same : diagnostic.fault = other.fault) :
    outcome (.error (stopAt operand stack diagnostic)) =
      outcome (.error (stopAt operand.placeless (stack.map Frame.placeless) other)) := by
  unfold stopAt
  rw [settle_placeless]
  cases Pending.settle 1 operand stack with
  | mk whole below =>
      cases below with
      | nil => exact @outcome_error [] [whole] _ _ same
      | cons frame below =>
          cases frame with
          | group span => exact @outcome_error below [whole] _ _ rfl
          | negation start => exact @outcome_error (.negation start :: below) [whole] _ _ same
          | binary left operator sign? =>
              exact @outcome_error (.binary left operator sign? :: below) [whole] _ _ same

/-- The outcome of reading words does not depend on places, nor on what stands behind a word
that has no meaning. -/
theorem outcome_read (stop : Nat) (stack : List Frame) (operand? : Option Expr)
    (words : List Lexeme) :
    outcome (read stop stack operand? words) =
      outcome (read 0 (stack.map Frame.placeless) (operand?.map Expr.placeless) (heard words)) := by
  induction words generalizing stack operand? with
  | nil =>
      cases operand? with
      | none => exact outcome_missing rfl
      | some operand =>
          rw [heard, Option.map_some, read, read, settle_placeless]
          cases settled : Pending.settle 1 operand stack with
          | mk whole below =>
              cases below with
              | nil => exact congrArg Except.ok whole.placeless_placeless.symm
              | cons frame below => exact outcome_stopAt rfl
  | cons lexeme rest ih =>
      obtain ⟨word, text, span⟩ := lexeme
      cases operand? with
      | none =>
          cases word with
          | number | name | minus | openParen =>
              rw [read]
              exact ih _ _
          | _ => exact outcome_missing rfl
      | some operand =>
          cases word with
          | plus | minus | times | slash =>
              rw [read]
              refine (ih _ _).trans ?_
              rw [await_placeless]
              rfl
          | number | name | openParen =>
              rw [read]
              refine (ih _ _).trans ?_
              simp only [List.map_cons, await_placeless]
              rfl
          | closeParen =>
              rw [heard, if_neg nofun, read]
              simp only [Lexeme.placeless, Word.placeless, Option.map_some, read, settle_placeless]
              cases settled : Pending.settle 1 operand stack with
              | mk inner below =>
                  cases below with
                  | nil => exact outcome_stopAt rfl
                  | cons frame below =>
                      cases frame with
                      | group open_ => exact ih _ _
                      | _ => exact outcome_stopAt rfl
          | caret exponent =>
              cases exponent with
              | transpose mark =>
                  rw [read]
                  exact ih _ _
              | unsupported found span => exact @outcome_error stack [operand] _ _ rfl
              | missing place => exact @outcome_error stack [operand] _ _ rfl
          | stray => exact outcome_stopAt rfl

/-! ## Values -/

variable (ν : Type) [Numeral ν]

/-- The value of an expression, or its fault without the regions it concerns. -/
def Expr.verdict (store : Store) (expr : Expr) : Except Fault (Grid Text) :=
  (expr.value ν store).mapError Diagnostic.fault

/-- A name has the same value or the same fault wherever it stands. -/
theorem nameValue_placeless (store : Store) (name : Text) (span place : Span) :
    (nameValue store name span).mapError Diagnostic.fault =
      (nameValue store name place).mapError Diagnostic.fault := by
  unfold nameValue
  cases store.get? name with
  | none => cases Name.constant? name <;> rfl
  | some tensor => cases tensor <;> rfl

/-- Two operands that have values are combined, and otherwise the first fault counts. -/
theorem verdict_binary (store : Store) (operator : Operator) (sign? : Option Span)
    (left right : Expr) :
    (Expr.binary operator sign? left right).verdict ν store = (do
      let first ← left.verdict ν store
      let second ← right.verdict ν store
      (operator.apply ν first second).mapError Fault.arithmetic) := by
  simp only [Expr.verdict, Expr.value]
  cases left.value ν store with
  | error diagnostic => rfl
  | ok first =>
      cases right.value ν store with
      | error diagnostic => rfl
      | ok second =>
          simp only [bind, Except.bind]
          show Except.mapError _ _ = Except.mapError _ (operator.apply ν first second)
          cases operator.apply ν first second <;> rfl

/-- The value of an expression does not depend on places. -/
theorem verdict_placeless (store : Store) (expr : Expr) :
    expr.placeless.verdict ν store = expr.verdict ν store := by
  induction expr with
  | number lexeme span =>
      simp only [Expr.verdict, Expr.placeless, Expr.value, numberValue]
      cases Numeral.read? ν lexeme <;> rfl
  | name text span => exact nameValue_placeless store text nowhere span
  | negation _ operand ih | transpose operand _ ih =>
      simp only [Expr.verdict, Expr.placeless, Expr.value] at ih ⊢
      rw [map_mapError, map_mapError, ih]
  | group _ inner ih => exact ih
  | binary operator sign? left right first second =>
      rw [Expr.placeless, verdict_binary, verdict_binary, first, second]

end MatrixFormula.Formula
