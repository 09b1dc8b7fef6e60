/-!
# Stacks of pending operators

A formula is read with a stack of what still waits for an operand. Each frame of the
stack has a rank, which says how tightly it binds, and knows what it makes of its
operand. An operand is settled up to a rank by letting all frames that bind at least
as tightly take it in, the nearest one first.
-/

namespace MatrixFormula

/-- Frames of type `φ` that wait for operands of type `τ`. -/
class Pending (φ : Type) (τ : outParam Type) where
  /-- How tightly the frame binds its operand. -/
  rank : φ → Nat
  /-- What the frame makes of its operand. -/
  fill : φ → τ → τ

namespace Pending

variable {φ τ : Type} [Pending φ τ]

/-- Lets the frames that bind with the least rank or more tightly take in an operand,
up to the first one that does not. The frames that are left wait for more. -/
def settle (least : Nat) : τ → List φ → τ × List φ
  | operand, [] => (operand, [])
  | operand, frame :: stack =>
      if least ≤ rank frame then settle least (fill frame operand) stack
      else (operand, frame :: stack)

/-- The stack on which an operator waits for its right operand, when its left operand
is settled up to a rank. -/
def await (operator : τ → φ) (least : Nat) (operand : τ) (stack : List φ) : List φ :=
  let (left, below) := settle least operand stack
  operator left :: below

/-- No frame that is left binds as tightly as the rank, if it is the nearest one. -/
theorem rank_lt_of_settle {least : Nat} {operand result : τ} {stack below : List φ} {frame : φ}
    (settled : settle least operand stack = (result, frame :: below)) : rank frame < least := by
  fun_induction settle least operand stack with
  | case1 => simp at settled
  | case2 operand frame stack tight ih => exact ih settled
  | case3 operand frame stack loose =>
      obtain ⟨rfl, rfl, rfl⟩ : operand = result ∧ frame = _ ∧ stack = below := by
        simpa using settled
      exact Nat.lt_of_not_le loose

section Map

variable {ψ σ : Type} [Pending ψ σ] {onFrame : φ → ψ} {onOperand : τ → σ}

/-- A map of frames and operands that keeps ranks and what frames make of their operands also
keeps how operands are settled. -/
theorem settle_map (keeps : ∀ frame, rank (onFrame frame) = rank frame)
    (fills : ∀ frame operand, onOperand (fill frame operand) =
      fill (onFrame frame) (onOperand operand)) (least : Nat) (operand : τ) (stack : List φ) :
    settle least (onOperand operand) (stack.map onFrame) =
      (onOperand (settle least operand stack).1, (settle least operand stack).2.map onFrame) := by
  induction stack generalizing operand with
  | nil => rfl
  | cons frame stack ih =>
      simp only [List.map_cons, settle, keeps]
      split
      · rw [← fills, ih]
      · rfl

/-- Such a map also keeps which operators wait. -/
theorem await_map (keeps : ∀ frame, rank (onFrame frame) = rank frame)
    (fills : ∀ frame operand, onOperand (fill frame operand) =
      fill (onFrame frame) (onOperand operand)) {operator : τ → φ} {changed : σ → ψ}
    (operators : ∀ left, onFrame (operator left) = changed (onOperand left)) (least : Nat)
    (operand : τ) (stack : List φ) :
    (await operator least operand stack).map onFrame =
      await changed least (onOperand operand) (stack.map onFrame) := by
  simp only [await, settle_map keeps fills, List.map_cons, operators]

end Map

end Pending

end MatrixFormula
