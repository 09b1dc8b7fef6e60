import MatrixFormula.Pending

/-!
# Operands among frames

What is pending settles in the same way whatever the frames are: an operand passes all frames
that bind tightly enough and stays in front of the first one that does not. An operator behind it
then waits on the rest of the stack.
-/

namespace MatrixFormula.Pending

variable {φ τ : Type} [Pending φ τ] {least : Nat} {frame : φ} {frames stack : List φ}

/-! ## The nearest frame -/

theorem settle_cons (least : Nat) (operand : τ) (frame : φ) (stack : List φ) :
    settle least operand (frame :: stack) =
      if least ≤ rank frame then settle least (fill frame operand) stack
      else (operand, frame :: stack) := rfl

/-- A frame that binds tightly enough takes in the operand. -/
theorem settle_tight (tight : least ≤ rank frame) (operand : τ) (stack : List φ) :
    settle least operand (frame :: stack) = settle least (fill frame operand) stack :=
  if_pos tight

/-- An operator behind an operand finds it in the frame that binds tightly enough. -/
theorem await_tight (tight : least ≤ rank frame) (operator : τ → φ) (operand : τ)
    (stack : List φ) :
    await operator least operand (frame :: stack) =
      await operator least (fill frame operand) stack := by
  rw [await, await, settle_tight tight]

/-- An operand stays in front of a frame that binds too loosely. -/
theorem settle_loose (loose : rank frame < least) (operand : τ) (stack : List φ) :
    settle least operand (frame :: stack) = (operand, frame :: stack) :=
  if_neg (Nat.not_le.mpr loose)

/-- An operand stays where it is when no frame is there, or the nearest one binds too loosely. -/
theorem settle_stays (loose : ∀ frame ∈ stack.head?, rank frame < least) (operand : τ) :
    settle least operand stack = (operand, stack) := by
  cases stack with
  | nil => rfl
  | cons frame stack => exact settle_loose (loose frame rfl) operand stack

/-- What is left when an operand is settled is the lower end of the stack. -/
theorem settle_suffix (least : Nat) (operand : τ) (stack : List φ) :
    (settle least operand stack).2 <:+ stack := by
  induction stack generalizing operand with
  | nil => exact List.suffix_rfl
  | cons frame stack ih =>
      rw [settle_cons]
      split
      · exact (ih _).trans (List.suffix_cons _ _)
      · exact List.suffix_rfl

/-- The nearest frame that is left binds more loosely than the rank. -/
theorem rank_head_settle {operand : τ} (head : frame ∈ (settle least operand stack).2.head?) :
    rank frame < least := by
  obtain ⟨below, left⟩ := List.head?_eq_some_iff.mp head
  exact rank_lt_of_settle (Prod.ext rfl left)

/-! ## Frames in a row -/

/-- What frames make of an operand when all of them take it in, the first one first. -/
def fillAll (operand : τ) (frames : List φ) : τ :=
  frames.foldl (fun operand frame => fill frame operand) operand

@[simp] theorem fillAll_nil (operand : τ) : fillAll operand ([] : List φ) = operand := rfl

@[simp] theorem fillAll_append (operand : τ) (frames : List φ) (last : φ) :
    fillAll operand (frames ++ [last]) = fill last (fillAll operand frames) := by
  simp [fillAll]

/-- An operand passes all frames that bind tightly enough. -/
theorem settle_append (tight : ∀ frame ∈ frames, least ≤ rank frame) (operand : τ)
    (stack : List φ) :
    settle least operand (frames ++ stack) = settle least (fillAll operand frames) stack := by
  induction frames generalizing operand with
  | nil => rfl
  | cons frame frames ih =>
      rw [List.cons_append, settle_tight (tight frame (by simp))]
      exact ih (fun other member => tight other (by simp [member])) _

/-- An operator takes in all that binds tightly enough, and waits on the rest of the stack. -/
theorem await_append (tight : ∀ frame ∈ frames, least ≤ rank frame)
    (loose : ∀ frame ∈ stack.head?, rank frame < least) (operator : τ → φ) (operand : τ) :
    await operator least operand (frames ++ stack) =
      operator (fillAll operand frames) :: stack := by
  rw [await, settle_append tight, settle_stays loose]

/-- One more frame below frames that bind tightly, which may bind a little more loosely. -/
theorem forall_rank_append {tighter : Nat} {last : φ}
    (tight : ∀ frame ∈ frames, tighter ≤ rank frame) (looser : least ≤ tighter)
    (below : least ≤ rank last) : ∀ frame ∈ frames ++ [last], least ≤ rank frame := by
  intro frame member
  rcases List.mem_append.mp member with above | same
  · exact Nat.le_trans looser (tight frame above)
  · rwa [List.mem_singleton.mp same]

end MatrixFormula.Pending
