import MatrixFormula.Proofs.Text.Occurrence

/-!
# Splitting at a separator

A text is split at a separator from left to right. Joined pieces are found again when no piece
holds the sign between the two spaces of the separator: whatever else a piece ends or starts with,
the separator occurs nowhere but where it was written.
-/

namespace MatrixFormula.Text

/-- The pieces of a text between the places where a separator stands. Of two such places that
overlap the first one counts. -/
def splitOn (separator : Text) : Text → List Text
  | [] => [[]]
  | char :: rest =>
      if separator.isPrefixOf (char :: rest) then
        [] :: splitOn separator (rest.drop (separator.length - 1))
      else (splitOn separator rest).modifyHead (char :: ·)
termination_by text => text.length
decreasing_by
  · simp only [List.length_drop, List.length_cons]
    omega
  · exact Nat.lt_succ_self _

/-- The separator that has a sign between two spaces. -/
def spaced (sign : Text) : Text := ' ' :: sign ++ [' ']

variable {separator text piece sign : Text} {pieces : List Text}

/-- A text without the separator is one piece. -/
theorem splitOn_of_not_infix (free : ¬ separator <:+: text) : splitOn separator text = [text] := by
  induction text with
  | nil => rw [splitOn]
  | cons char text ih =>
      obtain ⟨starts, later⟩ := not_or.mp (mt List.infix_cons_iff.mpr free)
      rw [splitOn, if_neg (mt List.isPrefixOf_iff_prefix.mp starts), ih later]
      rfl

/-- The first piece ends where the separator stands for the first time. -/
theorem splitOn_append (nonempty : separator ≠ [])
    (first : ¬ separator <:+: piece ++ separator.dropLast) (rest : Text) :
    splitOn separator (piece ++ (separator ++ rest)) = piece :: splitOn separator rest := by
  induction piece with
  | nil =>
      obtain ⟨char, others, rfl⟩ := List.exists_cons_of_ne_nil nonempty
      rw [List.nil_append, List.cons_append, splitOn, if_pos (by simp)]
      simp
  | cons char piece ih =>
      rw [List.cons_append, List.infix_cons_iff, not_or] at first
      obtain ⟨starts, later⟩ := first
      -- a separator at the front would end in front of the last character of the written one
      have apart : ¬ separator <+: char :: (piece ++ (separator ++ rest)) := by
        intro early
        refine starts (List.prefix_of_prefix_length_le early ?_ ?_)
        · have front := (List.dropLast_prefix separator).trans (List.prefix_append separator rest)
          exact (List.prefix_append_right_inj (char :: piece)).mpr front
        · simp only [List.length_cons, List.length_append, List.length_dropLast]
          omega
      rw [List.cons_append, splitOn, if_neg (mt List.isPrefixOf_iff_prefix.mp apart), ih later]
      rfl

/-- In front of its last space, a separator that follows a piece without its sign has not occurred
yet. -/
theorem not_infix_spaced (solid : ' ' ∉ sign) (free : ¬ sign <:+: piece) :
    ¬ spaced sign <:+: piece ++ (spaced sign).dropLast := by
  rintro ⟨before, after, spelled⟩
  have parts : (before ++ ' ' :: sign) ++ ' ' :: after = piece ++ ' ' :: sign := by
    simpa [spaced, List.dropLast_cons_of_ne_nil] using spelled
  rcases List.append_eq_append_iff.mp parts with
    ⟨between, rfl, -⟩ | ⟨between, front, back⟩
  · exact free ⟨before ++ [' '], between, by simp⟩
  · cases between with
    | nil => exact free ⟨before ++ [' '], [], by simpa using front⟩
    | cons _ between =>
        obtain ⟨-, back⟩ := List.cons.inj back
        exact solid (back ▸ by simp)

/-- Joined pieces are split into the same pieces. -/
theorem splitOn_joined (solid : ' ' ∉ sign) (nonempty : pieces ≠ [])
    (free : ∀ piece ∈ pieces, ¬ sign <:+: piece) :
    splitOn (spaced sign) (joined (spaced sign) pieces) = pieces := by
  induction pieces with
  | nil => exact absurd rfl nonempty
  | cons piece pieces ih =>
      obtain ⟨here, later⟩ := List.forall_mem_cons.mp free
      have first := not_infix_spaced solid here
      cases pieces with
      | nil =>
          have whole := splitOn_of_not_infix fun occurs =>
            first (occurs.trans (List.prefix_append piece _).isInfix)
          rwa [joined_singleton]
      | cons next pieces =>
          rw [joined_cons_cons, List.append_assoc, splitOn_append (by simp [spaced]) first]
          exact congrArg _ (ih (List.cons_ne_nil _ _) later)

end MatrixFormula.Text
