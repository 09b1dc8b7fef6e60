/-!
# Outcomes

Most functions of the library end with a result or with a fault. A computation of several steps
has a result only if each of the steps has one, and the first fault of a step is its fault.
-/

namespace MatrixFormula

variable {ε δ α β : Type} {outcome : Except ε α} {result : β} {error : ε}

/-- Two steps in a row have a result only if both have one. -/
theorem exists_of_bind_eq_ok {next : α → Except ε β} (done : (outcome >>= next) = .ok result) :
    ∃ value, outcome = .ok value ∧ next value = .ok result := by
  cases outcome with
  | error => cases done
  | ok value => exact ⟨value, rfl, done⟩

/-- The fault of two steps in a row is that of the first step, or of the second one after a
result of the first. -/
theorem error_of_bind_eq_error {next : α → Except ε β}
    (failed : (outcome >>= next) = .error error) :
    outcome = .error error ∨ ∃ value, outcome = .ok value ∧ next value = .error error := by
  cases outcome with
  | error =>
      cases failed
      exact .inl rfl
  | ok value => exact .inr ⟨value, rfl, failed⟩

/-- A changed result comes from a result. -/
theorem exists_of_map_eq_ok {change : α → β} (done : outcome.map change = .ok result) :
    ∃ value, outcome = .ok value ∧ change value = result := by
  cases outcome with
  | error => cases done
  | ok value => exact ⟨value, rfl, Except.ok.inj done⟩

/-- A change of results keeps faults. -/
theorem error_of_map_eq_error {change : α → β} (failed : outcome.map change = .error error) :
    outcome = .error error := by
  cases outcome with
  | error =>
      cases failed
      rfl
  | ok => cases failed

/-- Of several outcomes the first fault counts. -/
theorem exists_of_mapM_eq_error {run : α → Except ε β} {items : List α}
    (failed : items.mapM run = .error error) : ∃ item ∈ items, run item = .error error := by
  induction items with
  | nil => cases failed
  | cons item items ih =>
      rw [List.mapM_cons] at failed
      rcases error_of_bind_eq_error failed with here | ⟨value, -, failed⟩
      · exact ⟨item, List.mem_cons_self, here⟩
      · rcases error_of_bind_eq_error failed with later | ⟨values, -, failed⟩
        · obtain ⟨other, member, found⟩ := ih later
          exact ⟨other, List.mem_cons_of_mem _ member, found⟩
        · cases failed

/-! ## Changes of faults -/

/-- A change of results and one of faults do not meet. -/
theorem map_mapError (outcome : Except ε α) (change : α → β) (forget : ε → δ) :
    (outcome.map change).mapError forget = (outcome.mapError forget).map change := by
  cases outcome <;> rfl

/-- A change of faults passes through steps in a row. -/
theorem mapError_bind (outcome : Except ε α) (next : α → Except ε β) (forget : ε → δ) :
    (outcome >>= next).mapError forget =
      outcome.mapError forget >>= fun value => (next value).mapError forget := by
  cases outcome <;> rfl

/-- A change of faults passes through a step whose result is not used. -/
theorem mapError_discard (outcome : Except ε α) (forget : ε → δ) :
    (discard outcome).mapError forget = discard (outcome.mapError forget) := by
  cases outcome <;> rfl

end MatrixFormula
