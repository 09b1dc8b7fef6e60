import MatrixFormula.Proofs.Formula.Evaluation
import MatrixFormula.Proofs.Grid.Soundness
import MatrixFormula.Proofs.Outcome

/-!
# What the value of a formula denotes

A formula whose names stand for grids of numbers has an exact value in every field. When the
cells that the names stand for are well-formed terms for these numbers, the grid that the
formula evaluates to denotes the exact value, and no other grid of numbers.
-/

namespace MatrixFormula.Formula

variable {K : Type} [Field K]

/-- What an operator does with two grids of numbers. -/
def Operator.outcome? : Operator → Grid K → Grid K → Option (Grid K)
  | .add => Grid.sum?
  | .sub => Grid.difference?
  | .mul => Grid.product?
  | .div => Grid.quotient?

/-- The exact value of a formula whose names stand for grids of numbers. -/
def Expr.denoted? (values : Text → Option (Grid K)) : Expr → Option (Grid K)
  | .number lexeme _ => (Decimal.read? lexeme).map fun decimal => .scalar (decimal.value K)
  | .name text _ => values text
  | .negation _ operand => (operand.denoted? values).map Grid.opposite
  | .transpose operand _ => (operand.denoted? values).map Grid.transpose
  | .group _ inner => inner.denoted? values
  | .binary operator _ left right => do
      operator.outcome? (← left.denoted? values) (← right.denoted? values)

variable {ν : Type} [Numeral ν] {safe : K → Prop} {stands : ν → K → Prop} {store : Store}
  {σ : Text → K} {values : Text → Option (Grid K)} {expr left right : Expr} {grid : Grid Text}

/-- The numbers that names stand for are those that the cells of the names denote. -/
def Interprets (store : Store) (σ : Text → K) (values : Text → Option (Grid K)) : Prop :=
  ∀ name span cells, nameValue store name span = .ok cells →
    ∃ numbers, values name = some numbers ∧ cells.Denotes σ numbers

/-- The cells of constants are symbols. -/
theorem isSymbol_of_constant? {name cell : Text} (constant : Name.constant? name = some cell) :
    Cell.isSymbol cell := by
  unfold Name.constant? at constant
  split at constant
  · cases constant
    rfl
  · split at constant <;> cases constant
    rfl

/-- Names are interpreted when variables stand for what their cells denote, and constants for
what their symbols do. -/
theorem interprets_of_variables
    (stored : ∀ name cells, store.get? name = some (.filled cells) →
      ∃ numbers, values name = some numbers ∧ cells.Denotes σ numbers)
    (constants : ∀ name cell, store.get? name = none → Name.constant? name = some cell →
      values name = some (.scalar (σ cell))) : Interprets store σ values := by
  intro name span cells done
  unfold nameValue at done
  split at done
  · next found =>
      cases done
      exact stored name cells found
  · cases done
  · next unknown =>
      split at done
      · next cell constant =>
          cases done
          refine ⟨_, constants name cell unknown constant, .ofFn rfl rfl fun _ _ => ?_⟩
          exact .ofSummand (.ofProduct (.ofSigned (.ofFactor (.ofAtom
            (.symbol (isSymbol_of_constant? constant))))))
      · cases done

/-! ## Values of the parts of a formula -/

/-- A formula of two operands has a value only if both operands have one. -/
theorem operands_of_value {operator : Operator} {sign? : Option Span}
    (done : (Expr.binary operator sign? left right).value ν store = .ok grid) :
    ∃ first second, left.value ν store = .ok first ∧ right.value ν store = .ok second ∧
      operator.apply ν first second = .ok grid := by
  obtain ⟨first, firstValue, done⟩ := exists_of_bind_eq_ok done
  obtain ⟨second, secondValue, done⟩ := exists_of_bind_eq_ok done
  refine ⟨first, second, firstValue, secondValue, ?_⟩
  split at done
  · next outcome =>
      cases done
      exact outcome
  · cases done

section Exact

variable (faithful : Numeral.Exact ν safe stands) {δ : Cell.Dialect}

include faithful

/-- The cell of a safe number is a term for it. -/
theorem reads_of_numberValue {lexeme : Text} {span : Span}
    (done : numberValue ν lexeme span = .ok grid) :
    ∃ decimal, Decimal.read? lexeme = some decimal ∧
      (safe (decimal.value K) → grid.Reads δ σ (.scalar (decimal.value K))) := by
  unfold numberValue at done
  split at done
  · next number read =>
      cases done
      obtain ⟨decimal, found, rfl⟩ := Option.map_eq_some_iff.mp read
      refine ⟨decimal, found, fun safely => .ofFn rfl rfl fun _ _ => ?_⟩
      exact Cell.reads_of_writes (faithful.write (faithful.ofDecimal decimal safely) safely)
  · cases done

/-- An operator does with grids of terms what it does with the numbers that they stand for. -/
theorem reads_of_apply {operator : Operator} {first second : Grid Text} {x y : Grid K}
    (firstReads : first.Reads δ σ x) (secondReads : second.Reads δ σ y) (firstSafe : x.All safe)
    (secondSafe : y.All safe) (productsSafe : operator = .mul → x.AllProducts safe y)
    (done : operator.apply ν first second = .ok grid) :
    ∃ outcome, operator.outcome? x y = some outcome ∧
      (outcome.All safe → grid.Reads δ σ outcome) := by
  cases operator with
  | add => exact firstReads.add faithful secondReads firstSafe secondSafe done
  | sub => exact firstReads.sub faithful secondReads firstSafe secondSafe done
  | mul => exact firstReads.mul faithful secondReads firstSafe secondSafe (productsSafe rfl) done
  | div => exact firstReads.div faithful secondReads firstSafe secondSafe done

end Exact

section Everywhere

variable (faithful : Numeral.Exact ν (fun _ : K => True) stands)

include faithful

/-- A formula that evaluates has an exact value, and its cells denote it. -/
theorem exists_denotes_of_value (means : Interprets store σ values)
    (done : expr.value ν store = .ok grid) :
    ∃ numbers, expr.denoted? values = some numbers ∧ grid.Denotes σ numbers := by
  have all (numbers : Grid K) : numbers.All fun _ => True := fun _ _ => trivial
  induction expr generalizing grid with
  | number lexeme span =>
      obtain ⟨decimal, found, reads⟩ := reads_of_numberValue faithful done
      exact ⟨_, congrArg _ found, Grid.reads_full_iff.mp (reads trivial)⟩
  | name text span => exact means text span grid done
  | negation start operand ih =>
      obtain ⟨cells, inner, rfl⟩ := exists_of_map_eq_ok done
      obtain ⟨numbers, value, denotes⟩ := ih inner
      exact ⟨_, congrArg _ value,
        Grid.reads_full_iff.mp ((Grid.reads_full_iff.mpr denotes).neg faithful (all _))⟩
  | transpose operand stop ih =>
      obtain ⟨cells, inner, rfl⟩ := exists_of_map_eq_ok done
      obtain ⟨numbers, value, denotes⟩ := ih inner
      exact ⟨_, congrArg _ value, denotes.transpose⟩
  | group span inner ih => exact ih done
  | binary operator sign? left right first second =>
      obtain ⟨leftGrid, rightGrid, leftDone, rightDone, applied⟩ := operands_of_value done
      obtain ⟨x, leftValue, leftDenotes⟩ := first leftDone
      obtain ⟨y, rightValue, rightDenotes⟩ := second rightDone
      obtain ⟨outcome, known, reads⟩ :=
        reads_of_apply faithful (Grid.reads_full_iff.mpr leftDenotes)
          (Grid.reads_full_iff.mpr rightDenotes) (all _) (all _) (fun _ _ _ _ _ => trivial) applied
      refine ⟨outcome, ?_, Grid.reads_full_iff.mp (reads (all _))⟩
      simp [Expr.denoted?, leftValue, rightValue, known]

/-- With exact numerals, the value of a formula denotes the exact value of the formula and
nothing else. -/
theorem denotes_value_iff (means : Interprets store σ values)
    (done : expr.value ν store = .ok grid) (numbers : Grid K) :
    grid.Denotes σ numbers ↔ expr.denoted? values = some numbers := by
  obtain ⟨truth, value, denotes⟩ := exists_denotes_of_value faithful means done
  constructor
  · intro other
    rw [value, denotes.unique other]
  · intro same
    rw [value, Option.some.injEq] at same
    exact same ▸ denotes

/-- A text that evaluates to a grid is read to a formula, and the grid denotes exactly what the
formula amounts to. -/
theorem denotes_evaluate_iff (means : Interprets store σ values) {source : Text}
    (done : evaluate ν store source = .ok grid) :
    ∃ expr, parse store source = .ok expr ∧
      ∀ numbers, grid.Denotes σ numbers ↔ expr.denoted? values = some numbers := by
  obtain ⟨expr, read, value⟩ := exists_parse_of_evaluate ν done
  exact ⟨expr, read, denotes_value_iff faithful means value⟩

end Everywhere

end MatrixFormula.Formula
