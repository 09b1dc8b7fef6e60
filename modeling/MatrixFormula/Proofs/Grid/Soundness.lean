import MatrixFormula.Proofs.Cell.Unambiguous
import MatrixFormula.Proofs.Decimal.Rational
import MatrixFormula.Proofs.Grid.Arithmetic

/-!
# Soundness of the algebra

Cells that are well-formed terms stay well formed under every operation, and what they denote
is what the operation makes of the operands, and nothing else. With exact numerals nothing is
lost, whatever the symbols stand for.
-/

namespace MatrixFormula

namespace Cell

variable {K : Type*} [Field K] {σ : Text → K} {text : Text} {x : K}

/-- In the full dialect the literals that are zero are terms like all others. -/
theorem reads_full_iff : Reads .full σ text x ↔ Denotes .full σ .sum text x := by
  constructor
  · rintro (term | ⟨literal, -⟩)
    · exact term
    · cases literal with
      | bare unsigned =>
          exact .ofSummand (.ofProduct (.ofSigned (.ofFactor (.number ⟨unsigned, trivial⟩))))
      | minus unsigned =>
          exact .ofSummand (.ofProduct (.ofSigned (.negation
            (.ofFactor (.number ⟨unsigned, trivial⟩)) (.inl trivial))))
      | plus allowed => exact allowed.elim
  · exact .inl

end Cell

variable {K : Type} [Field K] {ν : Type} [Numeral ν] {stands : ν → K → Prop}

/-- The cells of a grid are well-formed terms for the numbers of another one. -/
def Grid.Denotes (σ : Text → K) : Grid Text → Grid K → Prop :=
  Grid.Related (Cell.Denotes .full σ .sum)

/-- In the full dialect this holds for the cells of grids as well. -/
theorem Grid.reads_full_iff {σ : Text → K} {grid : Grid Text} {numbers : Grid K} :
    grid.Reads .full σ numbers ↔ grid.Denotes σ numbers :=
  ⟨fun reads => reads.mono fun _ _ => Cell.reads_full_iff.mp,
    fun denotes => denotes.mono fun _ _ => Cell.reads_full_iff.mpr⟩

/-- Grids of well-formed cells denote only one grid of numbers under a valuation. -/
theorem Grid.Denotes.unique {σ : Text → K} {grid : Grid Text} {first second : Grid K}
    (one : grid.Denotes σ first) (other : grid.Denotes σ second) : first = second :=
  Related.unique one other fun _ _ _ => Cell.Denotes.unique

/-- With exact numerals, all arithmetic on well-formed cells and grids of well-formed cells
gives well-formed cells that denote the outcome of the same arithmetic in the field. -/
theorem algebra_sound (faithful : Numeral.Exact ν (fun _ : K => True) stands) (σ : Text → K) :
    (∀ {left right : Text} {x y : K}, Cell.Denotes .full σ .sum left x →
      Cell.Denotes .full σ .sum right y →
        Cell.Denotes .full σ .sum (Cell.add ν left right) (x + y) ∧
        Cell.Denotes .full σ .sum (Cell.sub ν left right) (x - y) ∧
        Cell.Denotes .full σ .sum (Cell.mul ν left right) (x * y) ∧
        Cell.Denotes .full σ .sum (Cell.neg ν left) (-x) ∧
        (Cell.isZero ν right = false →
          Cell.Denotes .full σ .sum (Cell.div ν left right) (x / y))) ∧
    (∀ {left right grid : Grid Text} {first second : Grid K}, left.Denotes σ first →
      right.Denotes σ second →
        (Grid.add ν left right = .ok grid →
          ∃ total, first.sum? second = some total ∧ grid.Denotes σ total) ∧
        (Grid.sub ν left right = .ok grid →
          ∃ difference, first.difference? second = some difference ∧ grid.Denotes σ difference) ∧
        (Grid.mul ν left right = .ok grid →
          ∃ product, first.product? second = some product ∧ grid.Denotes σ product) ∧
        (Grid.div ν left right = .ok grid →
          ∃ quotient, first.quotient? second = some quotient ∧ grid.Denotes σ quotient) ∧
        (Grid.neg ν left).Denotes σ first.opposite) := by
  constructor
  · intro left right x y first second
    rw [← Cell.reads_full_iff] at first second
    simp only [← Cell.reads_full_iff]
    exact ⟨first.add faithful second trivial trivial trivial,
      first.sub faithful second trivial trivial trivial,
      first.mul faithful second trivial trivial trivial, first.neg faithful trivial,
      first.div faithful second trivial trivial trivial⟩
  · intro left right grid first second leftDenotes rightDenotes
    rw [← Grid.reads_full_iff] at leftDenotes rightDenotes
    simp only [← Grid.reads_full_iff]
    have all (numbers : Grid K) : numbers.All fun _ => True := fun _ _ => trivial
    refine ⟨fun done => ?_, fun done => ?_, fun done => ?_, fun done => ?_,
      leftDenotes.neg faithful (all _)⟩
    · obtain ⟨total, same, reads⟩ := leftDenotes.add faithful rightDenotes (all _) (all _) done
      exact ⟨total, same, reads (all _)⟩
    · obtain ⟨difference, same, reads⟩ :=
        leftDenotes.sub faithful rightDenotes (all _) (all _) done
      exact ⟨difference, same, reads (all _)⟩
    · obtain ⟨product, same, reads⟩ :=
        leftDenotes.mul faithful rightDenotes (all _) (all _) (fun _ _ _ _ => trivial) done
      exact ⟨product, same, reads (all _)⟩
    · obtain ⟨quotient, same, reads⟩ :=
        leftDenotes.div faithful rightDenotes (all _) (all _) done
      exact ⟨quotient, same, reads (all _)⟩

/-- The difference of `x` and `y + 1` keeps its parentheses. -/
theorem algebra_sound_parentheses :
    Numeral.Exact ℚ (fun _ : ℚ => True) (fun number x => (number : ℚ) = x) ∧
      Cell.sub ℚ "x" "y + 1" = "x - (y + 1)".toList ∧
      Cell.Denotes .full (fun name => if name = ['x'] then 5 else 2) .sum
        (Cell.sub ℚ "x" "y + 1") (5 - (2 + Decimal.literal ℚ ['1'])) := by
  have symbol (name : Text) (valid : Cell.isSymbol name) (σ : Text → ℚ) :
      Cell.Denotes .full σ .product name (σ name) :=
    .ofSigned (.ofFactor (.ofAtom (.symbol valid)))
  let σ : Text → ℚ := fun name => if name = ['x'] then 5 else 2
  have left : Cell.Denotes .full σ .sum "x" 5 :=
    .ofSummand (.ofProduct (symbol ['x'] rfl σ))
  have right : Cell.Denotes .full σ .sum "y + 1" (2 + Decimal.literal ℚ ['1']) :=
    .plus (.ofSummand (.ofProduct (symbol ['y'] rfl σ)))
      (.ofProduct (.ofSigned (.ofFactor (.number ⟨rfl, trivial⟩))))
  exact ⟨Rational.exact ℚ, by decide, ((algebra_sound (Rational.exact ℚ) σ).1 left right).2.1⟩

end MatrixFormula
