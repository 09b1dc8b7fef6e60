import MatrixFormula.Grid.Arithmetic
import MatrixFormula.Proofs.Cell.Arithmetic
import MatrixFormula.Proofs.Grid.Numbers

/-!
# Grid arithmetic on terms

Whenever an operation on grids of terms succeeds, the same operation is defined on the
matrices that they denote, and every cell of the outcome is a term for the entry of the
matrix operation in its place.
-/

namespace MatrixFormula

variable {K : Type} [Field K] {ν : Type} [Numeral ν] {safe : K → Prop} {stands : ν → K → Prop}
  (faithful : Numeral.Exact ν safe stands) {δ : Cell.Dialect} {σ : Text → K}
  {left right grid : Grid Text} {leftNumbers rightNumbers : Grid K}

namespace Grid

/-- The cells of a grid are terms for the numbers of another one. -/
def Reads (δ : Cell.Dialect) (σ : Text → K) : Grid Text → Grid K → Prop :=
  Related (Cell.Reads δ σ)

/-- Two grids of one size, combined cell by cell by an operation that is right on cells. -/
theorem Reads.combine {combination : Combination} {cell : Text → Text → Text}
    {operation : K → K → K} (first : left.Reads δ σ leftNumbers)
    (second : right.Reads δ σ rightNumbers)
    (sound : ∀ row col otherRow otherCol, let x := leftNumbers.entry row col
      let y := rightNumbers.entry otherRow otherCol
      ∀ a b, Cell.Reads δ σ a x → Cell.Reads δ σ b y → safe (operation x y) →
        Cell.Reads δ σ (cell a b) (operation x y))
    (done : Grid.combine combination cell left right = .ok grid) :
    ∃ outcome, leftNumbers.entrywise? operation rightNumbers = some outcome ∧
      (outcome.All safe → grid.Reads δ σ outcome) := by
  obtain ⟨leftRows, leftCols, first⟩ := first
  obtain ⟨rightRows, rightCols, second⟩ := second
  unfold Grid.combine at done
  split at done
  · next fits =>
      cases done
      have numberFits : leftNumbers.rows = rightNumbers.rows ∧
          leftNumbers.cols = rightNumbers.cols :=
        ⟨leftRows ▸ rightRows ▸ fits.1, leftCols ▸ rightCols ▸ fits.2⟩
      refine ⟨_, dif_pos numberFits, fun safely => .ofFn leftRows leftCols fun row col => ?_⟩
      exact sound _ _ _ _ _ _ (first row col) (second (row.cast fits.1) (col.cast fits.2))
        (all_ofFn.mp safely _ _)
  · cases done

include faithful

/-- The sum of two grids. -/
theorem Reads.add (first : left.Reads δ σ leftNumbers) (second : right.Reads δ σ rightNumbers)
    (leftSafe : leftNumbers.All safe) (rightSafe : rightNumbers.All safe)
    (done : Grid.add ν left right = .ok grid) :
    ∃ total, leftNumbers.sum? rightNumbers = some total ∧
      (total.All safe → grid.Reads δ σ total) :=
  first.combine second (fun _ _ _ _ _ _ cell other safely =>
    cell.add faithful other (leftSafe _ _) (rightSafe _ _) safely) done

/-- The difference of two grids. -/
theorem Reads.sub (first : left.Reads δ σ leftNumbers) (second : right.Reads δ σ rightNumbers)
    (leftSafe : leftNumbers.All safe) (rightSafe : rightNumbers.All safe)
    (done : Grid.sub ν left right = .ok grid) :
    ∃ difference, leftNumbers.difference? rightNumbers = some difference ∧
      (difference.All safe → grid.Reads δ σ difference) :=
  first.combine second (fun _ _ _ _ _ _ cell other safely =>
    cell.sub faithful other (leftSafe _ _) (rightSafe _ _) safely) done

/-- The opposite of a grid. -/
theorem Reads.neg (cells : left.Reads δ σ leftNumbers) (safely : leftNumbers.All safe) :
    (Grid.neg ν left).Reads δ σ leftNumbers.opposite :=
  cells.map safely fun _ _ cell safely => cell.neg faithful safely

/-- A grid scaled by a factor on its left. -/
theorem Reads.scale {factor : Text} {x : K} (number : Cell.Reads δ σ factor x) (factorSafe : safe x)
    (cells : left.Reads δ σ leftNumbers) (leftSafe : leftNumbers.All safe)
    (safely : (leftNumbers.map (x * ·)).All safe) :
    (Grid.scale ν factor left).Reads δ σ (leftNumbers.map (x * ·)) := by
  obtain ⟨rows, cols, each⟩ := cells
  exact .ofFn rows cols fun row col =>
    number.mul faithful (each row col) factorSafe (leftSafe _ _) (all_ofFn.mp safely _ _)

/-- The product of two grids. -/
theorem Reads.mul (first : left.Reads δ σ leftNumbers) (second : right.Reads δ σ rightNumbers)
    (leftSafe : leftNumbers.All safe) (rightSafe : rightNumbers.All safe)
    (productsSafe : leftNumbers.AllProducts safe rightNumbers)
    (done : Grid.mul ν left right = .ok grid) :
    ∃ product, leftNumbers.product? rightNumbers = some product ∧
      (product.All safe → grid.Reads δ σ product) := by
  unfold Grid.mul at done
  unfold product?
  rw [first.isScalar_eq, second.isScalar_eq] at done
  split at done
  · next scalar =>
      cases done
      rw [if_pos scalar]
      exact ⟨_, rfl, fun safely =>
        second.scale faithful first.corner (leftSafe _ _) rightSafe safely⟩
  · next leftMany =>
      rw [if_neg leftMany]
      split at done
      · next scalar =>
          cases done
          rw [if_pos scalar]
          exact ⟨_, rfl, fun safely =>
            first.scale faithful second.corner (rightSafe _ _) leftSafe safely⟩
      · next rightMany =>
          rw [if_neg rightMany]
          obtain ⟨leftRows, leftCols, first⟩ := first
          obtain ⟨rightRows, rightCols, second⟩ := second
          split at done
          · next fits =>
              cases done
              have numberFits : leftNumbers.cols = rightNumbers.rows :=
                leftCols ▸ rightRows ▸ fits
              rw [dif_pos numberFits]
              refine ⟨_, rfl, fun _ => .ofFn leftRows rightCols fun row col => ?_⟩
              have cell := Cell.Reads.sumProducts faithful
                (fun inner => Cell.mul ν (left.entry row inner) (right.entry (inner.cast fits) col))
                (fun inner => leftNumbers.entry (row.cast leftRows) (inner.cast leftCols) *
                  rightNumbers.entry ((inner.cast leftCols).cast numberFits) (col.cast rightCols))
                (List.finRange left.cols)
                (fun inner _ => (first row inner).mul faithful (second (inner.cast fits) col)
                  (leftSafe _ _) (rightSafe _ _) (productsSafe ..))
                (fun inner _ => productsSafe ..)
              rw [sum_products leftCols numberFits] at cell
              exact cell
          · cases done

/-- The quotient of a grid and a number. -/
theorem Reads.div (first : left.Reads δ σ leftNumbers) (second : right.Reads δ σ rightNumbers)
    (leftSafe : leftNumbers.All safe) (rightSafe : rightNumbers.All safe)
    (done : Grid.div ν left right = .ok grid) :
    ∃ quotient, leftNumbers.quotient? rightNumbers = some quotient ∧
      (quotient.All safe → grid.Reads δ σ quotient) := by
  unfold Grid.div at done
  unfold quotient?
  rw [second.isScalar_eq] at done
  split at done
  · cases done
  · next scalar =>
      split at done
      · cases done
      · next nonzero =>
          cases done
          rw [if_pos (by simpa using scalar)]
          refine ⟨_, rfl, fun safely => ?_⟩
          obtain ⟨rows, cols, each⟩ := first
          exact .ofFn rows cols fun row col =>
            (each row col).div faithful second.corner (leftSafe _ _) (rightSafe _ _)
              (all_ofFn.mp safely _ _) (by simpa using nonzero)

end Grid

end MatrixFormula
