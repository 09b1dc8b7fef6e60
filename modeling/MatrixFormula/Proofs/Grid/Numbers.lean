import Mathlib.Algebra.BigOperators.Fin
import Mathlib.Data.Matrix.Mul
import MatrixFormula.Grid.Basic

/-!
# Grids of numbers

A grid of numbers is a matrix with its size. Sums, differences and products of such grids
are those of matrices, except that a grid of one number scales every other grid. Grids of
other things are compared with them cell by cell.
-/

namespace MatrixFormula.Grid

/-- Two grids of one size with related cells. -/
def Related {α β : Type} (relation : α → β → Prop) (left : Grid α) (right : Grid β) : Prop :=
  ∃ (rows : left.rows = right.rows) (cols : left.cols = right.cols),
    ∀ row col, relation (left.entry row col) (right.entry (row.cast rows) (col.cast cols))

/-- Whether all cells of a grid have a property. -/
def All {α : Type} (property : α → Prop) (grid : Grid α) : Prop :=
  ∀ row col, property (grid.entry row col)

variable {α β : Type} {relation : α → β → Prop} {left : Grid α} {right : Grid β}

/-- Related grids are both of one cell, or neither is. -/
theorem Related.isScalar_eq (related : Related relation left right) :
    left.isScalar = right.isScalar := by
  obtain ⟨rows, cols, -⟩ := related
  rw [isScalar, isScalar, rows, cols]

/-- The first cells of related grids are related. -/
theorem Related.corner (related : Related relation left right) :
    relation left.corner right.corner := by
  obtain ⟨_, _, each⟩ := related
  exact each ⟨0, left.rowsPos⟩ ⟨0, left.colsPos⟩

/-- Grids stay related in a wider sense. -/
theorem Related.mono {wider : α → β → Prop} (related : Related relation left right)
    (weaken : ∀ a b, relation a b → wider a b) : Related wider left right := by
  obtain ⟨rows, cols, each⟩ := related
  exact ⟨rows, cols, fun row col => weaken _ _ (each row col)⟩

/-- Grids with the same cells are equal. -/
theorem Related.eq {left right : Grid α} (same : Related Eq left right) : left = right := by
  obtain ⟨leftRows, leftCols, leftRowsPos, leftColsPos, leftCells⟩ := left
  obtain ⟨rightRows, rightCols, rightRowsPos, rightColsPos, rightCells⟩ := right
  obtain ⟨sameRows, sameCols, each⟩ := same
  obtain rfl : leftRows = rightRows := sameRows
  obtain rfl : leftCols = rightCols := sameCols
  congr 1
  ext row inRow col inCol
  exact each ⟨row, inRow⟩ ⟨col, inCol⟩

/-- Only one grid is related to a grid when only one thing is related to a cell. -/
theorem Related.unique {first second : Grid β} (one : Related relation left first)
    (other : Related relation left second)
    (functional : ∀ cell a b, relation cell a → relation cell b → a = b) : first = second := by
  obtain ⟨rows, cols, each⟩ := one
  obtain ⟨otherRows, otherCols, otherEach⟩ := other
  refine Related.eq ⟨rows.symm.trans otherRows, cols.symm.trans otherCols, fun row col => ?_⟩
  exact functional _ _ _ (each (row.cast rows.symm) (col.cast cols.symm)) (otherEach _ _)

/-- Computed grids of one size are related when the computed cells are. -/
theorem Related.ofFn {rows cols otherRows otherCols : Nat} {rowsPos : 0 < rows}
    {colsPos : 0 < cols} {otherRowsPos : 0 < otherRows} {otherColsPos : 0 < otherCols}
    {cell : Fin rows → Fin cols → α} {otherCell : Fin otherRows → Fin otherCols → β}
    (sameRows : rows = otherRows) (sameCols : cols = otherCols)
    (each : ∀ row col,
      relation (cell row col) (otherCell (row.cast sameRows) (col.cast sameCols))) :
    Related relation (Grid.ofFn rows cols rowsPos colsPos cell)
      (Grid.ofFn otherRows otherCols otherRowsPos otherColsPos otherCell) := by
  subst sameRows sameCols
  refine ⟨rfl, rfl, fun (row : Fin rows) (col : Fin cols) => ?_⟩
  rw [entry_ofFn]
  exact (entry_ofFn row col).symm ▸ each row col

/-- Changing the cells of related grids relates the changed cells. The cells of the second
grid may all have a property. -/
theorem Related.map {γ δ : Type} {changed : γ → δ → Prop} {leftChange : α → γ}
    {rightChange : β → δ} {property : β → Prop} (related : Related relation left right)
    (all : right.All property)
    (step : ∀ a b, relation a b → property b → changed (leftChange a) (rightChange b)) :
    Related changed (left.map leftChange) (right.map rightChange) := by
  obtain ⟨rows, cols, each⟩ := related
  exact .ofFn rows cols fun row col => step _ _ (each row col) (all _ _)

/-- All cells of a computed grid have a property when all computed cells have it. -/
theorem all_ofFn {property : α → Prop} {rows cols : Nat} {rowsPos : 0 < rows} {colsPos : 0 < cols}
    {cell : Fin rows → Fin cols → α} :
    (Grid.ofFn rows cols rowsPos colsPos cell).All property ↔
      ∀ row col, property (cell row col) := by
  constructor
  · intro all row col
    have cell := all row col
    rwa [entry_ofFn] at cell
  · intro each (row : Fin rows) (col : Fin cols)
    rw [entry_ofFn]
    exact each row col

/-- A partial change of all cells relates each cell to what it is changed to. -/
theorem related_of_mapAll? {change : α → Option β} {grid : Grid α} {changed : Grid β}
    (done : grid.mapAll? change = some changed) :
    Related (fun cell other => change cell = some other) grid changed := by
  unfold mapAll? at done
  split at done
  · next all =>
      cases done
      have related : Related (fun cell other => change cell = some other)
          (ofFn grid.rows grid.cols grid.rowsPos grid.colsPos grid.entry)
          (ofFn grid.rows grid.cols grid.rowsPos grid.colsPos
            fun row col => (change (grid.entry row col)).get (all row col)) :=
        .ofFn rfl rfl fun row col => (Option.some_get (all row col)).symm
      rwa [ofFn_entry] at related
  · cases done

/-- A partial change of all cells exists when it exists on each of them. -/
theorem isSome_mapAll? {change : α → Option β} {grid : Grid α}
    (all : grid.All fun cell => (change cell).isSome) : (grid.mapAll? change).isSome := by
  unfold All at all
  rw [mapAll?, dif_pos all]
  rfl

/-- The transposes of related grids are related. -/
theorem Related.transpose (related : Related relation left right) :
    Related relation left.transpose right.transpose := by
  obtain ⟨rows, cols, each⟩ := related
  exact .ofFn cols rows fun row col => each col row

section Ring

variable {K : Type} [CommRing K]

/-- The numbers of a grid as a matrix. -/
def matrix (grid : Grid K) : Matrix (Fin grid.rows) (Fin grid.cols) K := Matrix.of grid.entry

/-- Two matrices of one size, combined entry by entry. -/
def entrywise? (operation : K → K → K) (left right : Grid K) : Option (Grid K) :=
  if fits : left.rows = right.rows ∧ left.cols = right.cols then
    some (ofFn left.rows left.cols left.rowsPos left.colsPos fun row col =>
      operation (left.entry row col) (right.entry (row.cast fits.1) (col.cast fits.2)))
  else none

/-- The sum of two matrices of one size. -/
def sum? : Grid K → Grid K → Option (Grid K) := entrywise? (· + ·)

/-- The difference of two matrices of one size. -/
def difference? : Grid K → Grid K → Option (Grid K) := entrywise? (· - ·)

/-- The product of two matrices, of which one may be a number. -/
def product? (left right : Grid K) : Option (Grid K) :=
  if left.isScalar then some (right.map (left.corner * ·))
  else if right.isScalar then some (left.map (right.corner * ·))
  else if fits : left.cols = right.rows then
    some (ofFn left.rows right.cols left.rowsPos right.colsPos
      (left.matrix * right.matrix.submatrix (Fin.cast fits) id))
  else none

/-- The opposite of a matrix. -/
def opposite (grid : Grid K) : Grid K := grid.map (-·)

/-- The products of entries that a matrix product adds up have a property. -/
def AllProducts (property : K → Prop) (left right : Grid K) : Prop :=
  ∀ (fits : left.cols = right.rows) (row : Fin left.rows) (inner : Fin left.cols)
    (col : Fin right.cols), property (left.entry row inner * right.entry (inner.cast fits) col)

/-- An entry of a matrix product is a sum of products, in the order of the inner index. -/
theorem sum_products {left right : Grid K} {inners : Nat} (same : inners = left.cols)
    (fits : left.cols = right.rows) (row : Fin left.rows) (col : Fin right.cols) :
    ((List.finRange inners).map fun inner => left.entry row (inner.cast same) *
        right.entry ((inner.cast same).cast fits) col).sum =
      (left.matrix * right.matrix.submatrix (Fin.cast fits) id) row col := by
  subst same
  rw [Matrix.mul_apply, Fin.sum_univ_def]
  rfl

end Ring

/-- The quotient of a matrix and a number. -/
def quotient? {K : Type} [Field K] (left right : Grid K) : Option (Grid K) :=
  if right.isScalar then some (left.map (· / right.corner)) else none

end MatrixFormula.Grid
