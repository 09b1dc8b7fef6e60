/-!
# Grids

A grid is a rectangle of cells with at least one row and one column. Both numbers
are part of the value, and the cells are stored so that every row has the declared
width: there is no ragged or empty grid.
-/

namespace MatrixFormula

/-- A rectangle of cells with at least one row and one column. -/
structure Grid (α : Type) where
  rows : Nat
  cols : Nat
  rowsPos : 0 < rows
  colsPos : 0 < cols
  cells : Vector (Vector α cols) rows
deriving DecidableEq, Repr

namespace Grid

variable {α β : Type}

/-- The numbers of rows and columns. -/
def dims (grid : Grid α) : Nat × Nat := (grid.rows, grid.cols)

/-- The cell at a position inside the grid. -/
def entry (grid : Grid α) (row : Fin grid.rows) (col : Fin grid.cols) : α :=
  grid.cells[row.val][col.val]

/-- The cell at a position, or nothing when the position lies outside the grid. -/
def get? (grid : Grid α) (row col : Nat) : Option α :=
  if inside : row < grid.rows ∧ col < grid.cols then
    some (grid.entry ⟨row, inside.1⟩ ⟨col, inside.2⟩)
  else none

/-- The cell in the first row and column. -/
def corner (grid : Grid α) : α := grid.entry ⟨0, grid.rowsPos⟩ ⟨0, grid.colsPos⟩

/-- Whether the grid has exactly one cell. -/
def isScalar (grid : Grid α) : Bool := grid.rows == 1 && grid.cols == 1

/-- The grid of the given size whose cells are computed from their positions. -/
def ofFn (rows cols : Nat) (rowsPos : 0 < rows) (colsPos : 0 < cols)
    (cell : Fin rows → Fin cols → α) : Grid α where
  rows := rows
  cols := cols
  rowsPos := rowsPos
  colsPos := colsPos
  cells := Vector.ofFn fun row => Vector.ofFn fun col => cell row col

/-- The grid whose cells are computed from their positions. A size of zero is
raised to one. -/
def generate (rows cols : Nat) (cell : Nat → Nat → α) : Grid α :=
  ofFn (max rows 1) (max cols 1) (by omega) (by omega) fun row col => cell row col

/-- The grid of one cell. -/
def scalar (cell : α) : Grid α := ofFn 1 1 (by omega) (by omega) fun _ _ => cell

/-- The grid with the given rows. There is none without a row, without a column or
with rows of different lengths. -/
def ofRows? : List (List α) → Option (Grid α)
  | [] => none
  | first :: rest =>
      if fits : 0 < first.length ∧ ∀ row ∈ first :: rest, row.length = first.length then
        some {
          rows := (first :: rest).length
          cols := first.length
          rowsPos := Nat.zero_lt_succ _
          colsPos := fits.1
          cells := ⟨((first :: rest).attach.map fun row =>
            (⟨row.1.toArray, by simp [fits.2 row.1 row.2]⟩ : Vector α first.length)).toArray,
            by simp⟩ }
      else none

/-- The rows of a grid, from the top. -/
def toRows (grid : Grid α) : List (List α) := grid.cells.toList.map Vector.toList

/-- The cells of a grid, row by row. -/
def toList (grid : Grid α) : List α := grid.toRows.flatten

/-- The grid with a function applied to every cell. -/
def map (change : α → β) (grid : Grid α) : Grid β :=
  ofFn grid.rows grid.cols grid.rowsPos grid.colsPos fun row col => change (grid.entry row col)

/-- The grid with a partial function applied to every cell, when it is defined on
all of them. -/
def mapAll? (change : α → Option β) (grid : Grid α) : Option (Grid β) :=
  if all : ∀ row col, (change (grid.entry row col)).isSome then
    some (ofFn grid.rows grid.cols grid.rowsPos grid.colsPos
      fun row col => (change (grid.entry row col)).get (all row col))
  else none

/-- The grid whose rows are the columns of the given one. -/
def transpose (grid : Grid α) : Grid α :=
  ofFn grid.cols grid.rows grid.colsPos grid.rowsPos fun row col => grid.entry col row

@[simp] theorem rows_ofFn {rows cols : Nat} {rowsPos : 0 < rows} {colsPos : 0 < cols}
    {cell : Fin rows → Fin cols → α} : (ofFn rows cols rowsPos colsPos cell).rows = rows := rfl

@[simp] theorem cols_ofFn {rows cols : Nat} {rowsPos : 0 < rows} {colsPos : 0 < cols}
    {cell : Fin rows → Fin cols → α} : (ofFn rows cols rowsPos colsPos cell).cols = cols := rfl

/-- A computed grid has the computed cells. -/
@[simp] theorem entry_ofFn {rows cols : Nat} {rowsPos : 0 < rows} {colsPos : 0 < cols}
    {cell : Fin rows → Fin cols → α} (row : Fin rows) (col : Fin cols) :
    (ofFn rows cols rowsPos colsPos cell).entry row col = cell row col := by
  simp [entry, ofFn]

@[simp] theorem rows_map {change : α → β} {grid : Grid α} : (grid.map change).rows = grid.rows :=
  rfl

@[simp] theorem cols_map {change : α → β} {grid : Grid α} : (grid.map change).cols = grid.cols :=
  rfl

/-- Mapping applies the function to each cell. -/
@[simp] theorem entry_map {change : α → β} {grid : Grid α} (row : Fin grid.rows)
    (col : Fin grid.cols) : (grid.map change).entry row col = change (grid.entry row col) :=
  entry_ofFn ..

@[simp] theorem rows_transpose {grid : Grid α} : grid.transpose.rows = grid.cols := rfl

@[simp] theorem cols_transpose {grid : Grid α} : grid.transpose.cols = grid.rows := rfl

/-- Transposing swaps the two coordinates of a cell. -/
@[simp] theorem entry_transpose {grid : Grid α} (row : Fin grid.cols) (col : Fin grid.rows) :
    grid.transpose.entry row col = grid.entry col row :=
  entry_ofFn ..

/-- The grid of one cell has that cell at every position. -/
@[simp] theorem entry_scalar {cell : α} (row : Fin (scalar cell).rows)
    (col : Fin (scalar cell).cols) : (scalar cell).entry row col = cell :=
  entry_ofFn ..

/-- A grid is the computed grid of its own cells. -/
theorem ofFn_entry (grid : Grid α) :
    ofFn grid.rows grid.cols grid.rowsPos grid.colsPos grid.entry = grid := by
  cases grid
  simp [ofFn, entry]

/-- Mapping twice applies both functions to each cell. -/
theorem map_map {γ : Type} {change : α → β} {again : β → γ} {grid : Grid α} :
    (grid.map change).map again = grid.map fun cell => again (change cell) := by
  simp only [map, entry_ofFn, rows_ofFn, cols_ofFn]

/-- A grid is mapped to itself exactly when all its cells are. -/
theorem map_eq_self_iff {change : α → α} {grid : Grid α} :
    grid.map change = grid ↔ ∀ row col, change (grid.entry row col) = grid.entry row col := by
  constructor
  · intro same row col
    have cell := congrArg (get? · row col) same
    simpa [get?] using cell
  · intro same
    have cells : (fun row col => change (grid.entry row col)) = grid.entry :=
      funext fun row => funext (same row)
    rw [map, cells, ofFn_entry]

end Grid

end MatrixFormula
