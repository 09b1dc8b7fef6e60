import Mathlib.Data.List.Basic
import MatrixFormula.Grid.Arithmetic
import MatrixFormula.Proofs.Decimal.Rational
import MatrixFormula.Tensor.Basic

/-!
# Transposed grids

The cells of a grid stand row by row, so the place of a cell is known from its row and its column.
Transposing exchanges the two, undoes itself, and commutes with everything that is done cell by
cell: with negation, with sums and differences, with products and quotients with a grid of one
cell, and with taking numeric values, which all cells must have or none is taken.
-/

namespace MatrixFormula

/-- The same fault with rows and columns of both operands exchanged. -/
def ArithmeticFault.transposed : ArithmeticFault → ArithmeticFault
  | .dimensionMismatch combination left right =>
      .dimensionMismatch combination left.swap right.swap
  | .nonScalarDivisor rows cols => .nonScalarDivisor cols rows
  | .divisionByZero => .divisionByZero

namespace Grid

variable {α β : Type} {grid other : Grid α} {rows : List (List α)}

/-! ## Rows -/

@[simp] theorem length_toRows (grid : Grid α) : grid.toRows.length = grid.rows := by simp [toRows]

/-- Every row of a grid has as many cells as the grid has columns. -/
theorem length_of_mem_toRows {row : List α} (member : row ∈ grid.toRows) :
    row.length = grid.cols := by
  obtain ⟨cells, -, rfl⟩ := List.mem_map.mp member
  exact cells.length_toList

/-- A cell is found in its row. -/
theorem get?_eq_toRows (grid : Grid α) (row col : Nat) :
    grid.get? row col = grid.toRows[row]?.bind (·[col]?) := by
  by_cases high : row < grid.rows <;> by_cases wide : col < grid.cols <;>
    simp [get?, toRows, entry, high, wide]

/-- A grid is known from its rows. -/
theorem ext_toRows (same : grid.toRows = other.toRows) : grid = other := by
  have sameRows : grid.rows = other.rows := by
    rw [← length_toRows, same, length_toRows]
  have sameCols : grid.cols = other.cols := by
    have first : grid.toRows.get ⟨0, by simp [grid.rowsPos]⟩ ∈ grid.toRows := List.get_mem ..
    rw [← length_of_mem_toRows first]
    exact length_of_mem_toRows (same ▸ first)
  obtain ⟨high, wide, _, _, cells⟩ := grid
  obtain ⟨_, _, _, _, others⟩ := other
  obtain rfl : high = _ := sameRows
  obtain rfl : wide = _ := sameCols
  have lists : cells.toList = others.toList :=
    List.map_injective_iff.mpr (fun _ _ => Vector.toList_inj.mp) same
  rw [Vector.toList_inj.mp lists]

/-- The rows of a grid that was built from rows are those rows. -/
theorem toRows_of_ofRows? (built : ofRows? rows = some grid) : grid.toRows = rows := by
  unfold ofRows? at built
  split at built
  · cases built
  · split at built
    · cases built
      simp [toRows]
    · cases built

/-- The grid with the given rows is the one that has these rows. -/
theorem ofRows?_eq_some_iff : ofRows? rows = some grid ↔ grid.toRows = rows := by
  refine ⟨toRows_of_ofRows?, fun spelled => ?_⟩
  have even := fun row member => @length_of_mem_toRows _ grid row member
  have tall : 0 < grid.toRows.length := by simp [grid.rowsPos]
  rw [spelled] at even tall
  obtain ⟨first, rest, rfl⟩ := List.exists_cons_of_length_pos tall
  have width : first.length = grid.cols := even first List.mem_cons_self
  have fits : 0 < first.length ∧ ∀ row ∈ first :: rest, row.length = first.length :=
    ⟨width ▸ grid.colsPos, fun row member => (even row member).trans width.symm⟩
  have built : (ofRows? (first :: rest)).isSome := by
    rw [ofRows?, dif_pos fits]
    rfl
  obtain ⟨other, found⟩ := Option.isSome_iff_exists.mp built
  rw [found, ext_toRows ((toRows_of_ofRows? found).trans spelled.symm)]

/-- The cells of rows of one length, in a row, are found at multiples of that length. -/
theorem getElem?_flatten {cols : Nat} (even : ∀ row ∈ rows, row.length = cols) (row : Nat)
    {col : Nat} (inside : col < cols) :
    rows.flatten[row * cols + col]? = rows[row]?.bind (·[col]?) := by
  induction rows generalizing row with
  | nil => simp
  | cons first rows ih =>
      obtain ⟨width, others⟩ := List.forall_mem_cons.mp even
      cases row with
      | zero => simp [List.getElem?_append_left, width, inside]
      | succ row =>
          rw [List.flatten_cons, List.getElem?_append_right (by rw [width, Nat.succ_mul]; omega),
            width, Nat.succ_mul, List.getElem?_cons_succ, ← ih others]
          congr 1
          omega

/-- A grid as a sequence of cells, row by row. -/
structure RowMajor (grid : Grid α) : Prop where
  length : grid.toList.length = grid.rows * grid.cols
  nonempty : 1 ≤ grid.rows * grid.cols
  place : ∀ row col, col < grid.cols →
    grid.toList[row * grid.cols + col]? = grid.get? row col

/-- The cells of a grid stand in a row, one row after the other. -/
theorem rowMajor (grid : Grid α) : RowMajor grid where
  length := by
    have widths : grid.toRows.map List.length = List.replicate grid.rows grid.cols := by
      refine List.eq_replicate_iff.mpr ⟨by simp, fun width member => ?_⟩
      obtain ⟨row, inside, rfl⟩ := List.mem_map.mp member
      exact length_of_mem_toRows inside
    rw [toList, List.length_flatten, widths, List.sum_replicate_nat]
  nonempty := Nat.mul_pos grid.rowsPos grid.colsPos
  place row col inside := by
    rw [get?_eq_toRows]
    exact getElem?_flatten (fun _ => length_of_mem_toRows) row inside

/-! ## Transposing -/

/-- The transpose of a computed grid is computed with the coordinates swapped. -/
theorem transpose_ofFn {rows cols : Nat} {rowsPos : 0 < rows} {colsPos : 0 < cols}
    {cell : Fin rows → Fin cols → α} :
    (ofFn rows cols rowsPos colsPos cell).transpose =
      ofFn cols rows colsPos rowsPos fun row col => cell col row := by
  simp [transpose]

/-- Transposing undoes itself. -/
theorem transpose_transpose (grid : Grid α) : grid.transpose.transpose = grid :=
  transpose_ofFn.trans grid.ofFn_entry

/-- A cell is found in the transpose under the swapped coordinates. -/
theorem get?_transpose (grid : Grid α) (row col : Nat) :
    grid.transpose.get? col row = grid.get? row col := by
  by_cases high : row < grid.rows <;> by_cases wide : col < grid.cols <;>
    simp [get?, high, wide]

/-- Changing the cells and transposing may be swapped. -/
theorem transpose_map (change : α → β) (grid : Grid α) :
    (grid.map change).transpose = grid.transpose.map change := by
  rw [map, transpose_ofFn, map]
  simp

/-- A partial function is defined on all cells in whatever order they are visited. -/
theorem transpose_mapAll? (change : α → Option β) (grid : Grid α) :
    grid.transpose.mapAll? change = (grid.mapAll? change).map transpose := by
  have defined : (∀ row col, (change (grid.transpose.entry row col)).isSome) ↔
      ∀ row col, (change (grid.entry row col)).isSome := by
    refine ⟨fun all row col => ?_, fun all row col => ?_⟩
    · exact congrArg change (entry_transpose col row) ▸ all col row
    · exact congrArg change (entry_transpose row col) ▸ all col row
  by_cases all : ∀ row col, (change (grid.entry row col)).isSome
  · rw [mapAll?, mapAll?, dif_pos all, dif_pos (defined.mpr all), Option.map_some, transpose_ofFn]
    simp
  · rw [mapAll?, mapAll?, dif_neg all, dif_neg (mt defined.mp all)]
    rfl

/-! ## Grids of one cell -/

/-- A grid has one cell when its transpose does. -/
theorem isScalar_transpose (grid : Grid α) : grid.transpose.isScalar = grid.isScalar := by
  simp [isScalar, Bool.and_comm]

/-- The first cell stays where it is. -/
theorem corner_transpose (grid : Grid α) : grid.transpose.corner = grid.corner := by
  simp [corner]

/-- A grid of one cell is its own transpose. -/
theorem transpose_of_isScalar (single : grid.isScalar) : grid.transpose = grid := by
  obtain ⟨rows, cols, rowsPos, colsPos, cells⟩ := grid
  obtain ⟨rfl, rfl⟩ : rows = 1 ∧ cols = 1 := by simpa [isScalar] using single
  refine Eq.trans ?_ (ofFn_entry ⟨1, 1, rowsPos, colsPos, cells⟩)
  refine congrArg (ofFn 1 1 colsPos rowsPos) (funext fun row => funext fun col => ?_)
  rw [Subsingleton.elim row col]

/-! ## Arithmetic -/

variable (ν : Type) [Numeral ν]

/-- Two grids that are combined cell by cell may be transposed before. -/
theorem combine_transpose (combination : Combination) (cell : Text → Text → Text)
    (left right : Grid Text) :
    combine combination cell left.transpose right.transpose =
      ((combine combination cell left right).map transpose).mapError
        ArithmeticFault.transposed := by
  by_cases fits : left.rows = right.rows ∧ left.cols = right.cols
  · have also : left.transpose.rows = right.transpose.rows ∧
        left.transpose.cols = right.transpose.cols := fits.symm
    rw [combine, combine, dif_pos fits, dif_pos also]
    refine congrArg Except.ok ?_
    rw [transpose_ofFn]
    simp
  · have also : ¬ (left.transpose.rows = right.transpose.rows ∧
        left.transpose.cols = right.transpose.cols) := mt And.symm fits
    rw [combine, combine, dif_neg fits, dif_neg also]
    rfl

/-- The transpose of an opposite is the opposite of the transpose. -/
theorem transpose_neg (grid : Grid Text) : (neg ν grid).transpose = neg ν grid.transpose :=
  transpose_map (Cell.neg ν) grid

/-- A grid of one cell scales every grid, from the left or from the right. -/
theorem exists_mul_of_isScalar {factor : Grid Text} (single : factor.isScalar)
    (grid : Grid Text) :
    (∃ product, mul ν factor grid = .ok product ∧
      mul ν factor grid.transpose = .ok product.transpose) ∧
    ∃ product, mul ν grid factor = .ok product ∧
      mul ν grid.transpose factor = .ok product.transpose := by
  have scaled (cell : Text) (grid : Grid Text) :
      scale ν cell grid.transpose = (scale ν cell grid).transpose := (transpose_map _ grid).symm
  refine ⟨⟨scale ν factor.corner grid, ?_, ?_⟩, ?_⟩
  · rw [mul, if_pos single]
  · rw [mul, if_pos single, scaled]
  · by_cases alone : grid.isScalar
    · refine ⟨scale ν grid.corner factor, by rw [mul, if_pos alone], ?_⟩
      rw [mul, if_pos (isScalar_transpose grid ▸ alone), corner_transpose, ← scaled,
        transpose_of_isScalar single]
    · refine ⟨scale ν factor.corner grid, by rw [mul, if_neg alone, if_pos single], ?_⟩
      rw [mul, if_neg (isScalar_transpose grid ▸ alone), if_pos single, scaled]

/-- The cells of a grid may be divided before or after it is transposed. -/
theorem div_transpose (grid divisor : Grid Text) :
    div ν grid.transpose divisor = (div ν grid divisor).map transpose := by
  unfold div
  split
  · rfl
  · split
    · rfl
    · exact congrArg Except.ok (transpose_map _ grid).symm

end Grid

/-- The numeric values of a transposed tensor stand where its cells do. -/
theorem Tensor.numeric?_transpose (ν : Type) [Numeral ν] (tensor : Tensor) :
    tensor.transpose.numeric? ν = (tensor.numeric? ν).map Grid.transpose := by
  cases tensor with
  | filled cells => exact Grid.transpose_mapAll? _ cells
  | placeholder => rfl

namespace Grid

/-- Every grid has its cells row by row, is known from its rows, and is transposed back to itself.
Transposing commutes with all arithmetic that is done cell by cell, also where it fails, and with
taking numeric values. -/
theorem transpose_commutes (ν : Type) [Numeral ν] :
    (∀ {α : Type} (grid : Grid α), grid.RowMajor ∧
      (∀ rows, ofRows? rows = some grid ↔ grid.toRows = rows) ∧
      grid.transpose.transpose = grid ∧
      ∀ row col, grid.transpose.get? col row = grid.get? row col) ∧
    (∀ grid : Grid Text, (neg ν grid).transpose = neg ν grid.transpose) ∧
    (∀ factor grid : Grid Text, factor.isScalar →
      (∃ product, mul ν factor grid = .ok product ∧
        mul ν factor grid.transpose = .ok product.transpose) ∧
      ∃ product, mul ν grid factor = .ok product ∧
        mul ν grid.transpose factor = .ok product.transpose) ∧
    (∀ grid divisor : Grid Text,
      div ν grid.transpose divisor = (div ν grid divisor).map transpose) ∧
    (∀ left right : Grid Text,
      add ν left.transpose right.transpose =
          ((add ν left right).map transpose).mapError ArithmeticFault.transposed ∧
        sub ν left.transpose right.transpose =
          ((sub ν left right).map transpose).mapError ArithmeticFault.transposed) ∧
    ∀ tensor : Tensor, tensor.transpose.numeric? ν = (tensor.numeric? ν).map transpose := by
  refine ⟨fun grid => ⟨rowMajor grid, fun rows => ofRows?_eq_some_iff, transpose_transpose grid,
      get?_transpose grid⟩, transpose_neg ν, fun factor grid single => ?_, div_transpose ν,
      fun left right => ⟨?_, ?_⟩, Tensor.numeric?_transpose ν⟩
  · exact exists_mul_of_isScalar ν single grid
  · exact combine_transpose .add (Cell.add ν) left right
  · exact combine_transpose .subtract (Cell.sub ν) left right

/-- A single cell. -/
def double : Grid Text := scalar ['2']

/-- A row of two cells. -/
def pair : Grid Text := generate 1 2 fun _ col => if col = 0 then ['a'] else ['3']

/-- A row is scaled to a row, and the column of its cells to the column of the scaled ones. -/
theorem transpose_commutes_pair :
    double.isScalar ∧ ∃ product, mul ℚ double pair = .ok product ∧
      mul ℚ double pair.transpose = .ok product.transpose ∧
      product.toRows = [[['2', 'a'], ['6']]] := by
  have single : double.isScalar := by decide
  obtain ⟨⟨product, scaled, also⟩, -⟩ := (transpose_commutes ℚ).2.2.1 double pair single
  have computed : (mul ℚ double pair).toOption.map toRows = some [[['2', 'a'], ['6']]] := by
    decide +kernel
  rw [scaled] at computed
  exact ⟨single, product, scaled, also, Option.some.inj computed⟩

end Grid

end MatrixFormula
