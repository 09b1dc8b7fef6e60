import MatrixFormula.Cell.Arithmetic
import MatrixFormula.Cell.Total
import MatrixFormula.Grid.Basic

/-!
# Arithmetic on grids

Grids of cells are added, multiplied and divided when their sizes allow it. A grid
of one cell scales any other grid, and division is by such a grid alone. Failures
carry the sizes that did not fit.
-/

namespace MatrixFormula

/-- The operations that need operands of fitting sizes. -/
inductive Combination where
  | add
  | subtract
  | multiply
deriving DecidableEq, Repr

/-- Why two grids have no sum, difference, product or quotient. -/
inductive ArithmeticFault where
  | dimensionMismatch (combination : Combination) (left right : Nat × Nat)
  | nonScalarDivisor (rows cols : Nat)
  | divisionByZero
deriving DecidableEq, Repr

namespace Grid

/-- Two grids of one size, combined cell by cell. -/
def combine (combination : Combination) (cell : Text → Text → Text) (left right : Grid Text) :
    Except ArithmeticFault (Grid Text) :=
  if fits : left.rows = right.rows ∧ left.cols = right.cols then
    .ok (ofFn left.rows left.cols left.rowsPos left.colsPos fun row col =>
      cell (left.entry row col) (right.entry (row.cast fits.1) (col.cast fits.2)))
  else .error (.dimensionMismatch combination left.dims right.dims)

variable (ν : Type) [Numeral ν]

/-- The sum of two grids of one size. -/
def add (left right : Grid Text) : Except ArithmeticFault (Grid Text) :=
  combine .add (Cell.add ν) left right

/-- The difference of two grids of one size. -/
def sub (left right : Grid Text) : Except ArithmeticFault (Grid Text) :=
  combine .subtract (Cell.sub ν) left right

/-- The cells of a grid, each multiplied by a factor on its left. -/
def scale (factor : Text) (grid : Grid Text) : Grid Text := grid.map (Cell.mul ν factor)

/-- The product of two grids. A grid of one cell scales the other one, and for all
other grids this is the matrix product. -/
def mul (left right : Grid Text) : Except ArithmeticFault (Grid Text) :=
  if left.isScalar then .ok (scale ν left.corner right)
  else if right.isScalar then .ok (scale ν right.corner left)
  else if fits : left.cols = right.rows then
    .ok (ofFn left.rows right.cols left.rowsPos right.colsPos fun row col =>
      Cell.sumProducts ν ((List.finRange left.cols).map fun inner =>
        Cell.mul ν (left.entry row inner) (right.entry (inner.cast fits) col)))
  else .error (.dimensionMismatch .multiply left.dims right.dims)

/-- The quotient of a grid and a grid of one cell that is not zero. -/
def div (left right : Grid Text) : Except ArithmeticFault (Grid Text) :=
  if !right.isScalar then .error (.nonScalarDivisor right.rows right.cols)
  else if Cell.isZero ν right.corner then .error .divisionByZero
  else .ok (left.map fun cell => Cell.div ν cell right.corner)

/-- The grid of the opposite cells. -/
def neg (grid : Grid Text) : Grid Text := grid.map (Cell.neg ν)

/-- The grid of zeros that has the size of a grid. -/
def zeros {α : Type} (grid : Grid α) : Grid Text := grid.map fun _ => ['0']

/-- The numeric values of all cells, when each of them has one. -/
def totals? (grid : Grid Text) : Option (Grid ν) := grid.mapAll? (Cell.total? ν)

end Grid

end MatrixFormula
