import MatrixFormula.Fault
import MatrixFormula.Latex

/-!
# Tensors

A tensor is the value of a variable. It either has cells, and then its dimensions
are those of their grid, or it is a placeholder with declared dimensions and nothing
to compute with.
-/

namespace MatrixFormula

/-- The value of a variable. -/
inductive Tensor where
  | filled (cells : Grid Text)
  | placeholder (rows cols : Dim)
deriving DecidableEq, Repr

namespace Tensor

/-- The number of rows. -/
def rows : Tensor → Dim
  | .filled cells => .fixed cells.rows
  | .placeholder rows _ => rows

/-- The number of columns. -/
def cols : Tensor → Dim
  | .filled cells => .fixed cells.cols
  | .placeholder _ cols => cols

/-- The cells, if there are any. -/
def cells? : Tensor → Option (Grid Text)
  | .filled cells => some cells
  | .placeholder _ _ => none

/-- Whether a dimension is not known as a number. -/
def isSymbolic (tensor : Tensor) : Bool :=
  tensor.rows.size?.isNone || tensor.cols.size?.isNone

/-- Whether the tensor is a scalar, a vector or a matrix. -/
def shape (tensor : Tensor) : Shape := Shape.ofDims tensor.rows tensor.cols

/-- The numeric values of the cells, when there are cells and each has a value. -/
def numeric? (ν : Type) [Numeral ν] (tensor : Tensor) : Option (Grid ν) :=
  tensor.cells?.bind fun cells => cells.totals? ν

/-- The tensor with rows and columns exchanged. -/
def transpose : Tensor → Tensor
  | .filled cells => .filled cells.transpose
  | .placeholder rows cols => .placeholder cols rows

/-- The markup of the tensor: a matrix of its cells, or an elided matrix with the
declared dimensions. -/
def latex : Tensor → Text
  | .filled cells => Latex.matrix cells
  | .placeholder rows cols => Latex.elidedMatrix rows.text cols.text

/-- The markup of the transposed tensor. When the cells have numeric values, these
are written in their place. -/
def transposedLatex (ν : Type) [Numeral ν] (tensor : Tensor) : Text :=
  match tensor.numeric? ν with
  | some values => Latex.matrix (values.transpose.map Numeral.write)
  | none => tensor.transpose.latex

end Tensor

/-- What was typed to declare a variable: its dimensions, and its cells row by row. -/
structure Declaration where
  rows : Text
  cols : Text
  cells : List Text
deriving DecidableEq, Repr

namespace Declaration

/-- The cell with the given place in row order. A cell that is blank or missing is
zero. -/
def cell (declaration : Declaration) (index : Nat) : Text :=
  let text := Text.trim (declaration.cells[index]?.getD [])
  if text = [] then ['0'] else text

/-- The tensor that is declared. Two fixed dimensions make a grid of that size, which
must be a possible one, and any other pair makes a placeholder. -/
def tensor? (declaration : Declaration) : Except Diagnostic Tensor :=
  match Dim.ofText declaration.rows, Dim.ofText declaration.cols with
  | .fixed rows, .fixed cols =>
      if (cellCount? rows cols).isSome then
        .ok (.filled (Grid.generate rows cols fun row col => declaration.cell (row * cols + col)))
      else .error ⟨.invalidDimensions rows cols, []⟩
  | rows, cols => .ok (.placeholder rows cols)

end Declaration

end MatrixFormula
