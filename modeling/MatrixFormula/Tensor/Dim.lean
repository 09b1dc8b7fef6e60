import MatrixFormula.Text.Blank

/-!
# Dimensions

A variable is declared with two dimensions. A dimension is a number, or any other
text that stands for a number that is not known.
-/

namespace MatrixFormula

/-- A declared number of rows or columns. -/
inductive Dim where
  | fixed (size : Nat)
  | symbolic (spec : Text)
deriving DecidableEq, Repr

/-- The largest number of cells that a declared grid may have. -/
def maxCells : Nat := 10000

/-- The number of cells of a grid of the given size, when a variable may be declared
with that size: there is at least one cell, and there are no more than `maxCells`. -/
def cellCount? (rows cols : Nat) : Option Nat :=
  if 1 ≤ rows * cols ∧ rows * cols ≤ maxCells then some (rows * cols) else none

/-- What the two dimensions of a variable make of it. -/
inductive Shape where
  | scalar
  | vector
  | matrix
deriving DecidableEq, Repr

namespace Dim

/-- The number of sizes that can be written with digits. A run of digits that
exceeds them is kept as text. -/
def sizeLimit : Nat := Nat.pow 2 64

/-- Reads a dimension. Blanks around it do not matter, and a nonempty run of digits
that writes a number below `sizeLimit` is that number. -/
def ofText (text : Text) : Dim :=
  let spec := Text.trim text
  let size := Text.digitsValue spec
  if spec ≠ [] ∧ spec.all Char.isDigit ∧ size < sizeLimit then .fixed size else .symbolic spec

/-- The number of a fixed dimension. -/
def size? : Dim → Option Nat
  | .fixed size => some size
  | .symbolic _ => none

/-- Whether the dimension is written `1`. -/
def isOne : Dim → Bool
  | .fixed size => size == 1
  | .symbolic spec => spec == ['1']

/-- The text of a dimension. -/
def text : Dim → Text
  | .fixed size => Text.ofNat size
  | .symbolic spec => spec

end Dim

namespace Shape

/-- Both dimensions are one for a scalar, exactly one of them for a vector, and none
for a matrix. -/
def ofDims (rows cols : Dim) : Shape :=
  match rows.isOne, cols.isOne with
  | true, true => .scalar
  | true, false | false, true => .vector
  | false, false => .matrix

/-- The name of a shape. -/
def text : Shape → Text
  | .scalar => "scalar"
  | .vector => "vector"
  | .matrix => "matrix"

end Shape

end MatrixFormula
