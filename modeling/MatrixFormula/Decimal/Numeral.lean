import MatrixFormula.Decimal.Double

/-!
# Numbers that cells compute with

Cell arithmetic needs very little of its numbers: to read a decimal, to compute,
to compare with zero and one, and to write the outcome. `Numeral` names these
needs, and binary floating point meets them.
-/

namespace MatrixFormula

/-- Numbers that can be read from decimals, computed with and written. -/
class Numeral (ν : Type) extends Add ν, Sub ν, Mul ν, Div ν, Neg ν, Zero ν, One ν, BEq ν where
  /-- The number nearest to a decimal. -/
  ofDecimal : Decimal → ν
  /-- The text of a computed number in a cell. -/
  write : ν → Text

/-- The number that a text writes as a plain decimal. -/
def Numeral.read? (ν : Type) [Numeral ν] (text : Text) : Option ν :=
  (Decimal.read? text).map Numeral.ofDecimal

/-- Cells compute in double precision. A computed zero is written without a sign. -/
instance : Numeral Float where
  ofDecimal := Double.ofDecimal
  write value := if value == 0 then ['0'] else Double.text value

end MatrixFormula
