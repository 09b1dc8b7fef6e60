import MatrixFormula.Decimal.Basic
import MatrixFormula.Decimal.Shortest

/-!
# The text of doubles

A double is written with the fewest digits that read back as the same double, and
always positionally. A decimal is read as the nearest double.
-/

namespace MatrixFormula.Double

/-- The number of fractions that share an exponent. -/
def fractionCount : Nat := Nat.pow 2 52

/-- The number of magnitudes that share a sign. -/
def magnitudeCount : Nat := Nat.pow 2 63

/-- The magnitude of an infinity. Greater ones are undefined values. -/
def infinity : Nat := 2047 * fractionCount

/-- The positive double whose bits, as a number, are given. They are neither those of
zero nor those of an infinity. -/
def ofMagnitude (magnitude : Nat) : Shortest.Binary :=
  let biased : Nat := magnitude / fractionCount
  let fraction : Nat := magnitude % fractionCount
  if biased = 0 then ⟨fraction, -1074, false⟩
  else ⟨fractionCount + fraction, (biased : Int) - 1075, fraction == 0 && biased != 1⟩

/-- The digits of `multiple · 10 ^ power`, without an exponent. -/
def positional (multiple : Nat) (power : Int) : Text :=
  let digits := Text.ofNat multiple
  if 0 ≤ power then digits ++ List.replicate power.toNat '0'
  else
    let places := (-power).toNat
    let padded := List.replicate (places + 1 - digits.length) '0' ++ digits
    padded.take (padded.length - places) ++ '.' :: padded.drop (padded.length - places)

/-- The text of a float: the fewest digits that read back as the same float, written
positionally. A zero keeps its sign, and infinities and undefined values are named. -/
def text (value : Float) : Text :=
  let bits := value.toBits.toNat
  let magnitude := bits % magnitudeCount
  let sign : Text := if bits < magnitudeCount then [] else ['-']
  if magnitude = 0 then sign ++ ['0']
  else if magnitude < infinity then
    let (multiple, power) := (ofMagnitude magnitude).decimal
    sign ++ positional multiple power
  else if magnitude = infinity then sign ++ "inf"
  else "NaN"

/-- The float nearest to a decimal. -/
def ofDecimal (decimal : Decimal) : Float :=
  let magnitude := Float.ofScientific decimal.coefficient true decimal.places
  if decimal.negative then -magnitude else magnitude

end MatrixFormula.Double
