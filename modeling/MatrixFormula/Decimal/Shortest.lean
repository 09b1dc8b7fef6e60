/-!
# Shortest decimals

A double stands for every real number that rounds to it. Among the decimals in
that interval, the coarsest grid of multiples of a power of ten that has one is
the grid of the fewest digits. This module finds it in exact integer arithmetic.
-/

namespace MatrixFormula.Shortest

/-- The positive double `significand · 2 ^ exponent`. The gap to the double below is
half the gap above when `narrowBelow` holds. -/
structure Binary where
  significand : Nat
  exponent : Int
  narrowBelow : Bool
deriving DecidableEq, Repr

namespace Binary

/-- The lower end of the rounding interval, in quarters of the last binary place. -/
def lower (binary : Binary) : Nat := 4 * binary.significand - if binary.narrowBelow then 1 else 2

/-- The upper end of the rounding interval, in quarters of the last binary place. -/
def upper (binary : Binary) : Nat := 4 * binary.significand + 2

/-- The ends belong to the rounding interval exactly when the significand is even. -/
def closed (binary : Binary) : Bool := binary.significand % 2 == 0

/-- The value of `10 ^ power`, over the common unit of a grid and a binary. -/
def gridStep (binary : Binary) (power : Int) : Nat :=
  Nat.pow 10 power.toNat * Nat.pow 2 (2 - binary.exponent).toNat

/-- The value of a quarter of the last binary place, over the same unit. -/
def quarter (binary : Binary) (power : Int) : Nat :=
  Nat.pow 2 (binary.exponent - 2).toNat * Nat.pow 10 (-power).toNat

/-- Whether `multiple · 10 ^ power` rounds to the binary. -/
def holds (binary : Binary) (power : Int) (multiple : Nat) : Bool :=
  let low := binary.lower * binary.quarter power
  let high := binary.upper * binary.quarter power
  let point := multiple * binary.gridStep power
  if binary.closed then low ≤ point && point ≤ high else low < point && point < high

/-- The multiple of `10 ^ power` that rounds to the binary. Of the two neighbours of
the double's value the nearer one is taken, and the greater one of two equally near. -/
def onGrid? (binary : Binary) (power : Int) : Option Nat :=
  let value := 4 * binary.significand * binary.quarter power
  let step := binary.gridStep power
  let below := value / step
  match binary.holds power below, binary.holds power (below + 1) with
  | true, true => some (if 2 * (value % step) < step then below else below + 1)
  | true, false => some below
  | false, true => some (below + 1)
  | false, false => none

/-- A power of ten above the rounding interval: the decimal logarithm of two lies
between `3/10` and `1/3`. -/
def coarsestPower (binary : Binary) : Int :=
  let bound := binary.exponent + (binary.significand.log2 : Int) + 2
  (if 0 ≤ bound then bound / 3 else bound * 3 / 10) + 1

/-- The coarsest grid with a point that rounds to the double, and that point, as a
multiple and a power of ten. Seventeen digits always suffice, and the first power
tried is at most forty places above the leading digit. -/
def decimal (binary : Binary) : Nat × Int :=
  let powers := (List.range 64).map fun (index : Nat) => binary.coarsestPower - index
  let hit := powers.findSome? fun power =>
    (binary.onGrid? power).map fun multiple => (multiple, power)
  hit.getD (binary.significand, 0)

end Binary

end MatrixFormula.Shortest
