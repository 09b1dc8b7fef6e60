import MatrixFormula.Cell.Basic
import MatrixFormula.Latex

/-!
# Arithmetic on cells

Cells are combined as texts, by a fixed set of rules: zeros and ones are absorbed,
two numbers are computed, signs move to the front of products, and sums are put in
parentheses where they become factors. Nothing else is simplified. Blanks around a
cell never matter.
-/

namespace MatrixFormula.Cell

open Text

variable (ν : Type) [Numeral ν]

/-- The opposite of a term. -/
def neg (cell : Text) : Text :=
  let term := trim cell
  if isZero ν term then ['0']
  else
    match Numeral.read? ν term with
    | some value => Numeral.write (-value)
    | none =>
        match negatedSum? term with
        | some inner => inner
        | none =>
            if isSum term then '-' :: '(' :: term ++ [')']
            else
              match term with
              | '-' :: rest => rest
              | _ => '-' :: term

/-- The sum of two terms. -/
def add (left right : Text) : Text :=
  let left := trim left
  let right := trim right
  if isZero ν right then left
  else if isZero ν left then right
  else
    match Numeral.read? ν left, Numeral.read? ν right with
    | some x, some y => Numeral.write (x + y)
    | _, _ => left ++ " + " ++ right

/-- The difference of two terms. -/
def sub (left right : Text) : Text :=
  let left := trim left
  let right := trim right
  if isZero ν right then left
  else if isZero ν left then neg ν right
  else
    match Numeral.read? ν left, Numeral.read? ν right with
    | some x, some y => Numeral.write (x - y)
    | _, _ => left ++ " - " ++ grouped right

/-- The product of two factors of which at most one is a number, without regard to
their signs. A number is written directly in front of the other factor, unless the
two would run together as one number. -/
def juxtapose (left right : Text) : Text :=
  match Decimal.isDecimal left, Decimal.isDecimal right with
  | true, false =>
      if startsNumeric (grouped right) then grouped left ++ Latex.productDot ++ grouped right
      else grouped left ++ grouped right
  | false, true =>
      if startsNumeric (grouped left) then grouped left ++ Latex.productDot ++ grouped right
      else grouped right ++ grouped left
  | _, _ => grouped left ++ Latex.productDot ++ grouped right

/-- The product of two terms. -/
def mul (left right : Text) : Text :=
  let a := trim left
  let b := trim right
  if isZero ν a || isZero ν b then ['0']
  else if isOne ν a then b
  else if isOne ν b then a
  else
    match Numeral.read? ν a, Numeral.read? ν b with
    | some x, some y => Numeral.write (x * y)
    | x?, y? =>
        if x?.any (· == -1) then neg ν b
        else if y?.any (· == -1) then neg ν a
        else
          match _ : signedFactor? a with
          | some rest => neg ν (mul rest b)
          | none =>
              match _ : signedFactor? b with
              | some rest => neg ν (mul a rest)
              | none => juxtapose a b
termination_by left.length + right.length
decreasing_by
  · have shorter := length_lt_of_signedFactor? ‹signedFactor? a = some rest›
    have := length_trim_le left
    have := length_trim_le right
    simp only [a, b] at *
    omega
  · have shorter := length_lt_of_signedFactor? ‹signedFactor? b = some rest›
    have := length_trim_le left
    have := length_trim_le right
    simp only [a, b] at *
    omega

/-- The quotient of two terms, of which the second is not zero. -/
def div (left right : Text) : Text :=
  let numerator := trim left
  let denominator := trim right
  match Numeral.read? ν numerator, Numeral.read? ν denominator with
  | some x, some y => Numeral.write (x / y)
  | _, _ =>
      if isZero ν numerator then ['0']
      else if isOne ν denominator then numerator
      else Latex.fraction numerator denominator

/-- A sum with one more product at its end. A product that is zero is left out, and
one with a minus sign is subtracted. -/
def addProduct (sum product : Text) : Text :=
  if isZero ν product then sum
  else if sum = [] then product
  else
    match product with
    | '-' :: rest => sum ++ " - " ++ rest
    | _ => sum ++ " + " ++ product

/-- The sum of products, zero when all of them are. -/
def sumProducts (products : List Text) : Text :=
  let sum := products.foldl (addProduct ν) []
  if sum = [] then ['0'] else sum

end MatrixFormula.Cell
