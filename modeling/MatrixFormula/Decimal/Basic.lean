import MatrixFormula.Text.Basic

/-!
# Decimal literals

A plain decimal is an optional sign, then digits with at most one point among or
around them. There is no exponent, no name for infinity and no room for blanks.
-/

namespace MatrixFormula

/-- The number `coefficient · 10 ^ (-places)`, with a sign. -/
structure Decimal where
  negative : Bool
  coefficient : Nat
  places : Nat
deriving DecidableEq, Repr

namespace Decimal

/-- Whether a text is made of digits and at most one point, with at least one digit. -/
def isUnsigned (text : Text) : Bool :=
  text.all (fun char => char.isDigit || char == '.') && text.count '.' ≤ 1 &&
    text.any Char.isDigit

/-- The digits before the point. -/
def wholeDigits (text : Text) : Text := text.takeWhile (· != '.')

/-- The digits after the point. -/
def fractionDigits (text : Text) : Text := (text.dropWhile (· != '.')).drop 1

/-- The number that an unsigned decimal writes, with the given sign. -/
def ofUnsigned (negative : Bool) (text : Text) : Decimal where
  negative := negative
  coefficient := Text.digitsValue (wholeDigits text ++ fractionDigits text)
  places := (fractionDigits text).length

/-- Reads an unsigned decimal and gives it a sign. -/
def readUnsigned? (negative : Bool) (text : Text) : Option Decimal :=
  if isUnsigned text then some (ofUnsigned negative text) else none

/-- Reads a plain decimal that takes up the whole text. -/
def read? : Text → Option Decimal
  | '-' :: rest => readUnsigned? true rest
  | '+' :: rest => readUnsigned? false rest
  | text => readUnsigned? false text

/-- Whether a text is a plain decimal. -/
def isDecimal (text : Text) : Bool := (read? text).isSome

/-- The literal in its shortest spelling: no zeros at the outer ends, one digit
before the point, and no point without digits after it. A lone point is zero, and
any other text that is no decimal stays as it is. -/
def tidy (text : Text) : Text :=
  if text = ['.'] then ['0']
  else if isDecimal text then
    let whole := (wholeDigits text).dropWhile (· == '0')
    let fraction := ((fractionDigits text).reverse.dropWhile (· == '0')).reverse
    (if whole = [] then ['0'] else whole) ++ (if fraction = [] then [] else '.' :: fraction)
  else text

end Decimal

end MatrixFormula
