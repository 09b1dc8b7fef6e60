import MatrixFormula.Cell.Basic

/-!
# The numeric value of a cell

A cell has a numeric value when it is a sum of signed decimals. Blanks are dropped
and a comma is read as a point. The cell is cut before each sign, and pieces that
are empty or a bare sign add nothing.
-/

namespace MatrixFormula.Cell

/-- Whether a character is a sign. -/
def isSign (char : Char) : Bool := char == '+' || char == '-'

/-- The pieces of a text that is cut before every sign but a leading one. -/
def signedPieces : Text → List Text
  | [] => []
  | [char] => [[char]]
  | char :: next :: rest =>
      if isSign next then [char] :: signedPieces (next :: rest)
      else
        match signedPieces (next :: rest) with
        | [] => [[char]]
        | piece :: pieces => (char :: piece) :: pieces

/-- Cutting loses nothing. -/
theorem flatten_signedPieces (text : Text) : (signedPieces text).flatten = text := by
  fun_induction signedPieces text <;> simp_all

/-- The cell without blanks, its commas read as points. -/
def cleaned (cell : Text) : Text :=
  (cell.filter fun char => !Text.isBlank char).map fun char => if char = ',' then '.' else char

/-- Whether a piece is a sign without a number. -/
def isBareSign (piece : Text) : Bool := piece == ['+'] || piece == ['-']

/-- The sum of the signed decimals of a cell, from the left. -/
def total? (ν : Type) [Numeral ν] (cell : Text) : Option ν :=
  ((signedPieces (cleaned cell)).filter fun piece => !isBareSign piece).foldlM
    (fun sum piece => (Numeral.read? ν piece).map (sum + ·)) 0

end MatrixFormula.Cell
