import MatrixFormula.Grid.Basic
import MatrixFormula.Text.Basic

/-!
# Markup vocabulary

The few pieces of mathematical markup that answers are written in: groups,
environments, fractions, powers, subscripts, parentheses and the product dot.
-/

namespace MatrixFormula.Latex

/-- A group in braces. -/
def braced (body : Text) : Text := '{' :: body ++ ['}']

/-- An environment with its opening and closing commands. -/
def environment (name body : Text) : Text :=
  "\\begin" ++ braced name ++ body ++ "\\end" ++ braced name

/-- A fraction. -/
def fraction (numerator denominator : Text) : Text :=
  "\\frac" ++ braced numerator ++ braced denominator

theorem fraction_def (numerator denominator : Text) :
    fraction numerator denominator = "\\frac" ++ braced numerator ++ braced denominator := rfl

/-- A power. -/
def power (base exponent : Text) : Text := braced base ++ '^' :: braced exponent

/-- A body with a subscript. -/
def subscript (base index : Text) : Text := base ++ '_' :: braced index

/-- A body in parentheses that grow with it. -/
def parenthesized (body : Text) : Text := "\\left(" ++ body ++ "\\right)"

/-- A body in a colour. -/
def colored (color body : Text) : Text := "\\textcolor" ++ braced color ++ braced body

/-- The dot between two factors. -/
def productDot : Text := " \\cdot "

theorem productDot_def : productDot = " \\cdot " := rfl

/-- A grid of texts as a matrix in parentheses. Cells are separated by an ampersand
and rows by two backslashes, with a space on either side. -/
def matrix (grid : Grid Text) : Text :=
  environment "pmatrix" (Text.joined " \\\\ " (grid.toRows.map (Text.joined " & ")))

/-- A matrix without cells in brackets, with its declared size as a subscript. -/
def elidedMatrix (rows cols : Text) : Text :=
  subscript (environment "bmatrix" " \\dots ") (rows ++ " \\times " ++ cols)

end MatrixFormula.Latex
