import MatrixFormula.Decimal.Numeral
import MatrixFormula.Text.Blank

/-!
# Cells

A cell is the text of a small algebraic term, such as `2`, `x` or `a + 1`. This
module holds the questions that cell arithmetic asks about such a text: whether it
is a number, whether it is a sum, and whether it is a negated sum in parentheses.
-/

namespace MatrixFormula.Cell

open Text

/-- Whether a cell is the number zero. -/
def isZero (ν : Type) [Numeral ν] (cell : Text) : Bool :=
  (Numeral.read? ν (trim cell)).any (· == 0)

/-- Whether a cell is the number one. -/
def isOne (ν : Type) [Numeral ν] (cell : Text) : Bool :=
  (Numeral.read? ν (trim cell)).any (· == 1)

/-- Whether a text has a sign outside all brackets, when it stands inside `depth` of
them. A closing bracket that nothing opened is passed over. -/
def hasOuterSign : Nat → Text → Bool
  | _, [] => false
  | depth, char :: rest =>
      if char = '(' ∨ char = '\x7b' then hasOuterSign (depth + 1) rest
      else if char = ')' ∨ char = '\x7d' then hasOuterSign (depth - 1) rest
      else if (char = '+' ∨ char = '-') ∧ depth = 0 then true
      else hasOuterSign depth rest

/-- Whether a term is a sum or a difference: it has a `+` outside all brackets, or a
`-` that is not its first character. Such a term is put in parentheses before it is
used as a factor or subtracted. -/
def isSum : Text → Bool
  | '-' :: rest => hasOuterSign 0 rest
  | term => hasOuterSign 0 term

/-- The term, in parentheses if it is a sum. -/
def grouped (term : Text) : Text := if isSum term then '(' :: term ++ [')'] else term

/-- Whether a parenthesis that was opened before a text is still open at its end,
when the text also stands inside `depth` further ones. -/
def staysOpen : Nat → Text → Bool
  | _, [] => true
  | depth, '(' :: rest => staysOpen (depth + 1) rest
  | 0, ')' :: _ => false
  | depth + 1, ')' :: rest => staysOpen depth rest
  | depth, _ :: rest => staysOpen depth rest

/-- The sum inside `-(…)`, when the parentheses enclose all the rest of the term. -/
def negatedSum? : Text → Option Text
  | '-' :: '(' :: rest =>
      if rest.getLast? = some ')' ∧ staysOpen 0 rest.dropLast ∧ isSum rest.dropLast then
        some rest.dropLast
      else none
  | _ => none

/-- What follows the minus sign of a factor that is neither a number nor a sum. A
lone minus sign is not such a factor. -/
def signedFactor? : Text → Option Text
  | '-' :: rest =>
      if rest ≠ [] ∧ ¬ Decimal.isDecimal ('-' :: rest) ∧ ¬ isSum ('-' :: rest) then some rest
      else none
  | _ => none

/-- Taking the sign off a factor shortens it. -/
theorem length_lt_of_signedFactor? {factor rest : Text}
    (signed : signedFactor? factor = some rest) :
    rest.length < factor.length := by
  unfold signedFactor? at signed
  split at signed
  · split at signed
    · cases signed; simp
    · cases signed
  · cases signed

/-- Whether a text starts like a number. -/
def startsNumeric (term : Text) : Bool :=
  term.head?.any fun char => char.isDigit || char == '.'

end MatrixFormula.Cell
