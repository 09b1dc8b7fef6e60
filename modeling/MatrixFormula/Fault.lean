import MatrixFormula.Grid.Arithmetic
import MatrixFormula.Tensor.Dim
import MatrixFormula.Text.Span

/-!
# Faults and their reports

A fault is the cause for which a formula or a declaration has no answer. Each fault
has a message, one label for each region of the source that it concerns, and at
times a piece of advice. A diagnostic is a fault together with those regions.
-/

namespace MatrixFormula

/-- Why a formula or a declaration has no answer. -/
inductive Fault where
  /-- The formula ends where an operand must follow. -/
  | unexpectedEnd
  /-- The formula is complete before its text ends. -/
  | trailingText (found : Text)
  /-- An operand must stand where another token does. -/
  | unexpectedToken (found : Text)
  | unclosedParenthesis
  /-- A run of digits and points is no decimal. -/
  | invalidNumber (lexeme : Text)
  /-- A name is neither known nor made of known names. The suggestions are the known
  names that are nearly spelled like it. -/
  | undefinedVariable (name : Text) (suggestions : List Text)
  /-- Something other than the mark of transposition stands after a caret. -/
  | unsupportedExponent (found : Text)
  | arithmetic (fault : ArithmeticFault)
  /-- A variable was declared without cells. -/
  | missingCells (name rows cols : Text)
  /-- A variable is declared with no cell or with too many. -/
  | invalidDimensions (rows cols : Nat)
deriving DecidableEq, Repr

/-- A fault, with the regions of the source that it concerns. -/
structure Diagnostic where
  fault : Fault
  spans : List Span
deriving DecidableEq, Repr

/-- The verb that names an operation. -/
def Combination.verb : Combination → Text
  | .add => "add"
  | .subtract => "subtract"
  | .multiply => "multiply"

/-- A text in quotation marks. -/
def quoted (text : Text) : Text := '\x60' :: text ++ ['\x60']

/-- A size, as it is written in a report. -/
def sizeText (rows cols : Nat) : Text := Text.ofNat rows ++ 'x' :: Text.ofNat cols

namespace ArithmeticFault

/-- What went wrong, in one line. -/
def message : ArithmeticFault → Text
  | .dimensionMismatch combination _ _ => "cannot " ++ combination.verb ++ " these operands"
  | .nonScalarDivisor _ _ => "cannot divide by a matrix or vector"
  | .divisionByZero => "division by zero"

/-- The remarks on the left operand, the operator and the right operand. An empty
one is not shown. -/
def labels : ArithmeticFault → List Text
  | .dimensionMismatch _ left right =>
      ["this operand is " ++ sizeText left.1 left.2, [],
        "this operand is " ++ sizeText right.1 right.2]
  | .nonScalarDivisor rows cols => [[], [], "this divisor is " ++ sizeText rows cols]
  | .divisionByZero => [[], [], "this divisor is zero"]

/-- The advice that goes with the fault. -/
def help? : ArithmeticFault → Option Text
  | .dimensionMismatch .multiply _ _ =>
      some "the number of columns on the left must equal the number of rows on the right"
  | .dimensionMismatch _ _ _ =>
      some "both operands must have the same number of rows and columns"
  | .nonScalarDivisor _ _ => some "the divisor must be a single number or scalar expression"
  | .divisionByZero => none

end ArithmeticFault

namespace Fault

/-- What went wrong, in one line. -/
def message : Fault → Text
  | .unexpectedEnd => "unexpected end of expression"
  | .trailingText found | .unexpectedToken found => "unexpected character " ++ quoted found
  | .unclosedParenthesis => "missing closing parenthesis " ++ quoted [')']
  | .invalidNumber lexeme => "invalid number " ++ quoted lexeme
  | .undefinedVariable name _ => quoted name ++ " is not defined"
  | .unsupportedExponent found => "unsupported exponent " ++ quoted found
  | .arithmetic fault => fault.message
  | .missingCells name _ _ => quoted name ++ " has no values"
  | .invalidDimensions rows cols =>
      "cannot create a " ++ Text.ofNat rows ++ " x " ++ Text.ofNat cols ++ " grid"

/-- The remarks on the regions of the source that the fault concerns. -/
def labels : Fault → List Text
  | .unexpectedEnd => ["you might need to add another operand here"]
  | .trailingText _ => ["I could not understand the remaining expression here"]
  | .unexpectedToken _ => ["expected a number, a variable, or a parenthesized expression here"]
  | .unclosedParenthesis => ["this parenthesis is not closed"]
  | .invalidNumber _ => ["this number"]
  | .undefinedVariable _ _ => ["this variable"]
  | .unsupportedExponent _ => ["this exponent"]
  | .arithmetic fault => fault.labels
  | .missingCells _ rows cols =>
      ["this variable is a symbolic " ++ rows ++ " x " ++ cols ++ " placeholder"]
  | .invalidDimensions _ _ => ["this variable"]

/-- The advice that goes with the fault. -/
def help? : Fault → Option Text
  | .unexpectedEnd | .trailingText _ | .unexpectedToken _ => none
  | .unclosedParenthesis => some ("add a closing parenthesis " ++ quoted [')'] ++
      " somewhere after this")
  | .invalidNumber _ => some ("numbers may contain at most one decimal point " ++ quoted ['.'])
  | .undefinedVariable name [] => some ("to define it, type: " ++ name ++ " =")
  | .undefinedVariable _ [suggestion] =>
      some ("did you mean the " ++ quoted suggestion ++ " variable?")
  | .undefinedVariable _ suggestions =>
      some ("did you mean one of these variables? " ++
        Text.joined ", " (suggestions.map quoted))
  | .unsupportedExponent _ => some "only the transpose is supported: A^T"
  | .arithmetic fault => fault.help?
  | .missingCells name _ _ =>
      some ("assign it again with numeric dimensions, such as " ++ name ++ " =")
  | .invalidDimensions _ _ =>
      some ("the number of rows and columns must both be at least 1, with at most " ++
        Text.ofNat maxCells ++ " cells in total")

/-- The fault at a single region of the source. -/
def located (fault : Fault) (span : Span) : Diagnostic := ⟨fault, [span]⟩

end Fault

namespace Diagnostic

/-- The remarks that a report shows, one for each region. An empty remark is not
shown. -/
def labels (diagnostic : Diagnostic) : List (Option Text) :=
  (diagnostic.fault.labels.zip diagnostic.spans).map fun (label, _) =>
    if label = [] then none else some label

/-- The advice that a report shows. A diagnostic without a region shows none. -/
def help? (diagnostic : Diagnostic) : Option Text :=
  if diagnostic.spans = [] then none else diagnostic.fault.help?

end Diagnostic

end MatrixFormula
