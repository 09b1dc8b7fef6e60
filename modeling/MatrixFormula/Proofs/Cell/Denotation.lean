import MatrixFormula.Cell.Basic
import MatrixFormula.Proofs.Decimal.Value
import MatrixFormula.Proofs.Text.Character

/-!
# What terms denote

A well-formed term is a text of a small grammar, and under a valuation of its symbols it
denotes an element of a field. The grammar comes in dialects, which differ in the numbers
and signs that they admit. Scanning a term for brackets or for outer signs passes over all
that stands in brackets.
-/

namespace MatrixFormula.Cell

/-- Which numbers and signs a term may have. -/
structure Dialect where
  /-- The unsigned literals that may occur. -/
  admits : Text → Prop
  /-- Whether a minus sign may stand directly before another one. -/
  stacksMinus : Prop
  /-- Whether a number may have a plus sign. -/
  allowsPlus : Prop
  /-- Numbers other than zero always may occur. -/
  admits_of_ne_zero : ∀ digits, (Decimal.ofUnsigned false digits).coefficient ≠ 0 → admits digits

namespace Dialect

/-- The dialect of well-formed terms: every unsigned literal, and minus signs in any number. -/
def full : Dialect where
  admits _ := True
  stacksMinus := True
  allowsPlus := False
  admits_of_ne_zero _ _ := trivial

/-- Whether a text is an unsigned literal that may occur. -/
def IsLiteral (δ : Dialect) (digits : Text) : Prop := Decimal.isUnsigned digits ∧ δ.admits digits

end Dialect

/-- Whether a text is an identifier or the symbol of the constant `π`. -/
def isSymbol (text : Text) : Bool :=
  text == "\\pi".toList || Token.isIdentifier text

/-- How loosely the parts of a term may hang together. -/
inductive Level where
  | atom
  | factor
  | signed
  | product
  | summand
  | sum
deriving DecidableEq, Repr

variable {K : Type*} [Field K]

/-- The term denotes the number under a valuation of its symbols, when it hangs together as
tightly as the level demands. -/
inductive Denotes (δ : Dialect) (σ : Text → K) : Level → Text → K → Prop where
  | symbol {name : Text} (valid : isSymbol name) : Denotes δ σ .atom name (σ name)
  | group {inner : Text} {x : K} (term : Denotes δ σ .sum inner x) :
      Denotes δ σ .atom ('(' :: inner ++ [')']) x
  | fraction {above below : Text} {x y : K} (numerator : Denotes δ σ .sum above x)
      (denominator : Denotes δ σ .sum below y) :
      Denotes δ σ .atom (Latex.fraction above below) (x / y)
  | plusTimes {digits text : Text} {x : K} (plus : δ.allowsPlus) (literal : δ.IsLiteral digits)
      (term : Denotes δ σ .atom text x) :
      Denotes δ σ .atom ('(' :: '+' :: digits ++ ')' :: text) (Decimal.literal K digits * x)
  | ofAtom {text : Text} {x : K} (term : Denotes δ σ .atom text x) : Denotes δ σ .factor text x
  | number {digits : Text} (literal : δ.IsLiteral digits) :
      Denotes δ σ .factor digits (Decimal.literal K digits)
  | juxtaposed {digits text : Text} {x : K} (literal : δ.IsLiteral digits)
      (term : Denotes δ σ .atom text x) :
      Denotes δ σ .factor (digits ++ text) (Decimal.literal K digits * x)
  | ofFactor {text : Text} {x : K} (term : Denotes δ σ .factor text x) :
      Denotes δ σ .signed text x
  | negation {text : Text} {x : K} (term : Denotes δ σ .signed text x)
      (single : δ.stacksMinus ∨ text.head? ≠ some '-') : Denotes δ σ .signed ('-' :: text) (-x)
  | ofSigned {text : Text} {x : K} (term : Denotes δ σ .signed text x) :
      Denotes δ σ .product text x
  | times {left right : Text} {x y : K} (first : Denotes δ σ .product left x)
      (second : Denotes δ σ .signed right y) :
      Denotes δ σ .product (left ++ Latex.productDot ++ right) (x * y)
  | ofProduct {text : Text} {x : K} (term : Denotes δ σ .product text x) :
      Denotes δ σ .summand text x
  | plusSigned {digits : Text} (plus : δ.allowsPlus) (literal : δ.IsLiteral digits) :
      Denotes δ σ .summand ('+' :: digits) (Decimal.literal K digits)
  | ofSummand {text : Text} {x : K} (term : Denotes δ σ .summand text x) :
      Denotes δ σ .sum text x
  | plus {left right : Text} {x y : K} (first : Denotes δ σ .sum left x)
      (second : Denotes δ σ .summand right y) :
      Denotes δ σ .sum (left ++ " + " ++ right) (x + y)
  | minus {left right : Text} {x y : K} (first : Denotes δ σ .sum left x)
      (second : Denotes δ σ .product right y) :
      Denotes δ σ .sum (left ++ " - " ++ right) (x - y)

end MatrixFormula.Cell
