import Mathlib.Algebra.Field.Basic
import Mathlib.Tactic.Ring
import MatrixFormula.Decimal.Numeral
import MatrixFormula.Latex
import MatrixFormula.Token

/-!
# Values of decimals and exact numerals

Every field contains the number that a decimal writes. Numerals are exact on a range
of safe values when they read, compute and write without rounding as long as the
outcome lies in that range. Doubles are exact on the integers of moderate size, and
rational numbers are exact everywhere.
-/

namespace MatrixFormula

namespace Decimal

variable (K : Type*) [Field K]

/-- The number that a decimal writes. -/
def value (decimal : Decimal) : K :=
  (if decimal.negative then -1 else 1) * ((decimal.coefficient : K) / 10 ^ decimal.places)

/-- The number that an unsigned literal writes. -/
def literal (digits : Text) : K := (ofUnsigned false digits).value K

/-- A literal behind a minus sign has the opposite value. -/
theorem value_ofUnsigned_true (digits : Text) :
    (ofUnsigned true digits).value K = -literal K digits := by
  simp [literal, value, ofUnsigned]

/-- A literal that writes anything but zero has a digit other than zero. -/
theorem coefficient_ne_zero_of_literal {digits : Text} (nonzero : literal K digits ≠ 0) :
    (ofUnsigned false digits).coefficient ≠ 0 := by
  intro vanishes
  apply nonzero
  simp [literal, value, vanishes]

/-- A literal consists of digits and points. -/
theorem inNumber_of_isUnsigned {digits : Text} (unsigned : isUnsigned digits) :
    ∀ char ∈ digits, Token.inNumber char := by
  simp only [isUnsigned, Bool.and_eq_true, List.all_eq_true] at unsigned
  exact unsigned.1.1

theorem ne_nil_of_isUnsigned {digits : Text} (unsigned : isUnsigned digits) : digits ≠ [] := by
  rintro rfl
  simp [isUnsigned] at unsigned

/-- An unsigned literal is read as it stands. -/
theorem read?_of_isUnsigned {digits : Text} (unsigned : isUnsigned digits) :
    read? digits = some (ofUnsigned false digits) := by
  have inside := inNumber_of_isUnsigned unsigned
  unfold read?
  split
  · exact absurd (inside '-' (by simp)) (by decide)
  · exact absurd (inside '+' (by simp)) (by decide)
  · simp [readUnsigned?, unsigned]

/-- Only a literal is read as a decimal without a sign. -/
theorem isUnsigned_of_readUnsigned? {negative : Bool} {digits : Text} {decimal : Decimal}
    (read : readUnsigned? negative digits = some decimal) :
    isUnsigned digits ∧ decimal = ofUnsigned negative digits := by
  unfold readUnsigned? at read
  split at read
  · next unsigned => exact ⟨unsigned, by simpa using read.symm⟩
  · cases read

/-- A decimal is an unsigned literal, possibly behind one sign. -/
theorem cases_of_read? {text : Text} {decimal : Decimal} (read : read? text = some decimal) :
    (isUnsigned text ∧ decimal = ofUnsigned false text) ∨
      ∃ sign digits, text = sign :: digits ∧ isUnsigned digits ∧
        (sign = '-' ∧ decimal = ofUnsigned true digits ∨
          sign = '+' ∧ decimal = ofUnsigned false digits) := by
  unfold read? at read
  split at read
  · have ⟨unsigned, same⟩ := isUnsigned_of_readUnsigned? read
    exact .inr ⟨_, _, rfl, unsigned, .inl ⟨rfl, same⟩⟩
  · have ⟨unsigned, same⟩ := isUnsigned_of_readUnsigned? read
    exact .inr ⟨_, _, rfl, unsigned, .inr ⟨rfl, same⟩⟩
  · exact .inl (isUnsigned_of_readUnsigned? read)

/-- A decimal has no characters but those of literals and signs. -/
theorem inNumber_or_sign_of_read? {text : Text} {decimal : Decimal}
    (read : read? text = some decimal) :
    ∀ char ∈ text, Token.inNumber char ∨ char = '-' ∨ char = '+' := by
  intro char member
  rcases cases_of_read? read with ⟨unsigned, -⟩ | ⟨sign, digits, rfl, unsigned, cause⟩
  · exact .inl (inNumber_of_isUnsigned unsigned char member)
  · rcases List.mem_cons.mp member with rfl | inside
    · exact .inr (cause.imp And.left And.left)
    · exact .inl (inNumber_of_isUnsigned unsigned char inside)

end Decimal

variable {K : Type*} [Field K]

/-- The texts that write a number exactly: a literal or a fraction of two literals, with a
minus sign when the number is negative. -/
inductive Decimal.Writes : Text → K → Prop where
  | literal {digits : Text} (unsigned : isUnsigned digits) : Writes digits (literal K digits)
  | fraction {above below : Text} (aboveUnsigned : isUnsigned above)
      (belowUnsigned : isUnsigned below) (aboveNonzero : Decimal.literal K above ≠ 0)
      (belowNonzero : Decimal.literal K below ≠ 0) :
      Writes (Latex.fraction above below) (Decimal.literal K above / Decimal.literal K below)
  | negative {text : Text} {number : K} (magnitude : Writes text number) (nonzero : number ≠ 0)
      (bare : text.head? ≠ some '-') : Writes ('-' :: text) (-number)

/-- Numerals that stand for elements of a field and compute without rounding whenever the
outcome is safe. -/
structure Numeral.Exact (ν : Type) [Numeral ν] (safe : K → Prop) (stands : ν → K → Prop) :
    Prop where
  unique : ∀ {u x y}, stands u x → stands u y → x = y
  safe_zero : safe 0
  safe_neg : ∀ {x}, safe x → safe (-x)
  zero : stands 0 0
  ofDecimal : ∀ decimal : Decimal, safe (decimal.value K) →
    stands (Numeral.ofDecimal decimal) (decimal.value K)
  add : ∀ {u v x y}, stands u x → stands v y → safe (x + y) → stands (u + v) (x + y)
  sub : ∀ {u v x y}, stands u x → stands v y → safe (x - y) → stands (u - v) (x - y)
  mul : ∀ {u v x y}, stands u x → stands v y → safe (x * y) → stands (u * v) (x * y)
  div : ∀ {u v x y}, stands u x → stands v y → y ≠ 0 → safe (x / y) → stands (u / v) (x / y)
  neg : ∀ {u x}, stands u x → stands (-u) (-x)
  beq_zero : ∀ {u x}, stands u x → ((u == 0) = true ↔ x = 0)
  beq_one : ∀ {u x}, stands u x → ((u == 1) = true ↔ x = 1)
  beq_neg_one : ∀ {u x}, stands u x → ((u == -1) = true ↔ x = -1)
  write : ∀ {u x}, stands u x → safe x → Decimal.Writes (Numeral.write u) x

end MatrixFormula
