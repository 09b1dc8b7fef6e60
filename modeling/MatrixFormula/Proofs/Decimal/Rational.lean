import Mathlib.Data.List.TakeWhile
import Mathlib.Data.Rat.Cast.CharZero
import Mathlib.Data.Rat.Cast.Lemmas
import Mathlib.Tactic.NormNum
import MatrixFormula.Proofs.Decimal.Value

/-!
# Rational numbers as exact numerals

A rational number is written as a decimal when some power of ten clears its denominator, with
the fewest places that do, and as a fraction of two natural numbers otherwise. Nothing is ever
rounded, so the rational numbers are exact numerals for every field that contains them.
-/

namespace MatrixFormula.Decimal

/-! ## Literals made of digits -/

/-- The digits of a natural number have its value. -/
theorem digitsValue_ofNat (number : Nat) : Text.digitsValue (Text.ofNat number) = number := by
  have same := Nat.ofDigitChars_ten_toDigits (n := number)
  rwa [Nat.ofDigitChars_eq_foldl] at same

/-- Zeros in front of digits change no value. -/
theorem digitsValue_replicate_zero (count : Nat) (digits : Text) :
    Text.digitsValue (List.replicate count '0' ++ digits) = Text.digitsValue digits := by
  induction count with
  | zero => rfl
  | succ count ih => simpa [List.replicate_succ, Text.digitsValue] using ih

variable {K : Type*} [Field K]

theorem ne_point_of_isDigit {char : Char} (digit : char.isDigit) : char ≠ '.' := by
  rintro rfl
  exact absurd digit (by decide)

theorem any_isDigit {digits : Text} (nonempty : digits ≠ []) (all : ∀ char ∈ digits, char.isDigit) :
    digits.any Char.isDigit := by
  obtain ⟨char, rest, rfl⟩ := List.exists_cons_of_ne_nil nonempty
  simp [all char (by simp)]

/-- No point stands in a run of digits. -/
theorem count_point {digits : Text} (all : ∀ char ∈ digits, char.isDigit) :
    digits.count '.' = 0 :=
  List.count_eq_zero.mpr fun member => ne_point_of_isDigit (all _ member) rfl

/-- A run of digits is a literal. -/
theorem literal_digits {digits : Text} (nonempty : digits ≠ [])
    (all : ∀ char ∈ digits, char.isDigit) :
    isUnsigned digits ∧ literal K digits = (Text.digitsValue digits : K) := by
  have apart : ∀ char ∈ digits, (char != '.') = true := fun char member => by
    simpa using ne_point_of_isDigit (all char member)
  have whole : wholeDigits digits = digits := List.takeWhile_eq_self_iff.mpr apart
  have fraction : fractionDigits digits = [] := by
    rw [fractionDigits, List.dropWhile_eq_nil_iff.mpr apart, List.drop_nil]
  refine ⟨?_, by simp [literal, value, ofUnsigned, whole, fraction]⟩
  simp only [isUnsigned, Bool.and_eq_true, List.all_eq_true, decide_eq_true_eq]
  exact ⟨⟨fun char member => by simp [all char member], by simp [count_point all]⟩,
    any_isDigit nonempty all⟩

/-- Two runs of digits with a point between them are a literal. -/
theorem literal_pointed {whole fraction : Text} (nonempty : whole ≠ [])
    (wholeAll : ∀ char ∈ whole, char.isDigit) (fractionAll : ∀ char ∈ fraction, char.isDigit) :
    isUnsigned (whole ++ '.' :: fraction) ∧
      literal K (whole ++ '.' :: fraction) =
        (Text.digitsValue (whole ++ fraction) : K) / 10 ^ fraction.length := by
  have apart : ∀ char ∈ whole, (char != '.') = true := fun char member => by
    simpa using ne_point_of_isDigit (wholeAll char member)
  have before : wholeDigits (whole ++ '.' :: fraction) = whole := by
    simp [wholeDigits, List.takeWhile_append_of_pos apart]
  have behind : fractionDigits (whole ++ '.' :: fraction) = fraction := by
    simp [fractionDigits, List.dropWhile_append_of_pos apart]
  refine ⟨?_, by simp [literal, value, ofUnsigned, before, behind]⟩
  simp only [isUnsigned, Bool.and_eq_true, List.all_eq_true, decide_eq_true_eq]
  refine ⟨⟨fun char member => ?_, ?_⟩, ?_⟩
  · rcases List.mem_append.mp member with inside | inside
    · simp [wholeAll char inside]
    · rcases List.mem_cons.mp inside with rfl | inside
      · rfl
      · simp [fractionAll char inside]
  · simp [List.count_append, count_point wholeAll, count_point fractionAll]
  · simp [any_isDigit nonempty wholeAll]

/-! ## Writing rational numbers -/

/-- A natural number is written in digits. -/
theorem isDigit_of_mem_ofNat {number : Nat} {char : Char} (member : char ∈ Text.ofNat number) :
    char.isDigit :=
  Nat.isDigit_of_mem_toDigits (by decide) (by decide) member

theorem ofNat_ne_nil (number : Nat) : Text.ofNat number ≠ [] := Nat.toDigits_ne_nil

/-- The positional text of a number is a literal that writes it. -/
theorem literal_positional (multiple places : Nat) :
    isUnsigned (Double.positional multiple (-(places : Int))) ∧
      literal K (Double.positional multiple (-(places : Int))) = (multiple : K) / 10 ^ places := by
  have digits {char : Char} (member : char ∈ Text.ofNat multiple) := isDigit_of_mem_ofNat member
  cases places with
  | zero =>
      have written := literal_digits (K := K) (ofNat_ne_nil multiple) fun _ => digits
      simpa [Double.positional, digitsValue_ofNat] using written
  | succ places =>
      let padded := List.replicate (places + 2 - (Text.ofNat multiple).length) '0' ++
        Text.ofNat multiple
      have long : places + 2 ≤ padded.length := by
        simp only [padded, List.length_append, List.length_replicate]
        omega
      have all : ∀ char ∈ padded, char.isDigit := by
        intro char member
        rcases List.mem_append.mp member with zero | digit
        · rw [(List.mem_replicate.mp zero).2]
          rfl
        · exact digits digit
      have whole : padded.take (padded.length - (places + 1)) ≠ [] := by
        simp only [ne_eq, List.take_eq_nil_iff, not_or]
        exact ⟨by omega, fun empty => by simp [empty] at long⟩
      have fraction : ∀ char ∈ padded.drop (padded.length - (places + 1)), char.isDigit :=
        fun char member => all char (List.mem_of_mem_drop member)
      have written := literal_pointed (K := K) whole
        (fun char member => all char (List.mem_of_mem_take member)) fraction
      have size : (padded.drop (padded.length - (places + 1))).length = places + 1 := by
        rw [List.length_drop]
        omega
      have spelled : Double.positional multiple (-((places + 1 : Nat) : Int)) =
          padded.take (padded.length - (places + 1)) ++
            '.' :: padded.drop (padded.length - (places + 1)) := by
        rw [Double.positional, if_neg (by omega)]
        simp [padded]
      rw [spelled]
      rwa [size, List.take_append_drop, digitsValue_replicate_zero, digitsValue_ofNat] at written

end MatrixFormula.Decimal

namespace MatrixFormula.Rational

open Decimal

variable {K : Type*} [Field K]

/-- The text of a quotient of two natural numbers. -/
def magnitudeText (above below : Nat) : Text :=
  match (List.range (below.log2 + 1)).find? fun places => 10 ^ places % below == 0 with
  | some places => Double.positional (above * (10 ^ places / below)) (-(places : Int))
  | none => Latex.fraction (Text.ofNat above) (Text.ofNat below)

/-- The text of a rational number. -/
def text (number : ℚ) : Text :=
  if number < 0 then '-' :: magnitudeText number.num.natAbs number.den
  else magnitudeText number.num.natAbs number.den

/-- The digits of a natural number are a literal that writes it. -/
theorem literal_ofNat (number : Nat) :
    isUnsigned (Text.ofNat number) ∧ literal K (Text.ofNat number) = (number : K) := by
  have written := literal_digits (K := K) (ofNat_ne_nil number) fun _ => isDigit_of_mem_ofNat
  rwa [digitsValue_ofNat] at written

/-- A quotient of natural numbers in lowest terms is written without a sign. -/
theorem writes_magnitudeText [CharZero K] {above below : Nat} (belowPos : 0 < below)
    (lowest : above = 0 → below = 1) :
    Writes (magnitudeText above below) ((above : K) / below) ∧
      (magnitudeText above below).head? ≠ some '-' := by
  unfold magnitudeText
  split
  · next places found =>
      have exact : 10 ^ places = below * (10 ^ places / below) := by
        have divides := List.find?_some found
        simp only [beq_iff_eq] at divides
        exact (Nat.mul_div_cancel' (Nat.dvd_of_mod_eq_zero divides)).symm
      have written := literal_positional (K := K) (above * (10 ^ places / below)) places
      have value : ((above * (10 ^ places / below) : Nat) : K) / 10 ^ places = above / below := by
        have belowNonzero : (below : K) ≠ 0 := by exact_mod_cast belowPos.ne'
        have scale : (10 : K) ^ places = below * (10 ^ places / below : Nat) := by
          exact_mod_cast congrArg (Nat.cast (R := K)) exact
        have scaleNonzero : ((10 ^ places / below : Nat) : K) ≠ 0 := by
          intro zero
          rw [zero, mul_zero] at scale
          exact pow_ne_zero places (by norm_num) scale
        rw [scale, Nat.cast_mul, mul_div_mul_right _ _ scaleNonzero]
      constructor
      · rw [← value, ← written.2]
        exact .literal written.1
      · intro starts
        exact absurd (inNumber_of_isUnsigned written.1 '-' (List.mem_of_mem_head? starts)) (by decide)
  · next missing =>
      have aboveNonzero : above ≠ 0 := by
        intro zero
        have first := List.find?_eq_none.mp missing 0 (by simp)
        simp [lowest zero] at first
      have aboveWritten := literal_ofNat (K := K) above
      have belowWritten := literal_ofNat (K := K) below
      refine ⟨?_, by simp [Latex.fraction_def]⟩
      rw [← aboveWritten.2, ← belowWritten.2]
      refine .fraction aboveWritten.1 belowWritten.1 ?_ ?_
      · rw [aboveWritten.2]
        exact_mod_cast aboveNonzero
      · rw [belowWritten.2]
        exact_mod_cast belowPos.ne'

/-- The text of a rational number writes it. -/
theorem writes_text [CharZero K] (number : ℚ) : Writes (text number) (number : K) := by
  have belowPos := number.den_pos
  have lowest : number.num.natAbs = 0 → number.den = 1 := by
    intro zero
    rw [Rat.num_eq_zero.mp (Int.natAbs_eq_zero.mp zero)]
    rfl
  have written := writes_magnitudeText (K := K) belowPos lowest
  unfold text
  split
  · next negative =>
      have magnitude : (number.num.natAbs : K) = -(number.num : K) := by
        rw [← Int.cast_natCast, Int.ofNat_natAbs_of_nonpos (Rat.num_neg.mpr negative).le,
          Int.cast_neg]
      have value : (number : K) = -((number.num.natAbs : K) / number.den) := by
        rw [magnitude, Rat.cast_def, neg_div, neg_neg]
      rw [value]
      refine .negative written.1 ?_ written.2
      intro zero
      rw [zero, neg_zero, Rat.cast_eq_zero] at value
      exact negative.ne value
  · next nonnegative =>
      have magnitude : (number.num.natAbs : K) = (number.num : K) := by
        rw [← Int.cast_natCast, Int.natAbs_of_nonneg (Rat.num_nonneg.mpr (not_lt.mp nonnegative))]
      rw [Rat.cast_def, ← magnitude]
      exact written.1

end MatrixFormula.Rational

namespace MatrixFormula

/-- Rational numbers are read and written as they are. -/
instance : Numeral ℚ where
  ofDecimal decimal := decimal.value ℚ
  write := Rational.text

/-- Rational numbers stand for the elements of every field that contains them. -/
theorem Rational.exact (K : Type*) [Field K] [CharZero K] :
    Numeral.Exact ℚ (fun _ => True) (fun (number : ℚ) (x : K) => (number : K) = x) where
  unique first second := first.symm.trans second
  safe_zero := trivial
  safe_neg _ := trivial
  zero := Rat.cast_zero
  ofDecimal decimal _ := by
    show ((decimal.value ℚ : ℚ) : K) = decimal.value K
    unfold Decimal.value
    split <;> push_cast <;> rfl
  add first second _ := by rw [Rat.cast_add, first, second]
  sub first second _ := by rw [Rat.cast_sub, first, second]
  mul first second _ := by rw [Rat.cast_mul, first, second]
  div first second _ _ := by rw [Rat.cast_div, first, second]
  neg first := by rw [Rat.cast_neg, first]
  beq_zero first := by
    subst first
    simp
  beq_one first := by
    rw [beq_iff_eq, ← first]
    exact_mod_cast Iff.rfl
  beq_neg_one first := by
    rw [beq_iff_eq, ← first]
    exact_mod_cast Iff.rfl
  write first _ := first ▸ writes_text _

end MatrixFormula
