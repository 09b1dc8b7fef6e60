import Mathlib.Data.List.DropRight
import MatrixFormula.Proofs.Decimal.Rational
import MatrixFormula.Proofs.Text.Character

/-!
# The shortest spelling of a number

A literal keeps its value when zeros at its outer ends are taken away. Nothing else in it can be
changed: two literals with one value have the same digits once both are filled up with zeros to
the same places on either side of the point. So two literals have the same shortest spelling
exactly when they write the same number.
-/

namespace MatrixFormula.Decimal

variable {text whole fraction left right : Text}

/-! ## Runs of digits -/

/-- One more digit behind others adds its value to ten times theirs. -/
theorem digitsValue_concat (digits : Text) (digit : Char) :
    Text.digitsValue (digits ++ [digit]) =
      10 * Text.digitsValue digits + (digit.toNat - '0'.toNat) := by
  simp [Text.digitsValue]

/-- Zeros behind digits multiply their value by ten. -/
theorem digitsValue_append_zeros (digits : Text) (count : Nat) :
    Text.digitsValue (digits ++ List.replicate count '0') =
      Text.digitsValue digits * 10 ^ count := by
  induction count with
  | zero => simp
  | succ count ih =>
      rw [List.replicate_succ', ← List.append_assoc, digitsValue_concat, ih, Nat.sub_self, pow_succ]
      ring

/-- Runs of equally many digits are told apart by their values. -/
theorem eq_of_digitsValue_eq (leftAll : ∀ char ∈ left, char.isDigit)
    (rightAll : ∀ char ∈ right, char.isDigit) (size : left.length = right.length)
    (same : Text.digitsValue left = Text.digitsValue right) : left = right := by
  induction left using List.reverseRecOn generalizing right with
  | nil => exact (List.length_eq_zero_iff.mp size.symm).symm
  | append_singleton digits digit ih =>
      rcases List.eq_nil_or_concat' right with rfl | ⟨others, other, rfl⟩
      · simp at size
      · obtain ⟨digitsAll, last⟩ := List.forall_mem_append.mp leftAll
        obtain ⟨othersAll, also⟩ := List.forall_mem_append.mp rightAll
        have low := Token.toNat_of_isDigit (last digit (List.mem_singleton_self _))
        have high := Token.toNat_of_isDigit (also other (List.mem_singleton_self _))
        -- the last digit is below ten, so it is the remainder of the value
        have parts : Text.digitsValue digits = Text.digitsValue others ∧
            digit.toNat = other.toNat := by
          have zero : '0'.toNat = 48 := rfl
          rw [digitsValue_concat, digitsValue_concat, zero] at same
          omega
        rw [ih digitsAll othersAll (by simpa using size) parts.1, Char.toNat_inj.mp parts.2]

/-! ## Zeros at the outer ends -/

/-- Only zeros are dropped from the front of a run. -/
theorem exists_zeros_front (digits : Text) :
    ∃ count, digits = List.replicate count '0' ++ digits.dropWhile (· == '0') := by
  refine ⟨(digits.takeWhile (· == '0')).length, ?_⟩
  have zeros : ∀ char ∈ digits.takeWhile (· == '0'), char = '0' := fun char member => by
    simpa using List.mem_takeWhile_imp member
  rw [← List.eq_replicate_of_mem zeros, List.takeWhile_append_dropWhile]

/-- Only zeros are dropped from the end of a run. -/
theorem exists_zeros_back (digits : Text) :
    ∃ count, digits = digits.rdropWhile (· == '0') ++ List.replicate count '0' := by
  obtain ⟨count, spelled⟩ := exists_zeros_front digits.reverse
  refine ⟨count, ?_⟩
  rw [List.rdropWhile, ← List.reverse_replicate, ← List.reverse_append, ← spelled,
    List.reverse_reverse]

/-- Zeros in front of digits are dropped with those that the digits start with. -/
theorem dropWhile_zeros (count : Nat) (digits : Text) :
    (List.replicate count '0' ++ digits).dropWhile (· == '0') = digits.dropWhile (· == '0') := by
  rw [List.dropWhile_append_of_pos]
  simp

/-- Zeros behind digits are dropped with those that the digits end with. -/
theorem rdropWhile_zeros (digits : Text) (count : Nat) :
    (digits ++ List.replicate count '0').rdropWhile (· == '0') =
      digits.rdropWhile (· == '0') := by
  rw [List.rdropWhile, List.reverse_append, List.reverse_replicate, dropWhile_zeros,
    List.rdropWhile]

/-! ## Literals -/

/-- A literal writes the number of all its digits, over a power of ten for those behind its
point. -/
theorem literal_eq_div (text : Text) :
    literal ℚ text = (Text.digitsValue (wholeDigits text ++ fractionDigits text) : ℚ) /
      10 ^ (fractionDigits text).length := by
  simp [literal, value, ofUnsigned]

/-- The parts of a literal on either side of its point are runs of digits. -/
theorem digits_of_isUnsigned (unsigned : isUnsigned text) :
    (∀ char ∈ wholeDigits text, char.isDigit) ∧ ∀ char ∈ fractionDigits text, char.isDigit := by
  have inside := inNumber_of_isUnsigned unsigned
  have digit {char : Char} (member : char ∈ text) (other : char ≠ '.') : char.isDigit := by
    simpa [Token.inNumber, other] using inside char member
  have points : text.count '.' ≤ 1 := by
    simp only [isUnsigned, Bool.and_eq_true, decide_eq_true_eq] at unsigned
    exact unsigned.1.2
  refine ⟨fun char member => ?_, fun char member => ?_⟩
  · exact digit ((List.takeWhile_sublist _).subset member)
      (by simpa using List.mem_takeWhile_imp member)
  · rw [fractionDigits] at member
    cases rest : text.dropWhile (· != '.') with
    | nil => simp [rest] at member
    | cons point fraction =>
        -- the point at the front is the only one
        rw [rest, List.drop_one, List.tail_cons] at member
        have spelled : wholeDigits text ++ point :: fraction = text := by
          rw [wholeDigits, ← rest, List.takeWhile_append_dropWhile]
        have first : point = '.' := by
          have stops := List.head?_dropWhile_not (· != '.') text
          simpa [rest] using stops
        refine digit (spelled ▸ by simp [member]) fun same => ?_
        have again := List.count_pos_iff.mpr (same ▸ member)
        rw [← spelled, first, List.count_append, List.count_cons_self] at points
        omega

/-- The digits of a literal, filled up with zeros at either end. -/
def filled (front back : Nat) (text : Text) : Text :=
  List.replicate front '0' ++ wholeDigits text ++ (fractionDigits text ++ List.replicate back '0')

/-- The digits of a literal stay digits when they are filled up with zeros. -/
theorem digits_filled {front back : Nat} (unsigned : isUnsigned text) :
    ∀ char ∈ filled front back text, char.isDigit := by
  obtain ⟨wholeAll, fractionAll⟩ := digits_of_isUnsigned unsigned
  have zeros {count : Nat} : ∀ char ∈ List.replicate count '0', char.isDigit := by
    intro char member
    rw [List.eq_of_mem_replicate member]
    rfl
  simp only [filled, List.forall_mem_append]
  exact ⟨⟨zeros, wholeAll⟩, fractionAll, zeros⟩

/-- Zeros in front change no value, and zeros behind multiply it by ten. -/
theorem digitsValue_filled (front back : Nat) (text : Text) :
    Text.digitsValue (filled front back text) =
      Text.digitsValue (wholeDigits text ++ fractionDigits text) * 10 ^ back := by
  rw [filled, List.append_assoc, digitsValue_replicate_zero, ← List.append_assoc,
    digitsValue_append_zeros]

/-- The text of digits around a point. -/
def spelling (whole fraction : Text) : Text :=
  (if whole = [] then ['0'] else whole) ++ (if fraction = [] then [] else '.' :: fraction)

/-- A literal is tidied by dropping its outer zeros. -/
theorem tidy_of_isUnsigned (unsigned : isUnsigned text) :
    tidy text = spelling ((wholeDigits text).dropWhile (· == '0'))
      ((fractionDigits text).rdropWhile (· == '0')) := by
  have lone : text ≠ ['.'] := by
    rintro rfl
    exact absurd unsigned (by decide)
  rw [tidy, if_neg lone, if_pos (by simp [isDecimal, read?_of_isUnsigned unsigned])]
  rfl

/-- Digits in front of the point and behind it spell a literal with their value. -/
theorem literal_spelling_of_ne_nil (nonempty : whole ≠ []) (wholeAll : ∀ char ∈ whole, char.isDigit)
    (fractionAll : ∀ char ∈ fraction, char.isDigit) :
    isUnsigned (spelling whole fraction) ∧
      literal ℚ (spelling whole fraction) =
        (Text.digitsValue (whole ++ fraction) : ℚ) / 10 ^ fraction.length := by
  by_cases integral : fraction = []
  · simpa [spelling, nonempty, integral] using literal_digits (K := ℚ) nonempty wholeAll
  · simpa [spelling, nonempty, integral] using
      literal_pointed (K := ℚ) nonempty wholeAll fractionAll

/-- Without digits in front of the point, a zero stands there. -/
theorem literal_spelling (wholeAll : ∀ char ∈ whole, char.isDigit)
    (fractionAll : ∀ char ∈ fraction, char.isDigit) :
    isUnsigned (spelling whole fraction) ∧
      literal ℚ (spelling whole fraction) =
        (Text.digitsValue (whole ++ fraction) : ℚ) / 10 ^ fraction.length := by
  by_cases empty : whole = []
  · have zero := literal_spelling_of_ne_nil (List.cons_ne_nil '0' [])
      (List.forall_mem_singleton.mpr rfl) fractionAll
    rw [show ['0'] ++ fraction = List.replicate 1 '0' ++ fraction from rfl,
      digitsValue_replicate_zero] at zero
    simpa [spelling, empty] using zero
  · exact literal_spelling_of_ne_nil empty wholeAll fractionAll

/-- The shortest spelling of a literal is a literal of the same number. -/
theorem literal_tidy (unsigned : isUnsigned text) :
    isUnsigned (tidy text) ∧ literal ℚ (tidy text) = literal ℚ text := by
  obtain ⟨wholeAll, fractionAll⟩ := digits_of_isUnsigned unsigned
  obtain ⟨before, front⟩ := exists_zeros_front (wholeDigits text)
  obtain ⟨behind, back⟩ := exists_zeros_back (fractionDigits text)
  have written := @literal_spelling ((wholeDigits text).dropWhile (· == '0'))
    ((fractionDigits text).rdropWhile (· == '0'))
    (fun char member => wholeAll char ((List.dropWhile_sublist _).subset member))
    (fun char member => fractionAll char ((List.rdropWhile_prefix _ _).subset member))
  rw [tidy_of_isUnsigned unsigned]
  refine ⟨written.1, written.2.trans ?_⟩
  have scale : (10 : ℚ) ^ behind ≠ 0 := by positivity
  have coefficient : Text.digitsValue (wholeDigits text ++ fractionDigits text) =
      Text.digitsValue ((wholeDigits text).dropWhile (· == '0') ++
        (fractionDigits text).rdropWhile (· == '0')) * 10 ^ behind := by
    conv_lhs => rw [front, back]
    rw [List.append_assoc, digitsValue_replicate_zero, ← List.append_assoc,
      digitsValue_append_zeros]
  have places : (fractionDigits text).length =
      ((fractionDigits text).rdropWhile (· == '0')).length + behind := by
    conv_lhs => rw [back]
    simp
  rw [literal_eq_div, coefficient, places, pow_add]
  push_cast
  rw [mul_div_mul_right _ _ scale]

/-- Literals of one number have the same digits, but for zeros at the outer ends. -/
theorem digits_of_literal_eq (leftUnsigned : isUnsigned left) (rightUnsigned : isUnsigned right)
    (same : literal ℚ left = literal ℚ right) :
    (wholeDigits left).dropWhile (· == '0') = (wholeDigits right).dropWhile (· == '0') ∧
      (fractionDigits left).rdropWhile (· == '0') =
        (fractionDigits right).rdropWhile (· == '0') := by
  -- without denominators, the numbers are the values of runs of digits
  have scaled : Text.digitsValue (wholeDigits left ++ fractionDigits left) *
        10 ^ (fractionDigits right).length =
      Text.digitsValue (wholeDigits right ++ fractionDigits right) *
        10 ^ (fractionDigits left).length := by
    rw [literal_eq_div, literal_eq_div, div_eq_div_iff (by positivity) (by positivity)] at same
    exact_mod_cast same
  have aligned : filled (wholeDigits right).length (fractionDigits right).length left =
      filled (wholeDigits left).length (fractionDigits left).length right := by
    refine eq_of_digitsValue_eq (digits_filled leftUnsigned) (digits_filled rightUnsigned) ?_ ?_
    · simp only [filled, List.length_append, List.length_replicate]
      omega
    · rw [digitsValue_filled, digitsValue_filled, scaled]
  obtain ⟨wholes, fractions⟩ := List.append_inj aligned (by simp [Nat.add_comm])
  constructor
  · simpa only [dropWhile_zeros] using congrArg (List.dropWhile (· == '0')) wholes
  · simpa only [rdropWhile_zeros] using congrArg (List.rdropWhile (· == '0')) fractions

/-- Literals have the same shortest spelling exactly when they write the same number. -/
theorem tidy_eq_iff (leftUnsigned : isUnsigned left) (rightUnsigned : isUnsigned right) :
    tidy left = tidy right ↔ literal ℚ left = literal ℚ right := by
  constructor
  · intro same
    rw [← (literal_tidy leftUnsigned).2, same, (literal_tidy rightUnsigned).2]
  · intro same
    obtain ⟨wholes, fractions⟩ := digits_of_literal_eq leftUnsigned rightUnsigned same
    rw [tidy_of_isUnsigned leftUnsigned, tidy_of_isUnsigned rightUnsigned, wholes, fractions]

/-- A run of digits and points that is no literal is no decimal with a sign either. -/
theorem isDecimal_eq_false (inside : ∀ char ∈ text, Token.inNumber char)
    (other : isUnsigned text = false) : isDecimal text = false := by
  rw [isDecimal, Option.isSome_eq_false_iff, Option.isNone_iff_eq_none]
  refine Option.eq_none_iff_forall_ne_some.mpr fun decimal read => ?_
  rcases cases_of_read? read with ⟨unsigned, -⟩ | ⟨sign, digits, rfl, -, signs⟩
  · simp [unsigned] at other
  · have mark := inside sign List.mem_cons_self
    rcases signs with ⟨rfl, -⟩ | ⟨rfl, -⟩ <;> exact absurd mark (by decide)

/-- The shortest spelling of a literal is a literal of the same number, and its own shortest
spelling. Literals of one number share it, and those of two numbers do not. A run of digits and
points that is no literal stays as it is, but a lone point is zero. -/
theorem tidy_canonical :
    (∀ text, isUnsigned text → isUnsigned (tidy text) ∧ literal ℚ (tidy text) = literal ℚ text ∧
      tidy (tidy text) = tidy text) ∧
    (∀ left right, isUnsigned left → isUnsigned right →
      (tidy left = tidy right ↔ literal ℚ left = literal ℚ right)) ∧
    ∀ text, (∀ char ∈ text, Token.inNumber char) → isUnsigned text = false →
      tidy text = if text = ['.'] then ['0'] else text := by
  refine ⟨fun text unsigned => ?_, fun _ _ => tidy_eq_iff, fun text inside other => ?_⟩
  · obtain ⟨again, same⟩ := literal_tidy unsigned
    exact ⟨again, same, (tidy_eq_iff again unsigned).mpr same⟩
  · simp [tidy, isDecimal_eq_false inside other]

/-- Zeros may stand in front of a literal and behind it, and two points are too many. -/
theorem tidy_canonical_zeros :
    isUnsigned "00.500" ∧ isUnsigned ".5" ∧ literal ℚ "00.500" = literal ℚ ".5" ∧
      tidy (tidy "00.500") = tidy "00.500" ∧
      (∀ char ∈ "1.20.0".toList, Token.inNumber char) ∧ isUnsigned "1.20.0" = false ∧
      tidy "1.20.0" = "1.20.0".toList := by
  have first : isUnsigned "00.500" := by decide
  have second : isUnsigned ".5" := by decide
  have inside : ∀ char ∈ "1.20.0".toList, Token.inNumber char := List.all_eq_true.mp rfl
  have other : isUnsigned "1.20.0" = false := by decide
  exact ⟨first, second, (tidy_canonical.2.1 _ _ first second).mp (by decide),
    (tidy_canonical.1 _ first).2.2, inside, other, tidy_canonical.2.2 _ inside other⟩

end MatrixFormula.Decimal
