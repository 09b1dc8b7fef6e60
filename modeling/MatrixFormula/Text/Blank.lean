import MatrixFormula.Text.Basic

/-!
# Blank characters

A character is blank when it has the Unicode property `White_Space`. Blank runs
separate tokens, are trimmed off cells and answers, and mean nothing else.
-/

namespace MatrixFormula.Text

/-- The ranges of code points with the property `White_Space`. -/
def blankRanges : List (Nat × Nat) :=
  [(0x9, 0xD), (0x20, 0x20), (0x85, 0x85), (0xA0, 0xA0), (0x1680, 0x1680), (0x2000, 0x200A),
    (0x2028, 0x2029), (0x202F, 0x202F), (0x205F, 0x205F), (0x3000, 0x3000)]

/-- A character is blank when its code point lies in one of the blank ranges. -/
def isBlank (char : Char) : Bool :=
  blankRanges.any fun (first, last) => first ≤ char.toNat && char.toNat ≤ last

/-- Whether a text has nothing but blank characters. -/
def isBlankText (text : Text) : Bool := text.all isBlank

/-- The text without its leading blank characters. -/
def trimStart (text : Text) : Text := text.dropWhile isBlank

/-- The text without its leading and trailing blank characters. -/
def trim (text : Text) : Text := (trimStart (trimStart text).reverse).reverse

/-- Trimming never lengthens a text. -/
theorem length_trim_le (text : Text) : (trim text).length ≤ text.length := by
  have inner := (List.dropWhile_sublist isBlank (l := text)).length_le
  have outer := (List.dropWhile_sublist isBlank (l := (trimStart text).reverse)).length_le
  simp only [trim, trimStart, List.length_reverse] at *
  omega

/-- A trimmed text does not start with a blank character. -/
theorem not_isBlank_of_trimStart {text rest : Text} {char : Char}
    (starts : trimStart text = char :: rest) : isBlank char = false := by
  induction text with
  | nil => simp [trimStart] at starts
  | cons first others ih =>
      rw [trimStart, List.dropWhile_cons] at starts
      split at starts
      · exact ih starts
      · next shown => cases starts; simpa using shown

end MatrixFormula.Text
