/-!
# Text

Formulas, cells and answers are lists of characters. Positions inside a text are
byte offsets of its UTF-8 form, so a position is always the `byteSize` of what
stands before it.
-/

namespace MatrixFormula

/-- A text is the list of its characters. -/
abbrev Text := List Char

instance : Coe String Text := ⟨String.toList⟩

namespace Text

/-- The number of bytes a text takes in UTF-8. -/
def byteSize : Text → Nat
  | [] => 0
  | char :: rest => char.utf8Size + byteSize rest

@[simp] theorem byteSize_nil : byteSize [] = 0 := rfl

@[simp] theorem byteSize_cons (char : Char) (rest : Text) :
    byteSize (char :: rest) = char.utf8Size + byteSize rest := rfl

@[simp] theorem byteSize_append (left right : Text) :
    byteSize (left ++ right) = byteSize left + byteSize right := by
  induction left with
  | nil => simp
  | cons char rest ih => simp [ih, Nat.add_assoc]

/-- Only the empty text takes no bytes. -/
@[simp] theorem byteSize_eq_zero_iff {text : Text} : byteSize text = 0 ↔ text = [] := by
  cases text with
  | nil => simp
  | cons char rest => simp [Nat.ne_of_gt char.utf8Size_pos]

/-- The decimal digits of a natural number. -/
def ofNat (value : Nat) : Text := Nat.toDigits 10 value

/-- The natural number that a run of digits writes. -/
def digitsValue (digits : Text) : Nat :=
  digits.foldl (fun value digit => 10 * value + (digit.toNat - '0'.toNat)) 0

/-- The pieces of a text, written with a separator between them. -/
def joined (separator : Text) (pieces : List Text) : Text := separator.intercalate pieces

@[simp] theorem joined_nil (separator : Text) : joined separator [] = [] := rfl

@[simp] theorem joined_singleton (separator piece : Text) : joined separator [piece] = piece :=
  List.intercalate_singleton

/-- A separator stands behind every piece but the last one. -/
theorem joined_cons_cons (separator first second : Text) (others : List Text) :
    joined separator (first :: second :: others) =
      first ++ separator ++ joined separator (second :: others) :=
  List.intercalate_cons_cons

/-- Every way to cut a text into two nonempty parts, shortest first part first. -/
def properSplits : Text → List (Text × Text)
  | [] => []
  | [_] => []
  | first :: second :: rest =>
      ([first], second :: rest) ::
        (properSplits (second :: rest)).map fun (left, right) => (first :: left, right)

/-- The two parts of every proper split are nonempty and spell the text. -/
theorem mem_properSplits_iff {text left right : Text} :
    (left, right) ∈ properSplits text ↔ left ≠ [] ∧ right ≠ [] ∧ left ++ right = text := by
  fun_induction properSplits text generalizing left with
  | case1 => simp +contextual
  | case2 char =>
      simp only [List.not_mem_nil, false_iff]
      rintro ⟨leftSome, rightSome, spelled⟩
      have sizes := congrArg List.length spelled
      simp only [List.length_append, List.length_singleton] at sizes
      have := List.length_pos_iff.mpr leftSome
      have := List.length_pos_iff.mpr rightSome
      omega
  | case3 first second rest ih =>
      cases left with
      | nil => simp
      | cons char tail =>
          cases tail with
          | nil => simp [eq_comm, and_comm]; grind
          | cons next more =>
              have shorter := @ih (next :: more)
              simp only [List.mem_cons, Prod.mk.injEq, List.mem_map, Prod.exists] at shorter ⊢
              grind

/-- Cuts a text just after the first occurrence of a tag. A text without the tag
is kept whole. -/
def cutAfter (tag : Text) : Text → Text × Text
  | [] => ([], [])
  | char :: rest =>
      if tag.isPrefixOf (char :: rest) then
        ((char :: rest).take tag.length, (char :: rest).drop tag.length)
      else
        let (before, after) := cutAfter tag rest
        (char :: before, after)

/-- Cutting loses nothing. -/
@[simp] theorem cutAfter_append (tag text : Text) :
    (cutAfter tag text).1 ++ (cutAfter tag text).2 = text := by
  fun_induction cutAfter tag text with
  | case1 => rfl
  | case2 char rest found => exact List.take_append_drop ..
  | case3 char rest missing before after cut ih =>
      rw [cut] at ih
      simpa using ih

end Text

end MatrixFormula
