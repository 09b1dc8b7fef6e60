import Mathlib.Data.List.Basic
import MatrixFormula.Proofs.Cell.Denotation
import MatrixFormula.Proofs.Text.Character

/-!
# Brackets and outer signs of terms

The parentheses and braces of a term close each other, so that a scan for outer signs or
for an open parenthesis comes out of each of its parts at the depth at which it went in.
A term that is no sum by its outer signs is a product, and one that is a negated sum in
parentheses denotes the opposite of what stands in them.
-/

namespace MatrixFormula.Cell

/-! ## Outer signs -/

/-- The scan for outer signs passes over the text. -/
def Inert (text : Text) : Prop :=
  ∀ depth rest, hasOuterSign depth (text ++ rest) = hasOuterSign depth rest

/-- The scan for outer signs comes out of the text at the depth at which it went in, unless
it finds a sign. -/
def Balanced (text : Text) : Prop :=
  ∀ depth rest, hasOuterSign depth (text ++ rest) =
    (decide (depth = 0) && hasOuterSign 0 text || hasOuterSign depth rest)

/-- Whether a character is neither a bracket nor a sign. -/
def isFlat (char : Char) : Bool :=
  char != '(' && char != ')' && char != '\x7b' && char != '\x7d' && char != '+' && char != '-'

/-- The scan for outer signs passes over a flat character. -/
theorem hasOuterSign_cons_of_isFlat {char : Char} (flat : isFlat char) (depth : Nat)
    (rest : Text) : hasOuterSign depth (char :: rest) = hasOuterSign depth rest := by
  simp only [isFlat, Bool.and_eq_true, bne_iff_ne] at flat
  simp [hasOuterSign, flat]

/-- A sign is an outer one when it stands outside all brackets. -/
theorem hasOuterSign_cons_of_sign {char : Char} (sign : char = '+' ∨ char = '-') (depth : Nat)
    (rest : Text) : hasOuterSign depth (char :: rest) =
      (decide (depth = 0) || hasOuterSign depth rest) := by
  rcases sign with rfl | rfl <;> cases depth <;> simp [hasOuterSign]

/-- The scan for outer signs passes over text without brackets and signs. -/
theorem Inert.of_forall_isFlat {text : Text} (flat : ∀ char ∈ text, isFlat char) :
    Inert text := by
  intro depth rest
  induction text with
  | nil => rfl
  | cons char text ih =>
      rw [List.cons_append, hasOuterSign_cons_of_isFlat (flat char (by simp))]
      exact ih fun other member => flat other (by simp [member])

/-- Texts that the scan passes over may be joined. -/
theorem Inert.append {left right : Text} (first : Inert left) (second : Inert right) :
    Inert (left ++ right) := by
  intro depth rest
  rw [List.append_assoc, first, second]

/-- A text that the scan passes over has no outer sign itself. -/
theorem Inert.hasOuterSign_eq {text : Text} (inert : Inert text) : hasOuterSign 0 text = false := by
  simpa [hasOuterSign] using inert 0 []

/-- A text that the scan passes over has no outer sign and leaves the depth alone. -/
theorem Inert.balanced {text : Text} (inert : Inert text) : Balanced text := by
  intro depth rest
  rw [inert, inert.hasOuterSign_eq]
  simp

/-- Texts that leave the depth alone may be joined. -/
theorem Balanced.append {left right : Text} (first : Balanced left) (second : Balanced right) :
    Balanced (left ++ right) := by
  intro depth rest
  rw [List.append_assoc, first, second, first 0 right]
  cases depth <;> simp [Bool.or_assoc]

/-- Signs are balanced texts of one character. -/
theorem Balanced.sign {char : Char} (sign : char = '+' ∨ char = '-') : Balanced [char] := by
  intro depth rest
  rw [List.singleton_append, hasOuterSign_cons_of_sign sign, hasOuterSign_cons_of_sign sign]
  cases depth <;> simp

/-- An outer sign of two texts in a row is one of either of them, when the first one leaves the
depth alone. -/
theorem Balanced.hasOuterSign_append {left : Text} (balanced : Balanced left) (right : Text) :
    hasOuterSign 0 (left ++ right) = (hasOuterSign 0 left || hasOuterSign 0 right) := by
  simpa using balanced 0 right

/-- All that stands in brackets is passed over. -/
theorem Balanced.inert_parentheses {inner : Text} (balanced : Balanced inner) :
    Inert ('(' :: inner ++ [')']) := by
  intro depth rest
  have closed : hasOuterSign (depth + 1) (')' :: rest) = hasOuterSign depth rest := by
    simp [hasOuterSign]
  calc hasOuterSign depth ('(' :: inner ++ [')'] ++ rest)
      = hasOuterSign (depth + 1) (inner ++ ')' :: rest) := by simp [hasOuterSign]
    _ = hasOuterSign depth rest := by rw [balanced, closed]; simp

/-- No sign is an outer one in braces. -/
theorem Balanced.inert_braced {inner : Text} (balanced : Balanced inner) :
    Inert (Latex.braced inner) := by
  intro depth rest
  have closed : hasOuterSign (depth + 1) ('\x7d' :: rest) = hasOuterSign depth rest := by
    simp [hasOuterSign]
  calc hasOuterSign depth (Latex.braced inner ++ rest)
      = hasOuterSign (depth + 1) (inner ++ '\x7d' :: rest) := by
        simp [Latex.braced, hasOuterSign]
    _ = hasOuterSign depth rest := by rw [balanced, closed]; simp

/-- Digits and points are neither brackets nor signs. -/
theorem isFlat_of_inNumber {char : Char} (digit : Token.inNumber char) : isFlat char := by
  simp only [isFlat, Bool.and_eq_true, bne_iff_ne]
  refine ⟨⟨⟨⟨⟨?_, ?_⟩, ?_⟩, ?_⟩, ?_⟩, ?_⟩ <;> rintro rfl <;> exact absurd digit (by decide)

/-- The characters of a name are neither brackets nor signs. -/
theorem isFlat_of_continuesName {char : Char} (inside : Token.continuesName char) :
    isFlat char := by
  simp only [isFlat, Bool.and_eq_true, bne_iff_ne]
  refine ⟨⟨⟨⟨⟨?_, ?_⟩, ?_⟩, ?_⟩, ?_⟩, ?_⟩ <;> rintro rfl <;> exact absurd inside (by decide)

/-- A symbol consists of characters of a name and backslashes. -/
theorem forall_continuesName_or_backslash {name : Text} (valid : isSymbol name) :
    ∀ char ∈ name, Token.continuesName char ∨ char = '\\' := by
  simp only [isSymbol, Bool.or_eq_true, beq_iff_eq] at valid
  rcases valid with rfl | identifier
  · have all : ("\\pi" : Text).all (fun char => Token.continuesName char || char == '\\') := rfl
    exact fun char member => by simpa using List.all_eq_true.mp all char member
  · exact fun char member => .inl (Token.continuesName_of_isIdentifier identifier char member)

/-- No symbol contains a bracket or a sign. -/
theorem isFlat_of_isSymbol {name : Text} (valid : isSymbol name) : ∀ char ∈ name, isFlat char := by
  intro char member
  rcases forall_continuesName_or_backslash valid char member with inside | rfl
  · exact isFlat_of_continuesName inside
  · rfl

/-- No literal without a sign contains a bracket. -/
theorem isFlat_of_isUnsigned {digits : Text} (unsigned : Decimal.isUnsigned digits) :
    ∀ char ∈ digits, isFlat char :=
  fun char member => isFlat_of_inNumber (Decimal.inNumber_of_isUnsigned unsigned char member)

theorem Inert.of_isSymbol {name : Text} (valid : isSymbol name) : Inert name :=
  .of_forall_isFlat (isFlat_of_isSymbol valid)

theorem Inert.of_isUnsigned {digits : Text} (unsigned : Decimal.isUnsigned digits) :
    Inert digits :=
  .of_forall_isFlat (isFlat_of_isUnsigned unsigned)

theorem Inert.productDot : Inert Latex.productDot :=
  .of_forall_isFlat (List.all_eq_true.mp rfl)

theorem Inert.space : Inert [' '] := .of_forall_isFlat (List.all_eq_true.mp rfl)

theorem Balanced.plus : Balanced " + " :=
  (Inert.space.balanced.append (.sign (.inl rfl))).append Inert.space.balanced

theorem Balanced.minus : Balanced " - " :=
  (Inert.space.balanced.append (.sign (.inr rfl))).append Inert.space.balanced

variable {K : Type*} [Field K] {δ : Dialect} {σ : Text → K} {level : Level} {text : Text} {x : K}

/-- The brackets of a term close each other. Atoms and factors have no outer sign. -/
theorem Denotes.balanced (term : Denotes δ σ level text x) :
    Balanced text ∧ (level = .atom ∨ level = .factor → Inert text) := by
  have inert {text : Text} {level : Level} (passed : Inert text) :
      Balanced text ∧ (level = .atom ∨ level = .factor → Inert text) :=
    ⟨passed.balanced, fun _ => passed⟩
  induction term with
  | symbol valid => exact inert (.of_isSymbol valid)
  | group _ ih => exact inert ih.1.inert_parentheses
  | fraction _ _ above below =>
      exact inert (((Inert.of_forall_isFlat (List.all_eq_true.mp rfl)).append
        above.1.inert_braced).append
        below.1.inert_braced)
  | ofAtom _ ih => exact inert (ih.2 (.inl rfl))
  | number literal => exact inert (.of_isUnsigned literal.1)
  | juxtaposed literal _ ih => exact inert ((Inert.of_isUnsigned literal.1).append (ih.2 (.inl rfl)))
  | @plusTimes digits text _ _ literal _ ih =>
      have inside : Balanced ('+' :: digits) :=
        (Balanced.sign (.inl rfl)).append (Inert.of_isUnsigned literal.1).balanced
      have all := inside.inert_parentheses.append (ih.2 (.inl rfl))
      exact inert (by simpa using all)
  | ofFactor _ ih | ofSigned _ ih | ofProduct _ ih | ofSummand _ ih => exact ⟨ih.1, by simp⟩
  | negation _ _ ih => exact ⟨(Balanced.sign (.inr rfl)).append ih.1, by simp⟩
  | times _ _ first second =>
      exact ⟨(first.1.append Inert.productDot.balanced).append second.1, by simp⟩
  | plusSigned _ literal =>
      exact ⟨(Balanced.sign (.inl rfl)).append (Inert.of_isUnsigned literal.1).balanced, by simp⟩
  | plus _ _ first second => exact ⟨(first.1.append .plus).append second.1, by simp⟩
  | minus _ _ first second => exact ⟨(first.1.append .minus).append second.1, by simp⟩

/-! ## The ends of a term -/

/-- A symbol starts with the first character of a name, or with a backslash. -/
theorem head?_of_isSymbol {name : Text} (valid : isSymbol name) :
    ∃ char rest, name = char :: rest ∧ (Token.startsName char ∨ char = '\\') := by
  simp only [isSymbol, Bool.or_eq_true, beq_iff_eq] at valid
  rcases valid with rfl | identifier
  · exact ⟨_, _, rfl, .inr rfl⟩
  · cases name with
    | nil => cases identifier
    | cons char rest =>
        simp only [Token.isIdentifier, Bool.and_eq_true] at identifier
        exact ⟨char, rest, rfl, .inl identifier.1⟩

/-- A text that is not empty and neither starts nor ends with a blank. -/
structure Solid (text : Text) : Prop where
  nonempty : text ≠ []
  head : ∀ char ∈ text.head?, Text.isBlank char = false
  last : ∀ char ∈ text.getLast?, Text.isBlank char = false

/-- A text without blanks is solid unless it is empty. -/
theorem Solid.of_forall {text : Text} (nonempty : text ≠ [])
    (shown : ∀ char ∈ text, Text.isBlank char = false) : Solid text where
  nonempty := nonempty
  head char member := shown char (List.mem_of_mem_head? member)
  last char member := shown char (List.mem_of_getLast? member)

theorem Solid.singleton (char : Char) (shown : Text.isBlank char = false) : Solid [char] :=
  .of_forall (List.cons_ne_nil char []) (by simpa using shown)

/-- Only the outer ends of a text decide whether it is solid. -/
theorem Solid.append {left right : Text} (first : Solid left) (second : Solid right)
    (middle : Text) : Solid (left ++ middle ++ right) where
  nonempty := by simp [first.nonempty]
  head := by
    obtain ⟨char, rest, rfl⟩ := List.exists_cons_of_ne_nil first.nonempty
    simpa using first.head
  last := by
    rw [List.getLast?_append, List.getLast?_eq_some_getLast second.nonempty]
    simpa [List.getLast?_eq_some_getLast second.nonempty] using second.last

/-- Trimming leaves a text as it is that does not start or end with a blank. -/
theorem Solid.trim_eq {text : Text} (solid : Solid text) : Text.trim text = text := by
  have whole {text : Text} (shown : ∀ char ∈ text.head?, Text.isBlank char = false) :
      Text.trimStart text = text := by
    cases text with
    | nil => rfl
    | cons char rest => simp [Text.trimStart, shown char rfl]
  rw [Text.trim, whole solid.head, whole (by simpa using solid.last), List.reverse_reverse]

theorem Solid.of_isUnsigned {digits : Text} (unsigned : Decimal.isUnsigned digits) :
    Solid digits :=
  .of_forall (Decimal.ne_nil_of_isUnsigned unsigned) fun char member =>
    Token.not_isBlank_of_inNumber (Decimal.inNumber_of_isUnsigned unsigned char member)

/-- No term starts or ends with a blank. -/
theorem Denotes.solid (term : Denotes δ σ level text x) : Solid text := by
  induction term with
  | symbol valid =>
      refine .of_forall ?_ fun char member => ?_
      · obtain ⟨char, rest, rfl, -⟩ := head?_of_isSymbol valid
        simp
      · rcases forall_continuesName_or_backslash valid char member with inside | rfl
        · exact Token.not_isBlank_of_continuesName inside
        · rfl
  | @group inner => exact (Solid.singleton '(' rfl).append (Solid.singleton ')' rfl) inner
  | @fraction above below =>
      have ends := (Solid.singleton '\\' rfl).append (Solid.singleton '\x7d' rfl)
        ("frac" ++ Latex.braced above ++ '\x7b' :: below)
      simpa [Latex.fraction_def, Latex.braced] using ends
  | number literal => exact .of_isUnsigned literal.1
  | juxtaposed literal _ ih => simpa using (Solid.of_isUnsigned literal.1).append ih []
  | @plusTimes digits _ _ _ _ _ ih =>
      simpa using (Solid.singleton '(' rfl).append ih ('+' :: digits ++ [')'])
  | ofAtom _ ih | ofFactor _ ih | ofSigned _ ih | ofProduct _ ih | ofSummand _ ih => exact ih
  | negation _ _ ih => simpa using (Solid.singleton '-' rfl).append ih []
  | times _ _ first second => exact first.append second _
  | plusSigned _ literal =>
      simpa using (Solid.singleton '+' rfl).append (.of_isUnsigned literal.1) []
  | plus _ _ first second => exact first.append second _
  | minus _ _ first second => exact first.append second _

/-! ## Sums -/

/-- The text behind a leading minus sign. -/
def withoutMinus : Text → Text
  | '-' :: rest => rest
  | text => text

/-- A term is a sum when it has an outer sign behind a minus sign that it may start with. -/
theorem isSum_eq (text : Text) : isSum text = hasOuterSign 0 (withoutMinus text) := by
  unfold isSum withoutMinus
  split <;> simp_all

/-- What follows a text does not change whether it starts with a minus sign, unless it is empty. -/
theorem withoutMinus_append {left : Text} (nonempty : left ≠ []) (right : Text) :
    withoutMinus (left ++ right) = withoutMinus left ++ right := by
  cases left with
  | nil => exact absurd rfl nonempty
  | cons char rest =>
      by_cases minus : char = '-'
      · subst minus
        rfl
      · simp [withoutMinus, minus]

/-- A text that the scan passes over does not start with a minus sign. -/
theorem Inert.withoutMinus_eq {text : Text} (inert : Inert text) : withoutMinus text = text := by
  unfold withoutMinus
  split
  · simpa [hasOuterSign] using inert.hasOuterSign_eq
  · rfl

/-- The brackets of a term close each other also when its leading minus sign is dropped. -/
theorem Denotes.balanced_withoutMinus (term : Denotes δ σ level text x) :
    Balanced (withoutMinus text) := by
  have bare {level : Level} {text : Text} {x : K} (term : Denotes δ σ level text x)
      (tight : level = .atom ∨ level = .factor) : Balanced (withoutMinus text) := by
    have inert := term.balanced.2 tight
    rw [inert.withoutMinus_eq]
    exact inert.balanced
  have joined {left middle right : Text} (solid : Solid left) (first : Balanced (withoutMinus left))
      (between : Balanced middle) (second : Balanced right) :
      Balanced (withoutMinus (left ++ middle ++ right)) := by
    rw [List.append_assoc, withoutMinus_append solid.nonempty]
    exact first.append (between.append second)
  induction term with
  | symbol valid => exact bare (.symbol valid : Denotes δ σ .atom _ _) (.inl rfl)
  | group term => exact bare (.group term) (.inl rfl)
  | fraction above below => exact bare (.fraction above below) (.inl rfl)
  | number literal => exact bare (.number literal) (.inr rfl)
  | juxtaposed literal term => exact bare (.juxtaposed literal term) (.inr rfl)
  | plusTimes plus literal term => exact bare (.plusTimes plus literal term) (.inl rfl)
  | ofAtom _ ih | ofFactor _ ih | ofSigned _ ih | ofProduct _ ih | ofSummand _ ih => exact ih
  | negation term => exact term.balanced.1
  | times left right first => exact joined left.solid first Inert.productDot.balanced right.balanced.1
  | plusSigned _ literal =>
      exact (Balanced.sign (.inl rfl)).append (Inert.of_isUnsigned literal.1).balanced
  | plus left right first => exact joined left.solid first .plus right.balanced.1
  | minus left right first => exact joined left.solid first .minus right.balanced.1

/-- A term with a sign behind its first part is a sum. -/
theorem Denotes.isSum_append (term : Denotes δ σ level text x) {sign : Char}
    (isSign : sign = '+' ∨ sign = '-') (rest : Text) :
    isSum (text ++ [' ', sign, ' '] ++ rest) := by
  rw [isSum_eq, List.append_assoc, withoutMinus_append term.solid.nonempty,
    term.balanced_withoutMinus.hasOuterSign_append]
  have found : hasOuterSign 0 ([' ', sign, ' '] ++ rest) = true := by
    rcases isSign with rfl | rfl <;> rfl
  rw [found, Bool.or_true]

/-- A term that is no sum by its outer signs is a product. -/
theorem Denotes.product_of_isSum_eq_false (term : Denotes δ σ .sum text x)
    (single : isSum text = false) : Denotes δ σ .product text x := by
  cases term with
  | ofSummand term =>
      cases term with
      | ofProduct term => exact term
      | plusSigned => simp [isSum, hasOuterSign] at single
  | @plus _ right _ _ first =>
      have sum := first.isSum_append (.inl rfl) right
      exact absurd (single.symm.trans sum) (by decide)
  | @minus _ right _ _ first =>
      have sum := first.isSum_append (.inr rfl) right
      exact absurd (single.symm.trans sum) (by decide)

/-- A term in parentheses if it is a sum is a product. -/
theorem Denotes.grouped (term : Denotes δ σ .sum text x) :
    Denotes δ σ .product (grouped text) x := by
  unfold Cell.grouped
  split
  · exact .ofSigned (.ofFactor (.ofAtom (.group term)))
  · next single => exact term.product_of_isSum_eq_false (by simpa using single)

/-! ## Negated sums -/

/-- The scan for an open parenthesis passes over the text. -/
def Paired (text : Text) : Prop :=
  ∀ depth rest, staysOpen depth (text ++ rest) = staysOpen depth rest

/-- The scan for an open parenthesis passes over all characters but parentheses. -/
theorem staysOpen_cons {char : Char} (plain : char ≠ '(' ∧ char ≠ ')') (depth : Nat)
    (rest : Text) : staysOpen depth (char :: rest) = staysOpen depth rest := by
  cases depth <;> simp [staysOpen, plain]

/-- The scan for an open parenthesis passes over text without parentheses. -/
theorem Paired.of_forall {text : Text} (plain : ∀ char ∈ text, char ≠ '(' ∧ char ≠ ')') :
    Paired text := by
  intro depth rest
  induction text with
  | nil => rfl
  | cons char text ih =>
      rw [List.cons_append, staysOpen_cons (plain char (by simp))]
      exact ih fun other member => plain other (by simp [member])

theorem Paired.of_all {text : Text} (plain : text.all fun char => char != '(' && char != ')') :
    Paired text :=
  .of_forall fun char member => by simpa using List.all_eq_true.mp plain char member

/-- Texts with paired parentheses may be joined. -/
theorem Paired.append {left right : Text} (first : Paired left) (second : Paired right) :
    Paired (left ++ right) := by
  intro depth rest
  rw [List.append_assoc, first, second]

/-- Parentheses may be put around a text in which they are paired. -/
theorem Paired.parentheses {inner : Text} (paired : Paired inner) :
    Paired ('(' :: inner ++ [')']) := by
  intro depth rest
  calc staysOpen depth ('(' :: inner ++ [')'] ++ rest)
      = staysOpen (depth + 1) (inner ++ ')' :: rest) := by simp [staysOpen]
    _ = staysOpen depth rest := by rw [paired, staysOpen]

theorem Paired.of_isUnsigned {digits : Text} (unsigned : Decimal.isUnsigned digits) :
    Paired digits := by
  refine .of_forall fun char member => ?_
  have inside := Decimal.inNumber_of_isUnsigned unsigned char member
  constructor <;> rintro rfl <;> exact absurd inside (by decide)

theorem Paired.of_isSymbol {name : Text} (valid : isSymbol name) : Paired name := by
  refine .of_forall fun char member => ?_
  rcases forall_continuesName_or_backslash valid char member with inside | rfl
  · constructor <;> rintro rfl <;> exact absurd inside (by decide)
  · decide

theorem Paired.braced {inner : Text} (paired : Paired inner) : Paired (Latex.braced inner) :=
  ((Paired.of_all rfl : Paired ['\x7b']).append paired).append (.of_all rfl)

/-- The parentheses of a term close each other. -/
theorem Denotes.paired (term : Denotes δ σ level text x) : Paired text := by
  induction term with
  | symbol valid => exact .of_isSymbol valid
  | group _ ih => exact ih.parentheses
  | fraction _ _ above below =>
      exact ((Paired.of_all rfl).append above.braced).append below.braced
  | number literal => exact .of_isUnsigned literal.1
  | juxtaposed literal _ ih => exact (Paired.of_isUnsigned literal.1).append ih
  | @plusTimes digits _ _ _ literal _ ih =>
      have inside : Paired ('+' :: digits) :=
        (Paired.of_all rfl : Paired ['+']).append (.of_isUnsigned literal.1)
      simpa using inside.parentheses.append ih
  | ofAtom _ ih | ofFactor _ ih | ofSigned _ ih | ofProduct _ ih | ofSummand _ ih => exact ih
  | negation _ _ ih => exact (Paired.of_all rfl : Paired ['-']).append ih
  | times _ _ first second => exact (first.append (.of_all rfl)).append second
  | plusSigned _ literal =>
      exact (Paired.of_all rfl : Paired ['+']).append (.of_isUnsigned literal.1)
  | plus _ _ first second => exact (first.append (.of_all rfl)).append second
  | minus _ _ first second => exact (first.append (.of_all rfl)).append second

/-- The text starts with a term in parentheses, behind some opening, and the term denotes the
number unless more follows it. -/
def OpensWith (δ : Dialect) (σ : Text → K) (opening text : Text) (x : K) : Prop :=
  ∃ inner y more, text = opening ++ '(' :: inner ++ ')' :: more ∧ Denotes δ σ .sum inner y ∧
    (more = [] → y = x)

/-- A text that goes on behind a space opens like its first part. -/
theorem OpensWith.append {opening left between right : Text} {x : K} (nonempty : left ≠ [])
    (short : opening.length ≤ 1) {rest : Text}
    (starts : left ++ ' ' :: between ++ right = opening ++ '(' :: rest)
    (opens : ∀ {rest}, left = opening ++ '(' :: rest → OpensWith δ σ opening left x) (y : K) :
    OpensWith δ σ opening (left ++ ' ' :: between ++ right) y := by
  have first : ∃ more, left = opening ++ '(' :: more := by
    match opening, left, short with
    | [], [], _ => exact absurd rfl nonempty
    | [], _ :: more, _ => exact ⟨more, by simp_all⟩
    | [_], [], _ => exact absurd rfl nonempty
    | [_], [_], _ => simp at starts
    | [_], _ :: _ :: more, _ => exact ⟨more, by simp_all⟩
  obtain ⟨more, whole⟩ := first
  obtain ⟨inner, z, others, same, term, -⟩ := opens whole
  exact ⟨inner, z, others ++ ' ' :: between ++ right, by simp [same], term, by simp⟩

/-- A term that starts with a parenthesis starts with a term in parentheses. -/
theorem Denotes.opensWith_nil (term : Denotes δ σ level text x) {rest : Text}
    (starts : text = '(' :: rest) : OpensWith δ σ [] text x := by
  induction term generalizing rest with
  | symbol valid =>
      have inside := forall_continuesName_or_backslash valid '(' (by simp [starts])
      exact absurd inside (by decide)
  | group term => exact ⟨_, _, [], by simp, term, fun _ => rfl⟩
  | fraction => simp [Latex.fraction_def] at starts
  | number literal =>
      have inside := Decimal.inNumber_of_isUnsigned literal.1 '(' (by simp [starts])
      exact absurd inside (by decide)
  | @juxtaposed digits _ _ literal =>
      obtain ⟨char, more, rfl⟩ :=
        List.exists_cons_of_ne_nil (Decimal.ne_nil_of_isUnsigned literal.1)
      have inside := Decimal.inNumber_of_isUnsigned literal.1 char (by simp)
      simp only [List.cons_append, List.cons.injEq] at starts
      rw [starts.1] at inside
      exact absurd inside (by decide)
  | plusTimes plus literal term =>
      exact ⟨_, _, _, by simp, .ofSummand (.plusSigned plus literal),
        fun empty => absurd empty term.solid.nonempty⟩
  | ofAtom _ ih | ofFactor _ ih | ofSigned _ ih | ofProduct _ ih | ofSummand _ ih =>
      exact ih starts
  | negation | plusSigned => simp at starts
  | times left _ ih => exact .append left.solid.nonempty (by simp) starts ih _
  | plus left _ ih => exact .append left.solid.nonempty (by simp) starts ih _
  | minus left _ ih => exact .append left.solid.nonempty (by simp) starts ih _

/-- A term that starts with a minus sign and a parenthesis starts with a negated term in
parentheses. -/
theorem Denotes.opensWith_minus (term : Denotes δ σ level text x) {rest : Text}
    (starts : text = '-' :: '(' :: rest) : OpensWith δ σ ['-'] text (-x) := by
  induction term generalizing rest with
  | symbol valid =>
      have inside := forall_continuesName_or_backslash valid '-' (by simp [starts])
      exact absurd inside (by decide)
  | group | fraction | plusTimes | plusSigned => simp [Latex.fraction_def] at starts
  | number literal =>
      have inside := Decimal.inNumber_of_isUnsigned literal.1 '-' (by simp [starts])
      exact absurd inside (by decide)
  | @juxtaposed digits _ _ literal =>
      obtain ⟨char, more, rfl⟩ :=
        List.exists_cons_of_ne_nil (Decimal.ne_nil_of_isUnsigned literal.1)
      have inside := Decimal.inNumber_of_isUnsigned literal.1 char (by simp)
      simp only [List.cons_append, List.cons.injEq] at starts
      rw [starts.1] at inside
      exact absurd inside (by decide)
  | ofAtom _ ih | ofFactor _ ih | ofSigned _ ih | ofProduct _ ih | ofSummand _ ih =>
      exact ih starts
  | negation term =>
      obtain ⟨inner, y, more, same, inside, whole⟩ :=
        term.opensWith_nil (List.cons.inj starts).2
      exact ⟨inner, y, more, by simp [same], inside, fun empty => by simp [whole empty]⟩
  | times left _ ih => exact .append left.solid.nonempty (by simp) starts ih _
  | plus left _ ih => exact .append left.solid.nonempty (by simp) starts ih _
  | minus left _ ih => exact .append left.solid.nonempty (by simp) starts ih _

/-- A negated sum is a sum in parentheses behind a minus sign. -/
theorem of_negatedSum?_eq_some {term inner : Text}
    (negated : negatedSum? term = some inner) :
    term = '-' :: '(' :: inner ++ [')'] ∧ staysOpen 0 inner ∧ isSum inner := by
  unfold negatedSum? at negated
  split at negated
  · split at negated
    · next enclosed =>
        obtain ⟨last, whole, sum⟩ := enclosed
        cases negated
        refine ⟨?_, whole, sum⟩
        rw [List.cons_append, List.cons_append, List.dropLast_append_getLast? _ last]
    · cases negated
  · cases negated

/-- What a negated sum in parentheses encloses denotes the opposite of it. -/
theorem Denotes.of_negatedSum? (term : Denotes δ σ level text x) {inner : Text}
    (negated : negatedSum? text = some inner) : Denotes δ σ .sum inner (-x) := by
  obtain ⟨rfl, stays, -⟩ := of_negatedSum?_eq_some negated
  obtain ⟨enclosing, y, more, same, inside, whole⟩ := term.opensWith_minus rfl
  have split : inner ++ [')'] = enclosing ++ ')' :: more := by simpa using same
  by_cases last : more = []
  · subst last
    obtain ⟨rfl, -⟩ := List.append_singleton_inj.mp split
    exact whole rfl ▸ inside
  · -- The parenthesis that is opened first would be closed before the end.
    obtain ⟨rest, rfl⟩ : ∃ rest, inner = enclosing ++ ')' :: rest := by
      refine ⟨more.dropLast, ?_⟩
      rw [← @List.dropLast_concat _ inner ')', split, List.dropLast_append_cons,
        List.dropLast_cons_of_ne_nil last]
    rw [inside.paired] at stays
    cases stays

end MatrixFormula.Cell
