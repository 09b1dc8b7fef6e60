import Mathlib.Algebra.BigOperators.Group.List.Basic
import Mathlib.Algebra.Order.Field.Rat
import Mathlib.Data.List.Chain
import Mathlib.Tactic.Linarith
import Mathlib.Tactic.Positivity
import MatrixFormula.Cell.Total
import MatrixFormula.Proofs.Cell.Arithmetic
import MatrixFormula.Proofs.Decimal.Rational

/-!
# The numeric value of a term

The numeric value of a cell is the sum of the decimals between its signs, each with the sign
directly in front of it. A minus sign in front of another one is dropped. So a term that has a
numeric value has the value that it denotes unless two minus signs stand in a row, and then
it has a smaller one.
-/

namespace MatrixFormula.Cell

/-! ## Pieces -/

/-- A text is cut before every sign but its first character. -/
theorem signedPieces_append {left right : Text} {sign : Char} (nonempty : left ≠ [])
    (signs : isSign sign) :
    signedPieces (left ++ sign :: right) = signedPieces left ++ signedPieces (sign :: right) := by
  fun_induction signedPieces left with
  | case1 => exact absurd rfl nonempty
  | case2 char => simp [signedPieces, signs]
  | case3 char next rest cut ih => simp_all [signedPieces]
  | case4 char next rest joined empty ih =>
      have spelled := flatten_signedPieces (next :: rest)
      simp [empty] at spelled
  | case5 char next rest joined piece pieces found ih =>
      have longer := ih (by simp)
      rw [found, List.cons_append] at longer
      simp_all [signedPieces]

/-- A run of characters that are no signs is one piece, also behind a sign. -/
theorem signedPieces_cons {char : Char} {run : Text} (plain : ∀ char ∈ run, isSign char = false) :
    signedPieces (char :: run) = [char :: run] := by
  induction run generalizing char with
  | nil => rfl
  | cons next rest ih =>
      obtain ⟨first, others⟩ := List.forall_mem_cons.mp plain
      simp [signedPieces, first, ih others]

/-- The decimals of a text that is cut before its signs. -/
def addends (text : Text) : List ℚ :=
  ((signedPieces text).filterMap Decimal.read?).map (Decimal.value ℚ)

/-- The decimals of a text are those up to a sign and those behind it. -/
theorem addends_append {left right : Text} {sign : Char} (nonempty : left ≠ [])
    (signs : isSign sign) :
    addends (left ++ sign :: right) = addends left ++ addends (sign :: right) := by
  simp [addends, signedPieces_append nonempty signs]

section Exact

variable {ν : Type} [Numeral ν] {safe : ℚ → Prop} {stands : ν → ℚ → Prop}
  (faithful : Numeral.Exact ν safe stands)

/-- Whether all decimals of a text, and all sums of the first ones, are in the safe range. -/
def SafeAddends (safe : ℚ → Prop) (text : Text) : Prop :=
  (∀ number ∈ addends text, safe number) ∧ ∀ first, first <+: addends text → safe first.sum

include faithful

/-- The value of a cell stands for the sum of its decimals. -/
theorem stands_of_total? {cell : Text} {value : ν} (total : total? ν cell = some value)
    (safely : SafeAddends safe (cleaned cell)) : stands value (addends (cleaned cell)).sum := by
  have run (pieces : List Text) (before : List ℚ) (sum : ν) (done : stands sum before.sum)
      (each : ∀ number ∈ (pieces.filterMap Decimal.read?).map (Decimal.value ℚ), safe number)
      (partials : ∀ first,
        first <+: before ++ (pieces.filterMap Decimal.read?).map (Decimal.value ℚ) →
          safe first.sum)
      (total : (pieces.filter fun piece => !isBareSign piece).foldlM
        (fun sum piece => (Numeral.read? ν piece).map (sum + ·)) sum = some value) :
      stands value
        (before ++ (pieces.filterMap Decimal.read?).map (Decimal.value ℚ)).sum := by
    induction pieces generalizing before sum with
    | nil =>
        cases total
        simpa using done
    | cons piece pieces ih =>
        by_cases bare : isBareSign piece
        · have unread : Decimal.read? piece = none := by
            simp only [isBareSign, Bool.or_eq_true, beq_iff_eq] at bare
            rcases bare with rfl | rfl <;> decide
          simp only [bare, Bool.not_true, Bool.false_eq_true, not_false_eq_true,
            List.filter_cons_of_neg, List.filterMap_cons_none unread] at *
          exact ih before sum done each partials total
        · simp only [Bool.not_eq_true] at bare
          simp only [bare, Bool.not_false, List.filter_cons_of_pos, List.foldlM_cons] at total
          obtain ⟨next, found, total⟩ := Option.bind_eq_some_iff.mp total
          obtain ⟨number, readNumber, rfl⟩ := Option.map_eq_some_iff.mp found
          obtain ⟨decimal, read, rfl⟩ := Option.map_eq_some_iff.mp readNumber
          rw [List.filterMap_cons_some read, List.map_cons] at each partials ⊢
          obtain ⟨first, others⟩ := List.forall_mem_cons.mp each
          have reached : safe (before ++ [decimal.value ℚ]).sum :=
            partials _ ⟨(pieces.filterMap Decimal.read?).map (Decimal.value ℚ), by simp⟩
          rw [List.sum_append, List.sum_singleton] at reached
          have next := faithful.add done (faithful.ofDecimal decimal first) reached
          have later := ih (before ++ [decimal.value ℚ]) _ (by simpa using next) others
            (by simpa using partials) total
          simpa using later
  exact run _ [] 0 (by simpa using faithful.zero) safely.1 safely.2 total

end Exact

/-! ## Terms that have a numeric value -/

/-- The dialect of computed numbers: no zeros, no minus sign directly before another one, and
numbers that keep their plus sign. -/
def Dialect.numeric : Dialect where
  admits digits := (Decimal.ofUnsigned false digits).coefficient ≠ 0
  stacksMinus := False
  allowsPlus := True
  admits_of_ne_zero _ nonzero := nonzero

/-- The characters of a text with a numeric value. -/
def IsNumeric (char : Char) : Prop :=
  Text.isBlank char ∨ char = ',' ∨ Token.inNumber char ∨ isSign char

/-- A cell that has a numeric value has no other characters. -/
theorem isNumeric_of_total? {ν : Type} [Numeral ν] {cell : Text} {value : ν}
    (total : total? ν cell = some value) : ∀ char ∈ cell, IsNumeric char := by
  have readable (pieces : List Text) (sum : ν)
      (total : pieces.foldlM (fun sum piece => (Numeral.read? ν piece).map (sum + ·)) sum =
        some value) :
      ∀ piece ∈ pieces, ∃ decimal, Decimal.read? piece = some decimal := by
    induction pieces generalizing sum with
    | nil => simp
    | cons piece pieces ih =>
        rw [List.foldlM_cons] at total
        obtain ⟨next, found, total⟩ := Option.bind_eq_some_iff.mp total
        obtain ⟨number, readNumber, -⟩ := Option.map_eq_some_iff.mp found
        obtain ⟨decimal, read, -⟩ := Option.map_eq_some_iff.mp readNumber
        exact List.forall_mem_cons.mpr ⟨⟨decimal, read⟩, ih next total⟩
  intro char member
  by_cases blank : Text.isBlank char
  · exact .inl blank
  · by_cases comma : char = ','
    · exact .inr (.inl comma)
    · have kept : char ∈ cleaned cell :=
        List.mem_map.mpr ⟨char, List.mem_filter.mpr ⟨member, by simpa using blank⟩, if_neg comma⟩
      rw [← flatten_signedPieces (cleaned cell)] at kept
      obtain ⟨piece, found, inside⟩ := List.mem_flatten.mp kept
      by_cases bare : isBareSign piece
      · simp only [isBareSign, Bool.or_eq_true, beq_iff_eq] at bare
        rcases bare with rfl | rfl <;> simp_all [IsNumeric, isSign]
      · obtain ⟨decimal, read⟩ :=
          readable _ _ total piece (List.mem_filter.mpr ⟨found, by simpa using bare⟩)
        rcases Decimal.inNumber_or_sign_of_read? read char inside with digit | rfl | rfl
        · exact .inr (.inr (.inl digit))
        · exact .inr (.inr (.inr rfl))
        · exact .inr (.inr (.inr rfl))

/-- No name, parenthesis or command stands in a cell that has a numeric value. -/
theorem not_isNumeric_of_marker {char : Char}
    (marker : Token.startsName char ∨ char = '(' ∨ char = '\\') : ¬ IsNumeric char := by
  rcases marker with starts | rfl | rfl
  · have letter := Token.toNat_of_startsName starts
    have inside : Token.continuesName char := by simp [Token.continuesName, starts]
    rintro (blank | rfl | digit | sign)
    · simp [Token.not_isBlank_of_continuesName inside] at blank
    · exact absurd starts (by decide)
    · simp [Token.not_startsName_of_inNumber digit] at starts
    · simp only [isSign, Bool.or_eq_true, beq_iff_eq] at sign
      rcases sign with rfl | rfl
      · exact absurd starts (by decide)
      · exact absurd starts (by decide)
  · simp [IsNumeric]; decide
  · simp [IsNumeric]; decide

/-- Whether no minus sign stands directly before another one. -/
def SingleMinus (text : Text) : Prop :=
  text.IsChain fun first second => ¬ (first = '-' ∧ second = '-')

instance (text : Text) : Decidable (SingleMinus text) :=
  inferInstanceAs (Decidable (List.IsChain _ text))

/-- How the decimals of a cleaned text add up when it is a term for the number. -/
structure Totals (text : Text) (x : ℚ) : Prop where
  nonempty : text ≠ []
  closed : text.getLast? ≠ some '-'
  atMost : (addends text).sum ≤ x
  exact_iff : (addends text).sum = x ↔ SingleMinus text

/-- Cleaning keeps digits, points and signs. -/
theorem cleaned_eq_self {text : Text}
    (inside : ∀ char ∈ text, Token.inNumber char ∨ char = '-' ∨ char = '+') :
    cleaned text = text := by
  have kept : ∀ char ∈ text, Text.isBlank char = false ∧ char ≠ ',' := by
    intro char member
    rcases inside char member with digit | rfl | rfl
    · refine ⟨Token.not_isBlank_of_inNumber digit, ?_⟩
      rintro rfl
      exact absurd digit (by decide)
    · decide
    · decide
  rw [cleaned, List.filter_eq_self.mpr fun char member => by simp [(kept char member).1]]
  exact (List.map_congr_left fun char member => if_neg (kept char member).2).trans (List.map_id _)

variable {σ : Text → ℚ} {text left right digits : Text} {x y : ℚ} {sign : Char}

/-- Cleaning drops the blanks on both sides of a sign. -/
theorem cleaned_joined (signs : isSign sign) :
    cleaned (left ++ [' ', sign, ' '] ++ right) = cleaned left ++ sign :: cleaned right := by
  have shown : Text.isBlank sign = false ∧ sign ≠ ',' := by
    simp only [isSign, Bool.or_eq_true, beq_iff_eq] at signs
    rcases signs with rfl | rfl <;> decide
  have blank : Text.isBlank ' ' = true := by decide
  simp [cleaned, shown, blank]

/-! ### Numbers behind a sign -/

/-- No sign stands in a literal without one. -/
theorem isSign_eq_false_of_isUnsigned (unsigned : Decimal.isUnsigned digits) :
    ∀ char ∈ digits, isSign char = false := by
  intro char member
  have digit := Decimal.inNumber_of_isUnsigned unsigned char member
  refine Bool.eq_false_iff.mpr fun sign => ?_
  simp only [isSign, Bool.or_eq_true, beq_iff_eq] at sign
  rcases sign with rfl | rfl
  · exact absurd digit (by decide)
  · exact absurd digit (by decide)

/-- A literal with at most one sign has one decimal, which is its value. -/
theorem addends_digits (unsigned : Decimal.isUnsigned digits) :
    addends digits = [Decimal.literal ℚ digits] ∧
      addends ('+' :: digits) = [Decimal.literal ℚ digits] ∧
      addends ('-' :: digits) = [-Decimal.literal ℚ digits] := by
  have plain := isSign_eq_false_of_isUnsigned unsigned
  refine ⟨?_, ?_, ?_⟩
  · obtain ⟨char, rest, rfl⟩ := List.exists_cons_of_ne_nil (Decimal.ne_nil_of_isUnsigned unsigned)
    rw [addends, signedPieces_cons fun char member => plain char (by simp [member])]
    simp [Decimal.read?_of_isUnsigned unsigned, Decimal.literal]
  · simp [addends, signedPieces_cons plain, Decimal.read?, Decimal.readUnsigned?, unsigned,
      Decimal.literal]
  · simp [addends, signedPieces_cons plain, Decimal.read?, Decimal.readUnsigned?, unsigned,
      Decimal.value_ofUnsigned_true]

/-- A sign directly in front of another sign adds nothing. -/
theorem addends_cons_cons {first second : Char} (firstSigns : isSign first)
    (secondSigns : isSign second) : addends (first :: second :: text) = addends (second :: text) := by
  have bare : addends [first] = [] := by
    simp only [isSign, Bool.or_eq_true, beq_iff_eq] at firstSigns
    rcases firstSigns with rfl | rfl <;> decide
  simpa [bare] using @addends_append [first] text second (by simp) secondSigns

/-- Minus signs stand apart when the first two characters are not both one and all others stand
apart. -/
theorem singleMinus_cons {first : Char} :
    SingleMinus (first :: text) ↔ ¬ (first = '-' ∧ text.head? = some '-') ∧ SingleMinus text := by
  unfold SingleMinus
  rw [List.isChain_cons]
  cases text <;> simp

/-- No minus sign stands in a literal without one. -/
theorem singleMinus_digits (unsigned : Decimal.isUnsigned digits) : SingleMinus digits := by
  have plain := isSign_eq_false_of_isUnsigned unsigned
  clear unsigned
  induction digits with
  | nil => exact .nil
  | cons char rest ih =>
      obtain ⟨first, others⟩ := List.forall_mem_cons.mp plain
      refine singleMinus_cons.mpr ⟨?_, ih others⟩
      rintro ⟨rfl, -⟩
      cases first

/-- The sum of two terms in a row adds up like their decimals. -/
theorem Totals.append (before : Totals left x) (signs : isSign sign)
    (last : Totals (sign :: right) y) : Totals (left ++ sign :: right) (x + y) where
  nonempty := by simp
  closed := by
    rw [List.getLast?_append_of_ne_nil _ (by simp)]
    exact last.closed
  atMost := by
    rw [addends_append before.nonempty signs, List.sum_append]
    exact add_le_add before.atMost last.atMost
  exact_iff := by
    rw [addends_append before.nonempty signs, List.sum_append,
      add_eq_add_iff_eq_and_eq before.atMost last.atMost, before.exact_iff, last.exact_iff]
    unfold SingleMinus
    rw [List.isChain_append]
    have apart : ∀ char ∈ left.getLast?, ¬ char = '-' := by
      rintro char found rfl
      exact before.closed found
    exact ⟨fun both => ⟨both.1, both.2, fun char found _ _ stacked => apart char found stacked.1⟩,
      fun all => ⟨all.1, all.2.1⟩⟩

/-- A text that has a single decimal adds up to that decimal. -/
theorem Totals.of_singleton (sum : addends text = [x]) (nonempty : text ≠ [])
    (closed : text.getLast? ≠ some '-') (single : SingleMinus text) : Totals text x where
  nonempty := nonempty
  closed := closed
  atMost := by simp [sum]
  exact_iff := by simp [sum, single]

/-- A literal does not end with a minus sign. -/
theorem getLast?_digits (unsigned : Decimal.isUnsigned digits) (before : Text) :
    (before ++ digits).getLast? ≠ some '-' := by
  rw [List.getLast?_append_of_ne_nil _ (Decimal.ne_nil_of_isUnsigned unsigned)]
  intro last
  have plain := isSign_eq_false_of_isUnsigned unsigned '-' (List.mem_of_getLast? last)
  cases plain

theorem head?_digits (unsigned : Decimal.isUnsigned digits) : digits.head? ≠ some '-' := by
  intro first
  have plain := isSign_eq_false_of_isUnsigned unsigned '-' (List.mem_of_head? first)
  cases plain

/-- One minus sign in front of a literal stands alone. -/
theorem singleMinus_cons_digits (first : Char) (unsigned : Decimal.isUnsigned digits) :
    SingleMinus (first :: digits) :=
  singleMinus_cons.mpr
    ⟨fun stacked => head?_digits unsigned stacked.2, singleMinus_digits unsigned⟩

/-- A number, alone or behind a plus sign. -/
theorem SignedLiteral.totals {δ : Dialect} (literal : SignedLiteral δ text x) :
    Totals text x ∧ Totals ('+' :: text) x := by
  have behindPlus {text : Text} (single : SingleMinus text) : SingleMinus ('+' :: text) :=
    singleMinus_cons.mpr ⟨by simp, single⟩
  cases literal with
  | @bare digits unsigned =>
      obtain ⟨alone, behind, -⟩ := addends_digits unsigned
      have single := singleMinus_digits unsigned
      exact ⟨.of_singleton alone (Decimal.ne_nil_of_isUnsigned unsigned)
          (getLast?_digits unsigned []) single,
        .of_singleton behind (by simp) (getLast?_digits unsigned ['+']) (behindPlus single)⟩
  | @minus digits unsigned =>
      obtain ⟨-, -, alone⟩ := addends_digits unsigned
      have single := singleMinus_cons_digits '-' unsigned
      exact ⟨.of_singleton alone (by simp) (getLast?_digits unsigned ['-']) single,
        .of_singleton ((addends_cons_cons rfl rfl).trans alone) (by simp)
          (getLast?_digits unsigned ['+', '-']) (behindPlus single)⟩
  | @plus digits _ unsigned =>
      obtain ⟨-, alone, -⟩ := addends_digits unsigned
      have single := singleMinus_cons_digits '+' unsigned
      exact ⟨.of_singleton alone (by simp) (getLast?_digits unsigned ['+']) single,
        .of_singleton ((addends_cons_cons rfl rfl).trans alone) (by simp)
          (getLast?_digits unsigned ['+', '+']) (behindPlus single)⟩

/-- No literal without a sign is negative. -/
theorem literal_nonneg (digits : Text) : 0 ≤ Decimal.literal ℚ digits := by
  simp only [Decimal.literal, Decimal.value, Decimal.ofUnsigned, Bool.false_eq_true, if_false,
    one_mul]
  positivity

/-- A literal behind a minus sign is subtracted, but a negative number behind one is added. -/
theorem totals_minus (unsigned : Decimal.isUnsigned digits) :
    Totals ('-' :: digits) (-Decimal.literal ℚ digits) ∧
      (Decimal.literal ℚ digits ≠ 0 → Totals ('-' :: '-' :: digits) (Decimal.literal ℚ digits)) := by
  refine ⟨(SignedLiteral.minus (δ := .full) unsigned).totals.1, fun nonzero => ?_⟩
  obtain ⟨-, -, alone⟩ := addends_digits unsigned
  have sum : (addends ('-' :: '-' :: digits)).sum = -Decimal.literal ℚ digits := by
    rw [addends_cons_cons rfl rfl, alone, List.sum_singleton]
  have positive := lt_of_le_of_ne (literal_nonneg digits) nonzero.symm
  refine ⟨by simp, getLast?_digits unsigned ['-', '-'], ?_, ?_⟩
  · rw [sum]
    linarith
  · rw [sum]
    constructor
    · intro same
      linarith
    · intro single
      exact absurd ⟨rfl, rfl⟩ (singleMinus_cons.mp single).1

/-! ### Sums -/

/-- The literals of computed numbers are not zero. -/
theorem literal_ne_zero (admitted : Dialect.numeric.IsLiteral digits) :
    Decimal.literal ℚ digits ≠ 0 := by
  have nonzero : (Decimal.ofUnsigned false digits).coefficient ≠ 0 := admitted.2
  simpa [Decimal.literal, Decimal.value, Decimal.ofUnsigned] using nonzero

/-- No atom has only characters of a numeric value: it is a symbol, or starts with a bracket or a
command. -/
theorem Denotes.not_isNumeric (term : Denotes .numeric σ .atom text x)
    (numeric : ∀ char ∈ text, IsNumeric char) : False := by
  obtain ⟨char, member, marker⟩ := term.exists_marker
  exact not_isNumeric_of_marker marker (numeric char member)

/-- A factor with a numeric value is a literal. -/
theorem Denotes.literal_of_isNumeric (term : Denotes .numeric σ .factor text x)
    (numeric : ∀ char ∈ text, IsNumeric char) :
    Dialect.numeric.IsLiteral text ∧ x = Decimal.literal ℚ text := by
  cases term with
  | ofAtom atom => exact (atom.not_isNumeric numeric).elim
  | number literal => exact ⟨literal, rfl⟩
  | juxtaposed literal atom =>
      exact (atom.not_isNumeric fun char member => numeric char (by simp [member])).elim

/-- A product with a numeric value is a literal, possibly behind a minus sign. -/
theorem Denotes.magnitude_of_isNumeric (term : Denotes .numeric σ .product text x)
    (numeric : ∀ char ∈ text, IsNumeric char) :
    ∃ digits, Dialect.numeric.IsLiteral digits ∧
      (text = digits ∧ x = Decimal.literal ℚ digits ∨
        text = '-' :: digits ∧ x = -Decimal.literal ℚ digits) := by
  cases term with
  | times =>
      exact absurd (numeric '\\' (by simp [Latex.productDot_def]))
        (not_isNumeric_of_marker (.inr (.inr rfl)))
  | ofSigned term =>
      cases term with
      | ofFactor term =>
          obtain ⟨literal, rfl⟩ := term.literal_of_isNumeric numeric
          exact ⟨text, literal, .inl ⟨rfl, rfl⟩⟩
      | @negation rest _ term single =>
          cases term with
          | negation => exact (single.elim id fun apart => apart rfl).elim
          | ofFactor term =>
              obtain ⟨literal, rfl⟩ :=
                term.literal_of_isNumeric fun char member => numeric char (by simp [member])
              exact ⟨rest, literal, .inr ⟨rfl, rfl⟩⟩

/-- A summand with a numeric value is a literal, possibly behind a sign. -/
theorem Denotes.signedLiteral_of_isNumeric (term : Denotes .numeric σ .summand text x)
    (numeric : ∀ char ∈ text, IsNumeric char) : SignedLiteral .numeric text x := by
  cases term with
  | plusSigned plus literal => exact .plus plus literal.1
  | ofProduct term =>
      obtain ⟨digits, literal, ⟨rfl, rfl⟩ | ⟨rfl, rfl⟩⟩ := term.magnitude_of_isNumeric numeric
      · exact .bare literal.1
      · exact .minus literal.1

/-- Cleaning keeps a literal with at most one sign. -/
theorem SignedLiteral.cleaned_eq {δ : Dialect} (literal : SignedLiteral δ text x) :
    cleaned text = text := by
  obtain ⟨decimal, read, -⟩ := literal.exists_read?
  exact cleaned_eq_self (Decimal.inNumber_or_sign_of_read? read)

/-- A term for a number adds up to the number, except for minus signs in a row. -/
theorem Denotes.totals (term : Denotes .numeric σ .sum text x)
    (numeric : ∀ char ∈ text, IsNumeric char) : Totals (cleaned text) x := by
  generalize same : Level.sum = level at term
  induction term with
  | ofSummand term =>
      have literal := term.signedLiteral_of_isNumeric numeric
      rw [literal.cleaned_eq]
      exact literal.totals.1
  | plus first second ih =>
      have before := ih (fun char member => numeric char (by simp [member])) rfl
      have literal := second.signedLiteral_of_isNumeric fun char member =>
        numeric char (by simp [member])
      have joined := before.append rfl literal.totals.2
      rwa [← literal.cleaned_eq, ← cleaned_joined rfl] at joined
  | @minus left right x y first second ih =>
      have before := ih (fun char member => numeric char (by simp [member])) rfl
      obtain ⟨digits, literal, shape⟩ := second.magnitude_of_isNumeric fun char member =>
        numeric char (by simp [member])
      obtain ⟨single, double⟩ := totals_minus literal.1
      have kept : cleaned right = right := by
        rcases shape with ⟨rfl, -⟩ | ⟨rfl, -⟩
        · exact (SignedLiteral.bare (δ := .full) literal.1).cleaned_eq
        · exact (SignedLiteral.minus (δ := .full) literal.1).cleaned_eq
      have last : Totals ('-' :: right) (-y) := by
        rcases shape with ⟨rfl, rfl⟩ | ⟨rfl, rfl⟩
        · exact single
        · rw [neg_neg]
          exact double (literal_ne_zero literal)
      have joined := before.append rfl last
      rwa [← kept, ← cleaned_joined rfl, ← sub_eq_add_neg] at joined
  | _ => cases same

/-- A cell that has a numeric value adds up to what it denotes unless a minus sign stands
directly before another one. -/
theorem Reads.totals (cell : Reads .numeric σ text x) (numeric : ∀ char ∈ text, IsNumeric char) :
    Totals (cleaned text) x := by
  rcases cell with term | ⟨literal, -⟩
  · exact term.totals numeric
  · rw [literal.cleaned_eq]
    exact literal.totals.1

end MatrixFormula.Cell
