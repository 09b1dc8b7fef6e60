import MatrixFormula.Cell.Arithmetic
import MatrixFormula.Proofs.Cell.Joining

/-!
# Cell arithmetic on terms

Every operation on cells turns terms into a term, and the term denotes the result of the
operation. Numbers that are zero count as terms of every dialect while they stand alone:
arithmetic drops them from sums and products and never writes them as an operand.
-/

namespace MatrixFormula.Cell

variable {K : Type*} [Field K]

/-- A literal, possibly behind one sign, and the number that it writes. -/
inductive SignedLiteral (δ : Dialect) : Text → K → Prop where
  | bare {digits : Text} (unsigned : Decimal.isUnsigned digits) :
      SignedLiteral δ digits (Decimal.literal K digits)
  | minus {digits : Text} (unsigned : Decimal.isUnsigned digits) :
      SignedLiteral δ ('-' :: digits) (-Decimal.literal K digits)
  | plus {digits : Text} (allowed : δ.allowsPlus) (unsigned : Decimal.isUnsigned digits) :
      SignedLiteral δ ('+' :: digits) (Decimal.literal K digits)

/-- The cell is a term that denotes the number, or a literal that is zero. -/
def Reads (δ : Dialect) (σ : Text → K) (cell : Text) (x : K) : Prop :=
  Denotes δ σ .sum cell x ∨ SignedLiteral δ cell x ∧ x = 0

variable {δ : Dialect} {σ : Text → K} {level : Level} {text left right : Text} {x y : K}

/-! ## Numbers among the terms -/

/-- A literal is read as the decimal that it writes. -/
theorem SignedLiteral.exists_read? (literal : SignedLiteral δ text x) :
    ∃ decimal, Decimal.read? text = some decimal ∧ decimal.value K = x := by
  cases literal with
  | bare unsigned => exact ⟨_, Decimal.read?_of_isUnsigned unsigned, rfl⟩
  | minus unsigned =>
      exact ⟨_, by simp [Decimal.read?, Decimal.readUnsigned?, unsigned],
        Decimal.value_ofUnsigned_true K _⟩
  | plus _ unsigned =>
      exact ⟨_, by simp [Decimal.read?, Decimal.readUnsigned?, unsigned], rfl⟩

/-- A literal has no blanks. -/
theorem SignedLiteral.solid (literal : SignedLiteral δ text x) : Solid text := by
  have behind {digits : Text} (unsigned : Decimal.isUnsigned digits) {sign : Char}
      (shown : Text.isBlank sign = false) : Solid (sign :: digits) := by
    refine .of_forall (by simp) fun char member => ?_
    rcases List.mem_cons.mp member with rfl | later
    · exact shown
    · exact Token.not_isBlank_of_inNumber (Decimal.inNumber_of_isUnsigned unsigned char later)
  cases literal with
  | bare unsigned => exact .of_isUnsigned unsigned
  | minus unsigned | plus _ unsigned => exact behind unsigned rfl

/-- All literals but zeros occur in every dialect. -/
theorem Dialect.isLiteral_of_ne_zero {digits : Text} (unsigned : Decimal.isUnsigned digits)
    (nonzero : Decimal.literal K digits ≠ 0) : δ.IsLiteral digits :=
  ⟨unsigned, δ.admits_of_ne_zero digits (Decimal.coefficient_ne_zero_of_literal K nonzero)⟩

/-- Numbers other than zero are terms. -/
theorem SignedLiteral.denotes (literal : SignedLiteral δ text x) (nonzero : x ≠ 0) :
    Denotes δ σ .summand text x := by
  cases literal with
  | bare unsigned =>
      exact .ofProduct (.ofSigned (.ofFactor (.number (Dialect.isLiteral_of_ne_zero unsigned nonzero))))
  | minus unsigned =>
      have number : Denotes δ σ .factor _ _ :=
        .number (Dialect.isLiteral_of_ne_zero unsigned (neg_ne_zero.mp nonzero))
      exact .ofProduct (.ofSigned (.negation (.ofFactor number) (.inr number.head?_ne_minus)))
  | plus allowed unsigned =>
      exact .plusSigned allowed (Dialect.isLiteral_of_ne_zero unsigned nonzero)

/-- A literal is a term for its number, whether it is zero or not. -/
theorem SignedLiteral.reads (literal : SignedLiteral δ text x) : Reads δ σ text x := by
  by_cases zero : x = 0
  · exact .inr ⟨literal, zero⟩
  · exact .inl (.ofSummand (literal.denotes zero))

/-- An atom has a letter or starts a bracket or a command. -/
theorem Denotes.exists_marker (term : Denotes δ σ .atom text x) :
    ∃ char ∈ text, Token.startsName char ∨ char = '(' ∨ char = '\\' := by
  cases term with
  | symbol valid =>
      obtain ⟨char, rest, rfl, starts | backslash⟩ := head?_of_isSymbol valid
      · exact ⟨char, by simp, .inl starts⟩
      · exact ⟨char, by simp, .inr (.inr backslash)⟩
  | group | plusTimes => exact ⟨'(', by simp, by decide⟩
  | fraction => exact ⟨'\\', by simp [Latex.fraction_def], by decide⟩

/-- An atom has a character that no decimal has. -/
theorem Denotes.exists_not_inNumber (term : Denotes δ σ .atom text x) :
    ∃ char ∈ text, ¬ (Token.inNumber char ∨ char = '-' ∨ char = '+') := by
  obtain ⟨char, member, marker⟩ := term.exists_marker
  refine ⟨char, member, ?_⟩
  rintro (digit | rfl | rfl)
  · rcases marker with starts | rfl | rfl
    · simp [Token.not_startsName_of_inNumber digit] at starts
    · exact absurd digit (by decide)
    · exact absurd digit (by decide)
  · exact absurd marker (by decide)
  · exact absurd marker (by decide)

/-- The digit zero is a term for zero. -/
theorem reads_zero : Reads δ σ ['0'] (0 : K) := by
  have literal : SignedLiteral δ ['0'] (Decimal.literal K ['0']) := .bare (by decide)
  have zero : Decimal.literal K ['0'] = 0 := by
    simp [Decimal.literal, Decimal.value, Decimal.ofUnsigned, Text.digitsValue,
      Decimal.wholeDigits, Decimal.fractionDigits]
  rw [zero] at literal
  exact literal.reads

/-- A term that can be read as a decimal is a signed literal. -/
theorem Denotes.signedLiteral (term : Denotes δ σ level text x) {decimal : Decimal}
    (read : Decimal.read? text = some decimal) : SignedLiteral δ text x := by
  induction term generalizing decimal with
  | symbol valid =>
      have atom : Denotes δ σ .atom _ _ := .symbol valid
      obtain ⟨char, member, strange⟩ := atom.exists_not_inNumber
      exact absurd (Decimal.inNumber_or_sign_of_read? read char member) strange
  | group | plusTimes =>
      exact absurd (Decimal.inNumber_or_sign_of_read? read '(' (by simp)) (by decide)
  | fraction =>
      exact absurd (Decimal.inNumber_or_sign_of_read? read '\\' (by simp [Latex.fraction_def]))
        (by decide)
  | number literal => exact .bare literal.1
  | juxtaposed literal term =>
      obtain ⟨char, member, strange⟩ := term.exists_not_inNumber
      exact absurd (Decimal.inNumber_or_sign_of_read? read char (by simp [member])) strange
  | ofAtom _ ih | ofFactor _ ih | ofSigned _ ih | ofProduct _ ih | ofSummand _ ih => exact ih read
  | negation term _ ih =>
      obtain ⟨unsigned, -⟩ := Decimal.isUnsigned_of_readUnsigned? read
      cases ih (Decimal.read?_of_isUnsigned unsigned) with
      | bare unsigned => exact .minus unsigned
      | minus => exact absurd (Decimal.inNumber_of_isUnsigned unsigned '-' (by simp)) (by decide)
      | plus => exact absurd (Decimal.inNumber_of_isUnsigned unsigned '+' (by simp)) (by decide)
  | plusSigned plus literal => exact .plus plus literal.1
  | times | plus | minus =>
      exact absurd (Decimal.inNumber_or_sign_of_read? read ' ' (by simp [Latex.productDot_def]))
        (by decide)

/-- A term that is read as a decimal is a literal. -/
theorem Reads.signedLiteral (reads : Reads δ σ text x) {decimal : Decimal}
    (read : Decimal.read? text = some decimal) : SignedLiteral δ text x := by
  rcases reads with term | ⟨literal, -⟩
  · exact term.signedLiteral read
  · exact literal

/-- A term is solid. -/
theorem Reads.solid (reads : Reads δ σ text x) : Solid text := by
  rcases reads with term | ⟨literal, -⟩
  · exact term.solid
  · exact literal.solid

/-- There is nothing to trim at a term. -/
theorem Reads.trimmed (reads : Reads δ σ text x) : Reads δ σ (Text.trim text) x := by
  rwa [reads.solid.trim_eq]

/-- A written number is a term, or a literal that is zero. -/
theorem reads_of_writes (written : Decimal.Writes text x) : Reads δ σ text x := by
  have signed (nonzero : x ≠ 0) : Denotes δ σ .signed text x := by
    induction written with
    | literal unsigned =>
        exact .ofFactor (.number (Dialect.isLiteral_of_ne_zero unsigned nonzero))
    | fraction aboveUnsigned belowUnsigned aboveNonzero belowNonzero =>
        have part {digits : Text} (unsigned : Decimal.isUnsigned digits)
            (nonzero : Decimal.literal K digits ≠ 0) :
            Denotes δ σ .sum digits (Decimal.literal K digits) :=
          .ofSummand ((SignedLiteral.bare unsigned).denotes nonzero)
        exact .ofFactor (.ofAtom (.fraction (part aboveUnsigned aboveNonzero)
          (part belowUnsigned belowNonzero)))
    | negative magnitude apart bare ih => exact .negation (ih apart) (.inr bare)
  by_cases zero : x = 0
  · cases written with
    | literal unsigned => exact (SignedLiteral.bare unsigned).reads
    | fraction _ _ aboveNonzero belowNonzero =>
        exact absurd zero (div_ne_zero aboveNonzero belowNonzero)
    | negative _ apart => exact absurd zero (neg_ne_zero.mpr apart)
  · exact .inl (.ofSummand (.ofProduct (.ofSigned (signed zero))))

/-! ## Juxtaposed factors -/

/-- A literal is a sum only behind a plus sign. -/
theorem isSum_digits {digits : Text} (unsigned : Decimal.isUnsigned digits) :
    isSum digits = false ∧ isSum ('-' :: digits) = false ∧ isSum ('+' :: digits) = true := by
  have inert := Inert.of_isUnsigned unsigned
  refine ⟨?_, inert.hasOuterSign_eq, by simp [isSum, hasOuterSign]⟩
  rw [isSum_eq, inert.withoutMinus_eq, inert.hasOuterSign_eq]

/-- A number written directly in front of a product multiplies it. -/
theorem SignedLiteral.multiply_product (literal : SignedLiteral δ left x) (nonzero : x ≠ 0)
    (term : Denotes δ σ .product right y) (bare : right.head? ≠ some '-')
    (unlike : startsNumeric right = false) :
    Denotes δ σ .product (grouped left ++ right) (x * y) := by
  cases literal with
  | bare unsigned =>
      have admitted : δ.IsLiteral _ := Dialect.isLiteral_of_ne_zero unsigned nonzero
      simpa [grouped, isSum_digits unsigned] using
        term.multiply_product (.juxtaposed admitted) bare unlike
  | @minus digits unsigned =>
      have admitted : δ.IsLiteral _ :=
        Dialect.isLiteral_of_ne_zero unsigned (neg_ne_zero.mp nonzero)
      have magnitude := term.multiply_product (.juxtaposed admitted) bare unlike
      have head : (digits ++ right).head? ≠ some '-' := by
        have number : Denotes δ σ .factor _ _ := .number admitted
        obtain ⟨char, rest, rfl⟩ := List.exists_cons_of_ne_nil number.solid.nonempty
        exact number.head?_ne_minus
      simpa [grouped, isSum_digits unsigned] using magnitude.neg_product (.inr head)
  | @plus digits allowed unsigned =>
      have admitted : δ.IsLiteral digits := Dialect.isLiteral_of_ne_zero unsigned nonzero
      rw [grouped, if_pos (isSum_digits unsigned).2.2]
      refine term.multiply_product (fun atom => ?_) bare unlike
      simpa using Denotes.ofAtom (.plusTimes allowed admitted atom)

/-- A factor in parentheses if it is a sum starts with a minus sign only if it is a number
or a factor with a sign. -/
theorem Denotes.head?_grouped (term : Denotes δ σ .sum text x)
    (other : Decimal.isDecimal text = false) (unsigned : signedFactor? text = none) :
    (Cell.grouped text).head? ≠ some '-' := by
  unfold Cell.grouped
  split
  · simp
  · next single =>
      intro starts
      obtain ⟨rest, rfl⟩ : ∃ rest, text = '-' :: rest := by
        cases text <;> simp_all
      have product := term.product_of_isSum_eq_false (by simpa using single)
      simp [signedFactor?, other, single, product.of_neg_product.solid.nonempty] at unsigned

/-- Two factors without a sign in front, written as a product. -/
theorem Denotes.juxtapose (first : Denotes δ σ .sum left x) (second : Denotes δ σ .sum right y)
    (leftUnsigned : signedFactor? left = none) (rightUnsigned : signedFactor? right = none)
    (leftNonzero : SignedLiteral δ left x → x ≠ 0) (rightNonzero : SignedLiteral δ right y → y ≠ 0) :
    Denotes δ σ .product (juxtapose left right) (x * y) := by
  have dotted := first.grouped.times_product second.grouped
  have literal {text : Text} {x : K} (term : Denotes δ σ .sum text x)
      (number : Decimal.isDecimal text = true) : SignedLiteral δ text x := by
    obtain ⟨decimal, read⟩ := Option.isSome_iff_exists.mp number
    exact term.signedLiteral read
  unfold Cell.juxtapose
  split
  · next number other =>
      split
      · exact dotted
      · next unlike =>
          have coefficient := literal first number
          exact coefficient.multiply_product (leftNonzero coefficient) second.grouped
            (second.head?_grouped other rightUnsigned) (by simpa using unlike)
  · next other number =>
      split
      · exact dotted
      · next unlike =>
          have coefficient := literal second number
          rw [mul_comm]
          exact coefficient.multiply_product (rightNonzero coefficient) first.grouped
            (first.head?_grouped other leftUnsigned) (by simpa using unlike)
  · exact dotted

/-! ## Comparing with zero and one -/

section Exact

variable {ν : Type} [Numeral ν] {safe : K → Prop} {stands : ν → K → Prop}
  (faithful : Numeral.Exact ν safe stands)

include faithful

/-- The number that is read from a cell stands for what the cell denotes. -/
theorem Reads.stands_of_read (reads : Reads δ σ text x) (safely : safe x) {value : ν}
    (read : Numeral.read? ν text = some value) : stands value x := by
  obtain ⟨decimal, found, rfl⟩ := Option.map_eq_some_iff.mp read
  obtain ⟨other, same, rfl⟩ := (reads.signedLiteral found).exists_read?
  cases found.symm.trans same
  exact faithful.ofDecimal decimal safely

/-- A term that passes for zero denotes zero. -/
theorem Reads.eq_zero (reads : Reads δ σ text x) (safely : safe x)
    (zero : isZero ν text = true) : x = 0 := by
  rw [isZero, reads.solid.trim_eq, Option.any_eq_true] at zero
  obtain ⟨value, read, equal⟩ := zero
  exact (faithful.beq_zero (reads.stands_of_read faithful safely read)).mp equal

/-- A term that passes for one denotes one. -/
theorem Reads.eq_one (reads : Reads δ σ text x) (safely : safe x)
    (one : isOne ν text = true) : x = 1 := by
  rw [isOne, reads.solid.trim_eq, Option.any_eq_true] at one
  obtain ⟨value, read, equal⟩ := one
  exact (faithful.beq_one (reads.stands_of_read faithful safely read)).mp equal

/-- A number that is not found to be zero is none. -/
theorem SignedLiteral.ne_zero (literal : SignedLiteral δ text x) (safely : safe x)
    (nonzero : isZero ν text = false) : x ≠ 0 := by
  rintro rfl
  obtain ⟨decimal, read, value⟩ := literal.exists_read?
  have found : Numeral.read? ν text = some (Numeral.ofDecimal decimal) := by
    simp [Numeral.read?, read]
  have here : stands (Numeral.ofDecimal decimal) 0 :=
    value ▸ faithful.ofDecimal decimal (value ▸ safely)
  have equal := (faithful.beq_zero here).mpr rfl
  simp [isZero, literal.solid.trim_eq, found, equal] at nonzero

/-- A cell that is not found to be zero is a term. -/
theorem Reads.denotes (reads : Reads δ σ text x) (nonzero : isZero ν text = false) :
    Denotes δ σ .sum text x := by
  rcases reads with term | ⟨literal, rfl⟩
  · exact term
  · exact absurd rfl (literal.ne_zero faithful faithful.safe_zero nonzero)

/-! ## Operations on two cells -/

/-- The opposite of a cell. -/
theorem Reads.neg (cell : Reads δ σ text x) (safely : safe x) :
    Reads δ σ (Cell.neg ν text) (-x) := by
  unfold Cell.neg
  simp only [cell.solid.trim_eq]
  split
  · next zero =>
      rw [cell.eq_zero faithful safely zero, neg_zero]
      exact reads_zero
  · next nonzero =>
      have term := cell.denotes faithful (by simpa using nonzero)
      split
      · next value read =>
          have value := faithful.neg (cell.stands_of_read faithful safely read)
          exact reads_of_writes (faithful.write value (faithful.safe_neg safely))
      · split
        · next inner negated => exact .inl (term.of_negatedSum? negated)
        · split
          · exact .inl (.ofSummand (.ofProduct (.ofSigned (.negation
              (.ofFactor (.ofAtom (.group term))) (.inr (by simp))))))
          · next single =>
              have product := term.product_of_isSum_eq_false (by simpa using single)
              split
              · exact .inl (.ofSummand (.ofProduct product.of_neg_product))
              · next bare =>
                  have head : text.head? ≠ some '-' := by
                    cases text <;> simp_all
                  exact .inl (.ofSummand (.ofProduct (product.neg_product (.inr head))))

/-- The sum of two cells. -/
theorem Reads.add (first : Reads δ σ left x) (second : Reads δ σ right y) (leftSafe : safe x)
    (rightSafe : safe y) (safely : safe (x + y)) : Reads δ σ (Cell.add ν left right) (x + y) := by
  unfold Cell.add
  simp only [first.solid.trim_eq, second.solid.trim_eq]
  split
  · next zero => simpa [second.eq_zero faithful rightSafe zero] using first
  · next rightNonzero =>
      split
      · next zero => simpa [first.eq_zero faithful leftSafe zero] using second
      · next leftNonzero =>
          split
          · next leftRead rightRead =>
              have value := faithful.add (first.stands_of_read faithful leftSafe leftRead)
                (second.stands_of_read faithful rightSafe rightRead) safely
              exact reads_of_writes (faithful.write value safely)
          · exact .inl ((first.denotes faithful (by simpa using leftNonzero)).plus_sum
              (second.denotes faithful (by simpa using rightNonzero)))

/-- The difference of two cells. -/
theorem Reads.sub (first : Reads δ σ left x) (second : Reads δ σ right y) (leftSafe : safe x)
    (rightSafe : safe y) (safely : safe (x - y)) : Reads δ σ (Cell.sub ν left right) (x - y) := by
  unfold Cell.sub
  simp only [first.solid.trim_eq, second.solid.trim_eq]
  split
  · next zero => simpa [second.eq_zero faithful rightSafe zero] using first
  · next rightNonzero =>
      split
      · next zero =>
          simpa [first.eq_zero faithful leftSafe zero] using second.neg faithful rightSafe
      · next leftNonzero =>
          split
          · next leftRead rightRead =>
              have value := faithful.sub (first.stands_of_read faithful leftSafe leftRead)
                (second.stands_of_read faithful rightSafe rightRead) safely
              exact reads_of_writes (faithful.write value safely)
          · exact .inl (.minus (first.denotes faithful (by simpa using leftNonzero))
              (second.denotes faithful (by simpa using rightNonzero)).grouped)

/-- The quotient of two cells, of which the second is not found to be zero. -/
theorem Reads.div (first : Reads δ σ left x) (second : Reads δ σ right y) (leftSafe : safe x)
    (rightSafe : safe y) (safely : safe (x / y)) (nonzero : isZero ν right = false) :
    Reads δ σ (Cell.div ν left right) (x / y) := by
  have divisor := second.denotes faithful nonzero
  unfold Cell.div
  simp only [first.solid.trim_eq, second.solid.trim_eq]
  split
  · next leftRead rightRead =>
      obtain ⟨decimal, found, -⟩ := Option.map_eq_some_iff.mp rightRead
      have apart := (divisor.signedLiteral found).ne_zero faithful rightSafe nonzero
      have value := faithful.div (first.stands_of_read faithful leftSafe leftRead)
        (second.stands_of_read faithful rightSafe rightRead) apart safely
      exact reads_of_writes (faithful.write value safely)
  · split
    · next zero =>
        rw [first.eq_zero faithful leftSafe zero, zero_div]
        exact reads_zero
    · next leftNonzero =>
        split
        · next one => simpa [second.eq_one faithful rightSafe one] using first
        · exact .inl (.ofSummand (.ofProduct (.ofSigned (.ofFactor (.ofAtom (.fraction
            (first.denotes faithful (by simpa using leftNonzero)) divisor))))))

omit faithful in
/-- What follows the minus sign of a factor denotes the opposite of the factor. -/
theorem Denotes.of_signedFactor? (term : Denotes δ σ .sum text x) {rest : Text}
    (signed : signedFactor? text = some rest) : Denotes δ σ .sum rest (-x) := by
  unfold signedFactor? at signed
  split at signed
  · split at signed
    · next factor =>
        cases signed
        have product := term.product_of_isSum_eq_false (by simpa using factor.2.2)
        exact .ofSummand (.ofProduct product.of_neg_product)
    · cases signed
  · cases signed

/-- The product of two cells. Signs move to the front of it one by one. -/
theorem Reads.mul (first : Reads δ σ left x) (second : Reads δ σ right y) (leftSafe : safe x)
    (rightSafe : safe y) (safely : safe (x * y)) : Reads δ σ (Cell.mul ν left right) (x * y) := by
  fun_induction Cell.mul ν left right generalizing x y
  case case1 absorbed =>
    have zero : x * y = 0 := by
      rcases (Bool.or_eq_true ..).mp absorbed with zero | zero
      · rw [first.trimmed.eq_zero faithful leftSafe zero, zero_mul]
      · rw [second.trimmed.eq_zero faithful rightSafe zero, mul_zero]
    rw [zero]
    exact reads_zero
  case case2 one =>
    rw [first.trimmed.eq_one faithful leftSafe one, one_mul]
    exact second.trimmed
  case case3 one =>
    rw [second.trimmed.eq_one faithful rightSafe one, mul_one]
    exact first.trimmed
  case case4 rightRead leftRead =>
    have value := faithful.mul (first.trimmed.stands_of_read faithful leftSafe leftRead)
      (second.trimmed.stands_of_read faithful rightSafe rightRead) safely
    exact reads_of_writes (faithful.write value safely)
  case case5 opposite _ =>
    obtain ⟨value, read, equal⟩ := (Option.any_eq_true ..).mp opposite
    have value := first.trimmed.stands_of_read faithful leftSafe read
    rw [(faithful.beq_neg_one value).mp equal, neg_one_mul]
    exact second.trimmed.neg faithful rightSafe
  case case6 opposite _ =>
    obtain ⟨value, read, equal⟩ := (Option.any_eq_true ..).mp opposite
    have value := second.trimmed.stands_of_read faithful rightSafe read
    rw [(faithful.beq_neg_one value).mp equal, mul_neg_one]
    exact first.trimmed.neg faithful leftSafe
  case case7 nonzero _ _ rest signed _ _ _ ih =>
    have term := first.trimmed.denotes faithful (Bool.or_eq_false_iff.mp (by simpa using nonzero)).1
    have product := ih (.inl (term.of_signedFactor? signed)) second.trimmed
      (faithful.safe_neg leftSafe) rightSafe (by simpa using faithful.safe_neg safely)
    simpa using product.neg faithful (by simpa using faithful.safe_neg safely)
  case case8 nonzero _ _ _ rest signed _ _ _ ih =>
    have term := second.trimmed.denotes faithful
      (Bool.or_eq_false_iff.mp (by simpa using nonzero)).2
    have product := ih first.trimmed (.inl (term.of_signedFactor? signed)) leftSafe
      (faithful.safe_neg rightSafe) (by simpa using faithful.safe_neg safely)
    simpa using product.neg faithful (by simpa using faithful.safe_neg safely)
  case case9 nonzero _ _ leftUnsigned rightUnsigned _ _ _ =>
    obtain ⟨leftNonzero, rightNonzero⟩ := Bool.or_eq_false_iff.mp (by simpa using nonzero)
    have product := (first.trimmed.denotes faithful leftNonzero).juxtapose
      (second.trimmed.denotes faithful rightNonzero) leftUnsigned rightUnsigned
      (fun literal => literal.ne_zero faithful leftSafe leftNonzero)
      (fun literal => literal.ne_zero faithful rightSafe rightNonzero)
    exact .inl (.ofSummand (.ofProduct product))

/-! ## Sums of products -/

/-- A sum that products have been added to: nothing yet, or a term. -/
def Sums (δ : Dialect) (σ : Text → K) (sum : Text) (x : K) : Prop :=
  sum = [] ∧ x = 0 ∨ Denotes δ σ .sum sum x

/-- One more product at the end of a sum. -/
theorem Sums.addProduct {sum product : Text} (sums : Sums δ σ sum x) (last : Reads δ σ product y)
    (safely : safe y) : Sums δ σ (Cell.addProduct ν sum product) (x + y) := by
  unfold Cell.addProduct
  split
  · next zero => simpa [last.eq_zero faithful safely zero] using sums
  · next nonzero =>
      have term := last.denotes faithful (by simpa using nonzero)
      rcases sums with ⟨rfl, rfl⟩ | before
      · simpa using .inr term
      · rw [if_neg before.solid.nonempty]
        split
        · exact .inr (before.minus_sum term)
        · exact .inr (before.plus_sum term)

/-- The sum of products denotes the sum of what they denote. -/
theorem Reads.sumProducts {ι : Type} (products : ι → Text) (values : ι → K) (indices : List ι)
    (each : ∀ index ∈ indices, Reads δ σ (products index) (values index))
    (safely : ∀ index ∈ indices, safe (values index)) :
    Reads δ σ (Cell.sumProducts ν (indices.map products)) (indices.map values).sum := by
  have run (sum : Text) (x : K) (sums : Sums δ σ sum x) :
      Sums δ σ ((indices.map products).foldl (Cell.addProduct ν) sum)
        (x + (indices.map values).sum) := by
    induction indices generalizing sum x with
    | nil => simpa using sums
    | cons index rest ih =>
        have next := sums.addProduct faithful (each index (by simp)) (safely index (by simp))
        have later := ih (fun other member => each other (by simp [member]))
          (fun other member => safely other (by simp [member])) _ _ next
        simpa [add_assoc] using later
  have total := run [] 0 (.inl ⟨rfl, rfl⟩)
  rw [zero_add] at total
  unfold Cell.sumProducts
  rcases total with ⟨empty, zero⟩ | term
  · simpa [empty, zero] using reads_zero
  · simpa [term.solid.nonempty] using .inl term

end Exact

end MatrixFormula.Cell
