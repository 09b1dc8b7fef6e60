import MatrixFormula.Proofs.Cell.Brackets

/-!
# Joining terms

Terms are joined by writing one behind the other, with an operator between them or with
nothing but the sign of the second one. What the joined text denotes is the result of the
operation on what its parts denote, however many summands or factors the parts have.
-/

namespace MatrixFormula.Cell

variable {K : Type*} [Field K] {δ : Dialect} {σ : Text → K} {level : Level} {text : Text} {x y : K}

/-- The first character of a joined text is that of its first part. -/
theorem Solid.cons_of_append {left right rest : Text} {char : Char} (solid : Solid left)
    (starts : char :: rest = left ++ right) : ∃ more, left = char :: more ∧ rest = more ++ right := by
  rcases List.cons_eq_append_iff.mp starts with ⟨empty, -⟩ | found
  · exact absurd empty solid.nonempty
  · exact found

/-! ## Signs of products -/

/-- Atoms and factors have no sign in front. -/
theorem Denotes.head?_ne_minus (term : Denotes δ σ .factor text x) : text.head? ≠ some '-' := by
  intro starts
  obtain ⟨rest, rfl⟩ : ∃ rest, text = '-' :: rest := by
    cases text <;> simp_all
  have inert := (term.balanced.2 (.inr rfl)).hasOuterSign_eq
  simp [hasOuterSign] at inert

/-- A minus sign in front of a product belongs to its first factor. -/
theorem Denotes.neg_product (term : Denotes δ σ .product text x)
    (single : δ.stacksMinus ∨ text.head? ≠ some '-') :
    Denotes δ σ .product ('-' :: text) (-x) := by
  generalize same : Level.product = level at term
  induction term with
  | ofSigned term => exact .ofSigned (.negation term single)
  | @times left right x y first second ih =>
      obtain ⟨char, rest, rfl⟩ := List.exists_cons_of_ne_nil first.solid.nonempty
      rw [← neg_mul]
      exact .times (ih (by simpa using single) rfl) second
  | _ => cases same

/-- What stands behind the minus sign of a product denotes the opposite of it. -/
theorem Denotes.of_neg_product (term : Denotes δ σ .product ('-' :: text) x) :
    Denotes δ σ .product text (-x) := by
  generalize same : Level.product = level at term
  generalize starts : '-' :: text = whole at term
  induction term generalizing text with
  | ofSigned term =>
      cases term with
      | ofFactor term => exact absurd (by simp [← starts]) term.head?_ne_minus
      | negation term => cases starts; simpa using Denotes.ofSigned term
  | @times left right x y first second ih =>
      obtain ⟨rest, rfl, rfl⟩ := first.solid.cons_of_append (by simpa using starts)
      rw [← neg_mul]
      simpa using Denotes.times (ih rfl rfl) second
  | _ => cases same

/-! ## Products -/

/-- Two products with a dot between them are a product. -/
theorem Denotes.times_product {left right : Text} (first : Denotes δ σ .product left x)
    (second : Denotes δ σ .product right y) :
    Denotes δ σ .product (left ++ Latex.productDot ++ right) (x * y) := by
  generalize same : Level.product = level at second
  induction second with
  | ofSigned second => exact .times first second
  | times _ last ih =>
      rw [← mul_assoc]
      simpa using Denotes.times (ih rfl) last
  | _ => cases same

/-- A product that starts with neither a number nor a sign starts with an atom, and a text
that makes an atom a factor multiplies the product by a number when it stands in front. -/
theorem Denotes.multiply_product {coefficient : Text} {factor : K}
    (multiplies : ∀ {text : Text} {x : K}, Denotes δ σ .atom text x →
      Denotes δ σ .factor (coefficient ++ text) (factor * x))
    (term : Denotes δ σ .product text x) (bare : text.head? ≠ some '-')
    (unlike : startsNumeric text = false) :
    Denotes δ σ .product (coefficient ++ text) (factor * x) := by
  generalize same : Level.product = level at term
  have starts {digits : Text} (literal : δ.IsLiteral digits) (rest : Text) :
      startsNumeric (digits ++ rest) = true := by
    obtain ⟨char, others, rfl⟩ :=
      List.exists_cons_of_ne_nil (Decimal.ne_nil_of_isUnsigned literal.1)
    simpa [startsNumeric, Token.inNumber] using
      Decimal.inNumber_of_isUnsigned literal.1 char (by simp)
  induction term with
  | ofSigned term =>
      cases term with
      | ofFactor term =>
          cases term with
          | ofAtom term => exact .ofSigned (.ofFactor (multiplies term))
          | number literal =>
              have numeric := starts literal []
              rw [List.append_nil, unlike] at numeric
              cases numeric
          | @juxtaposed _ rest _ literal =>
              rw [starts literal rest] at unlike
              cases unlike
      | negation => simp at bare
  | @times left right x y first second ih =>
      obtain ⟨char, rest, rfl⟩ := List.exists_cons_of_ne_nil first.solid.nonempty
      rw [← mul_assoc]
      simpa using Denotes.times (ih (by simpa using bare) (by simpa [startsNumeric] using unlike)
        rfl) second
  | _ => cases same

/-! ## Sums -/

/-- Two sums with a plus sign between them are a sum. -/
theorem Denotes.plus_sum {left right : Text} (first : Denotes δ σ .sum left x)
    (second : Denotes δ σ .sum right y) : Denotes δ σ .sum (left ++ " + " ++ right) (x + y) := by
  generalize same : Level.sum = level at second
  induction second with
  | ofSummand second => exact .plus first second
  | plus _ last ih =>
      rw [← add_assoc]
      simpa using Denotes.plus (ih rfl) last
  | minus _ last ih =>
      rw [← add_sub_assoc]
      simpa using Denotes.minus (ih rfl) last
  | _ => cases same

/-- A sum with a minus sign in front is subtracted when the sign stands between blanks. -/
theorem Denotes.minus_sum {left right : Text} (first : Denotes δ σ .sum left x)
    (second : Denotes δ σ .sum ('-' :: right) y) :
    Denotes δ σ .sum (left ++ " - " ++ right) (x + y) := by
  generalize same : Level.sum = level at second
  generalize starts : '-' :: right = whole at second
  induction second generalizing right with
  | ofSummand second =>
      cases second with
      | ofProduct second =>
          subst starts
          simpa using Denotes.minus first second.of_neg_product
      | plusSigned => simp at starts
  | plus opening closing ih =>
      obtain ⟨rest, rfl, rfl⟩ := opening.solid.cons_of_append (by simpa using starts)
      rw [← add_assoc]
      simpa using Denotes.plus (ih rfl rfl) closing
  | minus opening closing ih =>
      obtain ⟨rest, rfl, rfl⟩ := opening.solid.cons_of_append (by simpa using starts)
      rw [← add_sub_assoc]
      simpa using Denotes.minus (ih rfl rfl) closing
  | _ => cases same

end MatrixFormula.Cell
