import MatrixFormula.Proofs.Decimal.Rational

/-!
# The characters of written doubles

A double is written with digits, a point and a minus sign, or as the name of an infinity or of an
undefined value. No other mark of a formula can stand in it, so what a cell computes neither opens
a bracket nor starts a command.
-/

namespace MatrixFormula

/-- Positional notation has only digits and a point. -/
theorem Double.inNumber_of_mem_positional {multiple : Nat} {power : Int} {char : Char}
    (member : char ∈ positional multiple power) : Token.inNumber char := by
  have digit {char : Char} (inside : char ∈ Text.ofNat multiple) : Token.inNumber char := by
    simp [Token.inNumber, Decimal.isDigit_of_mem_ofNat inside]
  have zero {count : Nat} {char : Char} (inside : char ∈ List.replicate count '0') :
      Token.inNumber char := by
    rw [List.eq_of_mem_replicate inside]
    rfl
  have padded {count : Nat} {char : Char}
      (inside : char ∈ List.replicate count '0' ++ Text.ofNat multiple) : Token.inNumber char :=
    (List.mem_append.mp inside).elim zero digit
  unfold positional at member
  split at member
  · exact (List.mem_append.mp member).elim digit zero
  · rcases List.mem_append.mp member with whole | pointed
    · exact padded (List.mem_of_mem_take whole)
    · rcases List.mem_cons.mp pointed with rfl | fraction
      · rfl
      · exact padded (List.mem_of_mem_drop fraction)

/-- A number that was computed is written without marks of formulas but a minus sign. -/
theorem Numeral.of_mem_write {value : Float} {char : Char} (member : char ∈ write value) :
    Token.inNumber char ∨ char.isAlpha ∨ char = '-' := by
  have sign {negative : Prop} [Decidable negative]
      (inside : char ∈ (if negative then [] else ['-'] : Text)) : char = '-' := by
    split at inside
    · cases inside
    · exact List.mem_singleton.mp inside
  have named {name : Text} (letters : name.all Char.isAlpha) (inside : char ∈ name) :
      char.isAlpha := List.all_eq_true.mp letters char inside
  have digit (inside : char ∈ ['0']) : Token.inNumber char := List.mem_singleton.mp inside ▸ rfl
  change char ∈ if value == 0 then ['0'] else Double.text value at member
  split at member
  · exact .inl (digit member)
  · simp only [Double.text] at member
    split at member
    · exact (List.mem_append.mp member).elim (.inr ∘ .inr ∘ sign) (.inl ∘ digit)
    · split at member
      · exact (List.mem_append.mp member).elim (.inr ∘ .inr ∘ sign)
          (.inl ∘ Double.inNumber_of_mem_positional)
      · split at member
        · exact (List.mem_append.mp member).elim (.inr ∘ .inr ∘ sign)
            (.inr ∘ .inl ∘ named rfl)
        · exact .inr (.inl (named rfl member))

end MatrixFormula
