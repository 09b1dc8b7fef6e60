import Mathlib.Data.List.Forall2
import MatrixFormula.Proofs.Formula.Splitting

/-!
# Product signs

The asterisk and the three dots write the same product. When some of them are replaced by others,
the words of a formula stay the same but for the text of the signs, which only a fault shows.
-/

namespace MatrixFormula.Formula

variable {store : Store} {char : Char} {text source other : Text}

/-- Whether two characters are the same or both write a product. -/
def SameSign (char other : Char) : Prop :=
  char = other ∨ signWord? char = some .times ∧ signWord? other = some .times

/-- The asterisk in place of every sign of a product. -/
def starred (char : Char) : Char := if signWord? char = some .times then '*' else char

/-- Texts that differ in their product signs only are the same when all of these are asterisks. -/
theorem map_starred_of_sameSign (same : List.Forall₂ SameSign source other) :
    source.map starred = other.map starred := by
  induction same with
  | nil => rfl
  | cons here later ih =>
      rw [List.map_cons, List.map_cons, ih]
      rcases here with rfl | ⟨first, second⟩
      · rfl
      · rw [starred, if_pos first, starred, if_pos second]

/-! ## Words with other signs -/

/-- The signs of a product are the asterisk and the three dots. -/
theorem eq_of_signWord?_times (sign : signWord? char = some .times) :
    char = '*' ∨ char = '·' ∨ char = '⋅' ∨ char = '•' := by
  unfold signWord? at sign
  split at sign <;> cases sign <;> simp

/-- No token goes on with a sign of a product. -/
theorem continuedBy_of_times (sign : signWord? char = some .times) (kind : Token.Kind) :
    kind.continuedBy char = false := by
  rcases eq_of_signWord?_times sign with rfl | rfl | rfl | rfl <;> cases kind <;> rfl

/-- An asterisk continues a token no more than a dot does. -/
theorem continuedBy_starred (kind : Token.Kind) (char : Char) :
    kind.continuedBy (starred char) = kind.continuedBy char := by
  unfold starred
  split
  · next sign => rw [continuedBy_of_times sign, continuedBy_of_times rfl]
  · rfl

/-- No sign of a product continues a token. -/
theorem starred_of_continuedBy {kind : Token.Kind} (continued : kind.continuedBy char) :
    starred char = char :=
  if_neg fun sign => by
    rw [continuedBy_of_times sign] at continued
    cases continued

/-- A sign of a product starts a token of its own. -/
theorem continuedBy_ofHead_starred (char : Char) :
    (Token.Kind.ofHead (starred char)).continuedBy = (Token.Kind.ofHead char).continuedBy := by
  unfold starred
  split
  · next sign => rcases eq_of_signWord?_times sign with rfl | rfl | rfl | rfl <;> rfl
  · rfl

/-- Tokens are as long with asterisks as with dots. -/
theorem takeWhile_starred (kind : Token.Kind) (text : Text) :
    (text.map starred).takeWhile kind.continuedBy =
      (text.takeWhile kind.continuedBy).map starred := by
  rw [List.takeWhile_map, show kind.continuedBy ∘ starred = kind.continuedBy from
    funext (continuedBy_starred kind)]

/-- What stands behind a token is the same with asterisks as with dots. -/
theorem dropWhile_starred (kind : Token.Kind) (text : Text) :
    (text.map starred).dropWhile kind.continuedBy =
      (text.dropWhile kind.continuedBy).map starred := by
  rw [List.dropWhile_map, show kind.continuedBy ∘ starred = kind.continuedBy from
    funext (continuedBy_starred kind)]

/-- The rest of a token has no signs of a product. -/
theorem map_starred_takeWhile (kind : Token.Kind) (text : Text) :
    (text.takeWhile kind.continuedBy).map starred = text.takeWhile kind.continuedBy :=
  have same := List.map_congr_left fun _ member =>
    starred_of_continuedBy (List.mem_takeWhile_imp member)
  same.trans (List.map_id _)

def Exponent.starred : Exponent → Exponent
  | .unsupported found span => .unsupported (found.map Formula.starred) span
  | exponent => exponent

/-- The exponent behind a caret is the same with asterisks as with dots. -/
theorem exponent_starred (text : Text) :
    (exponent 0 (text.map starred)).1.placeless = (exponent 0 text).1.placeless.starred ∧
      (exponent 0 (text.map starred)).2 = (exponent 0 text).2.map starred := by
  have blanks := dropWhile_starred .blank text
  have marks (mark : Char) : isTransposeMark (starred mark) = isTransposeMark mark := by
    unfold starred
    split
    · next sign => rcases eq_of_signWord?_times sign with rfl | rfl | rfl | rfl <;> rfl
    · rfl
  have blank : Token.Kind.blank.continuedBy = Text.isBlank := rfl
  rw [blank] at blanks
  unfold exponent
  rw [blanks]
  cases text.dropWhile Text.isBlank with
  | nil => exact ⟨rfl, rfl⟩
  | cons mark after =>
      simp only [List.map_cons, marks, continuedBy_ofHead_starred, takeWhile_starred]
      split <;> exact ⟨rfl, rfl⟩

/-- A word with asterisks for all signs of a product. -/
def Lexeme.starred (lexeme : Lexeme) : Lexeme :=
  match lexeme.word with
  | .number | .name => lexeme
  | .caret exponent => ⟨.caret exponent.starred, lexeme.text, lexeme.span⟩
  | word => ⟨word, lexeme.text.map Formula.starred, lexeme.span⟩

/-- With asterisks for all signs of a product, the same words are heard. -/
theorem hear_starred (store : Store) (text : Text) :
    hear store (text.map starred) = (hear store text).map Lexeme.starred := by
  induction size : text.length using Nat.strongRecOn generalizing text with
  | ind bound ih =>
      cases text with
      | nil => rw [List.map_nil, hear]; rfl
      | cons char rest =>
          have later (behind : Text) (suffix : behind <:+ rest) :
              hear store (behind.map starred) = (hear store behind).map Lexeme.starred :=
            ih _ (size ▸ Nat.lt_succ_of_le suffix.length_le) behind rfl
          by_cases sign : signWord? char = some .times
          · have heard {char : Char} (sign : signWord? char = some .times) (rest : Text) :
                hear store (char :: rest) = ⟨.times, [char], nowhere⟩ :: hear store rest := by
              rcases eq_of_signWord?_times sign with rfl | rfl | rfl | rfl <;>
                exact hear_single rfl rfl (by rintro ⟨⟩)
            have star : starred char = '*' := if_pos sign
            rw [List.map_cons, star, heard rfl, heard sign, later rest (List.suffix_refl rest)]
            simp [Lexeme.starred, star]
          · have still : starred char = char := if_neg sign
            rw [List.map_cons, still, hear, hear]
            cases kind : Token.Kind.ofHead char with
            | blank =>
                simp only [dropWhile_starred]
                exact later _ (List.dropWhile_suffix _)
            | name =>
                simp only [takeWhile_starred, map_starred_takeWhile, ← List.map_drop]
                rw [later _ (List.drop_suffix _ _)]
                rfl
            | number =>
                simp only [takeWhile_starred, map_starred_takeWhile, dropWhile_starred]
                rw [later _ (List.dropWhile_suffix _)]
                rfl
            | caret =>
                obtain ⟨same, behind⟩ := exponent_starred rest
                simp only [same, behind]
                rw [later _ (suffix_exponent _ _)]
                rfl
            | _ =>
                simp only [takeWhile_starred, dropWhile_starred]
                rw [later _ (List.dropWhile_suffix _)]
                simp [Word.ofKind, Lexeme.starred, still]

/-- What signs look like does not decide what is read. -/
theorem toOption_read_starred (stop : Nat) (stack : List Frame) (operand? : Option Expr)
    (words : List Lexeme) :
    (read stop stack operand? (words.map Lexeme.starred)).toOption =
      (read stop stack operand? words).toOption := by
  induction words generalizing stack operand? with
  | nil => rfl
  | cons lexeme rest ih =>
      obtain ⟨word, text, span⟩ := lexeme
      rw [List.map_cons]
      cases operand? with
      | none =>
          rw [read, read]
          cases word with
          | number | name | minus | openParen => exact ih _ _
          | _ => rfl
      | some operand =>
          rw [read, read]
          cases word with
          | plus | minus | times | slash | number | name | openParen => exact ih _ _
          | closeParen =>
              simp only [Lexeme.starred]
              cases Pending.settle 1 operand stack with
              | mk inner below =>
                  cases below with
                  | nil => rfl
                  | cons frame below =>
                      cases frame with
                      | group opening => exact ih _ _
                      | _ => rfl
          | caret exponent =>
              cases exponent with
              | transpose mark => exact ih _ _
              | _ => rfl
          | stray => rfl

variable {ν : Type} [Numeral ν] {grid : Grid Text}

/-- A formula has the same value with asterisks as with dots. -/
theorem toOption_evaluate_starred (ν : Type) [Numeral ν] (store : Store) (text : Text) :
    (evaluate ν store (text.map starred)).toOption = (evaluate ν store text).toOption := by
  have forget (outcome : Except Diagnostic (Grid Text)) :
      outcome.toOption = (outcome.mapError Diagnostic.fault).toOption := by
    cases outcome <;> rfl
  have settled (result : Except Stop Expr) : (settledValue ν store (outcome result)).toOption =
      result.toOption.bind fun expr => (expr.verdict ν store).toOption := by
    cases result with
    | ok expr =>
        simp only [outcome, settledValue, verdict_placeless]
        rfl
    | error stop =>
        simp only [outcome, settledValue]
        cases discard (List.mapM (Expr.verdict ν store) _) <;> rfl
  rw [forget, forget, evaluate_eq_settledValue, evaluate_eq_settledValue, heard_lexemes,
    heard_lexemes, hear_starred, settled, settled, toOption_read_starred]

/-- A formula keeps its value when signs of a product are replaced by others. -/
theorem evaluate_sameSign (same : List.Forall₂ SameSign source other)
    (done : evaluate ν store source = .ok grid) : evaluate ν store other = .ok grid := by
  have values : (evaluate ν store other).toOption = some grid := by
    rw [← toOption_evaluate_starred, ← map_starred_of_sameSign same, toOption_evaluate_starred, done]
    rfl
  cases result : evaluate ν store other with
  | error diagnostic =>
      rw [result] at values
      cases values
  | ok value =>
      rw [result] at values
      exact congrArg _ (Option.some.inj values)

end MatrixFormula.Formula
