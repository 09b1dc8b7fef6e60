import MatrixFormula.Proofs.Decimal.Rational
import MatrixFormula.Proofs.Formula.Acceptance
import MatrixFormula.Proofs.Formula.Grammar
import MatrixFormula.Proofs.Formula.Spelling

/-!
# Evaluation follows the grammar

A text spells an expression when it spells words that the grammar derives the expression from.
Every spelling of an expression evaluates to the value of the expression, or to the fault of
the first node that has one, and every text that evaluates to a grid spells an expression with
that value.
-/

namespace MatrixFormula.Formula

/-- The text spells the expression. -/
def Spells (store : Store) (source : Text) (expr : Expr) : Prop :=
  ∃ words, Spelled store 0 source words ∧ Derives 1 words expr

theorem Word.isRegular_of_operator? {word : Word} {operator : Operator}
    (sign : word.operator? = some operator) : word.isRegular := by
  cases word <;> first | rfl | cases sign

/-- All words that an expression is derived from have a meaning. -/
theorem Derives.isRegular {rank : Nat} {words : List Lexeme} {expr : Expr}
    (derives : Derives rank words expr) : ∀ lexeme ∈ words, lexeme.word.isRegular := by
  induction derives with
  | number word | name word => simp [word, Word.isRegular]
  | group opens _ closes ih =>
      simp only [List.cons_append, List.mem_cons, List.mem_append, List.not_mem_nil, or_false]
      rintro lexeme (rfl | inside | rfl)
      · simp [opens, Word.isRegular]
      · exact ih lexeme inside
      · simp [closes, Word.isRegular]
  | transpose _ mark ih =>
      simp only [List.mem_append, List.mem_singleton]
      rintro lexeme (inside | rfl)
      · exact ih lexeme inside
      · simp [mark, Word.isRegular]
  | negation sign _ ih =>
      refine List.forall_mem_cons.mpr ⟨?_, ih⟩
      simp [sign, Word.isRegular]
  | binary _ sign _ first second =>
      simp only [List.mem_append, List.mem_cons]
      rintro lexeme (inside | rfl | inside)
      · exact first lexeme inside
      · exact Word.isRegular_of_operator? sign
      · exact second lexeme inside
  | juxtaposed _ _ first second => exact List.forall_mem_append.mpr ⟨first, second⟩
  | loosen _ ih => exact ih

/-- A formula is read to an expression exactly when it spells the expression. -/
theorem parse_eq_ok_iff {store : Store} (keyed : Keyed store) {source : Text} {expr : Expr} :
    parse store source = .ok expr ↔ Spells store source expr := by
  rw [parse, read_eq_ok_iff]
  constructor
  · intro derives
    exact ⟨_, spelled_lexemes keyed source 0 derives.isRegular, derives⟩
  · rintro ⟨words, spelled, derives⟩
    rwa [spelled.lexemes_eq keyed]

/-! ## The first fault -/

/-- All nodes of an expression, operands first and from left to right. -/
def Expr.postorder : Expr → List Expr
  | .number lexeme span => [.number lexeme span]
  | .name text span => [.name text span]
  | .negation start operand => operand.postorder ++ [.negation start operand]
  | .transpose operand stop => operand.postorder ++ [.transpose operand stop]
  | .group span inner => inner.postorder ++ [.group span inner]
  | .binary operator sign? left right =>
      left.postorder ++ right.postorder ++ [.binary operator sign? left right]

/-- The fault of an outcome that is none. -/
def fault? {α : Type} : Except Diagnostic α → Option Diagnostic
  | .ok _ => none
  | .error diagnostic => some diagnostic

variable (ν : Type) [Numeral ν]

/-- An expression has the fault of its first node that has one. -/
theorem fault?_value (store : Store) (expr : Expr) :
    fault? (expr.value ν store) =
      expr.postorder.findSome? fun node => fault? (node.value ν store) := by
  induction expr with
  | number | name => simp [Expr.postorder]
  | negation _ operand ih | transpose operand _ ih | group _ operand ih =>
      rw [Expr.postorder, List.findSome?_append, ← ih]
      simp only [List.findSome?_singleton, Expr.value]
      cases operand.value ν store <;> rfl
  | binary operator sign? left right first second =>
      rw [Expr.postorder, List.findSome?_append, List.findSome?_append, ← first, ← second]
      simp only [List.findSome?_singleton, Expr.value]
      cases left.value ν store with
      | error => rfl
      | ok => cases right.value ν store <;> rfl

/-- Every spelling of an expression has the value of the expression, and the fault of its first
node that has one. Every text with a value spells an expression with that value. -/
theorem evaluate_follows_grammar (store : Store) (keyed : Keyed store) :
    (∀ source expr, Spells store source expr →
      evaluate ν store source = expr.value ν store ∧
        fault? (evaluate ν store source) =
          expr.postorder.findSome? fun node => fault? (node.value ν store)) ∧
    (∀ source grid, evaluate ν store source = .ok grid →
      ∃ expr, Spells store source expr ∧ expr.value ν store = .ok grid) := by
  constructor
  · intro source expr spells
    have read : evaluate ν store source = expr.value ν store := by
      rw [evaluate, (parse_eq_ok_iff keyed).mpr spells]
    exact ⟨read, read ▸ fault?_value ν store expr⟩
  · intro source grid done
    obtain ⟨expr, read, value⟩ := exists_parse_of_evaluate ν done
    exact ⟨expr, (parse_eq_ok_iff keyed).mp read, value⟩

/-- A store with two variables of one letter each. -/
def letters : Store :=
  (Store.empty.insert ['a'] (.filled (.scalar ['x']))).insert ['b'] (.filled (.scalar ['y']))

/-- A run of two variables behind a minus sign is a product whose first factor has the sign. -/
theorem evaluate_follows_grammar_run :
    Keyed letters ∧
      evaluate ℚ letters "-ab" =
        (Expr.binary .mul none (.negation 0 (.name ['a'] ⟨1, 2⟩)) (.name ['b'] ⟨2, 3⟩)).value ℚ
          letters := by
  have keyed : Keyed letters := by decide
  have unknown : letters.contains ['a', 'b'] = false := by decide
  have halves : letters.split? ['a', 'b'] = some (['a'], ['b']) := by decide
  have run := @Spelled.split letters 1 ['a'] ['b'] [] [] rfl (by simp) unknown halves .nil
  have spelled : Spelled letters 0 "-ab" _ := .sign rfl run
  have first : Derives 4 [⟨.name, ['a'], ⟨1, 2⟩⟩] (.name ['a'] ⟨1, 2⟩) := .name rfl
  have second : Derives 4 [⟨.name, ['b'], ⟨2, 3⟩⟩] (.name ['b'] ⟨2, 3⟩) := .name rfl
  have minus : Derives 3 [⟨.minus, ['-'], ⟨0, 1⟩⟩, ⟨.name, ['a'], ⟨1, 2⟩⟩]
      (.negation 0 (.name ['a'] ⟨1, 2⟩)) := .negation rfl first.loosen
  have derives := Derives.loosen (.juxtaposed minus.loosen second)
  exact ⟨keyed, ((evaluate_follows_grammar ℚ letters keyed).1 _ _ ⟨_, spelled, derives⟩).1⟩

end MatrixFormula.Formula
