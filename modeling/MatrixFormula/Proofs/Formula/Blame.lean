import MatrixFormula.Formula.Value
import MatrixFormula.Proofs.Formula.Grammar
import MatrixFormula.Proofs.Outcome
import MatrixFormula.Proofs.Store

/-!
# What the fault of a formula is about

A formula without a value is at fault in one of four ways: its words are no formula, a number or a
name among them has no value, an operator between two blocks of words cannot combine their values,
or a product without a sign cannot.
-/

namespace MatrixFormula.Formula

variable (ν : Type) [Numeral ν] (store : Store)

/-- Why the words of a formula have no value, for each way in which they can have none. -/
inductive Blames (stop : Nat) (words : List Lexeme) : Diagnostic → Prop where
  | halts {diagnostic : Diagnostic} (halts : Halts stop words diagnostic) :
      Blames stop words diagnostic
  | number {lexeme : Lexeme} (member : lexeme ∈ words) (wrong : Numeral.read? ν lexeme.text = none) :
      Blames stop words ((Fault.invalidNumber lexeme.text).located lexeme.span)
  | name {lexeme : Lexeme} {diagnostic : Diagnostic} (member : lexeme ∈ words)
      (unknown : nameValue store lexeme.text lexeme.span = .error diagnostic) :
      Blames stop words diagnostic
  | operator {operator : Operator} {lexeme : Lexeme} {before behind : List Lexeme}
      {left right : Expr} {first second : Grid Text} {fault : ArithmeticFault}
      (inside : before ++ lexeme :: behind <:+: words)
      (sign : lexeme.word.operator? = some operator) (begins : Derives 1 before left)
      (ends : Derives 1 behind right) (leftValue : left.value ν store = .ok first)
      (rightValue : right.value ν store = .ok second)
      (fails : operator.apply ν first second = .error fault) :
      Blames stop words ⟨.arithmetic fault, [left.span, lexeme.span, right.span]⟩
  | juxtaposed {before behind : List Lexeme} {left right : Expr} {first second : Grid Text}
      {fault : ArithmeticFault} (inside : before ++ behind <:+: words)
      (begins : Derives 1 before left) (ends : Derives 1 behind right)
      (leftValue : left.value ν store = .ok first) (rightValue : right.value ν store = .ok second)
      (fails : Operator.mul.apply ν first second = .error fault) :
      Blames stop words
        ⟨.arithmetic fault, [left.span, left.span.between right.span, right.span]⟩

variable {ν store} {stop : Nat} {words : List Lexeme} {diagnostic : Diagnostic}

/-- The fault of two operands is that of the first one, that of the second one, or the operator
cannot combine their values. -/
theorem value_binary_error {operator : Operator} {sign? : Option Span} {left right : Expr}
    (failed : (Expr.binary operator sign? left right).value ν store = .error diagnostic) :
    left.value ν store = .error diagnostic ∨ right.value ν store = .error diagnostic ∨
      ∃ first second fault, left.value ν store = .ok first ∧ right.value ν store = .ok second ∧
        operator.apply ν first second = .error fault ∧
        diagnostic = ⟨.arithmetic fault, [left.span, Expr.signSpan sign? left right, right.span]⟩ := by
  rcases error_of_bind_eq_error failed with here | ⟨first, leftValue, failed⟩
  · exact .inl here
  rcases error_of_bind_eq_error failed with there | ⟨second, rightValue, failed⟩
  · exact .inr (.inl there)
  split at failed
  · cases failed
  · next fault fails =>
      cases failed
      exact .inr (.inr ⟨first, second, fault, leftValue, rightValue, fails, rfl⟩)

/-- The fault of an expression is one of the words that it is derived from. -/
theorem Derives.blames {rank : Nat} {block : List Lexeme} {expr : Expr}
    (derives : Derives rank block expr) (inside : block <:+: words)
    (failed : expr.value ν store = .error diagnostic) : Blames ν store stop words diagnostic := by
  induction derives with
  | @number lexeme word =>
      rw [Expr.value, numberValue] at failed
      split at failed
      · cases failed
      · next wrong =>
          cases failed
          exact .number (inside.subset (by simp)) wrong
  | @name lexeme word => exact .name (inside.subset (by simp)) failed
  | @group opening closing words inner _ _ _ ih =>
      exact ih (.trans ⟨[opening], [closing], rfl⟩ inside) failed
  | transpose _ _ ih =>
      exact ih (.trans (List.prefix_append _ _).isInfix inside) (error_of_map_eq_error failed)
  | negation _ _ ih =>
      exact ih (.trans (List.suffix_cons _ _).isInfix inside) (error_of_map_eq_error failed)
  | @binary lexeme operator before behind left right first sign second ihFirst ihSecond =>
      have later : behind <:+: before ++ lexeme :: behind := ⟨before ++ [lexeme], [], by simp⟩
      rcases value_binary_error failed with
        here | there | ⟨_, _, fault, leftValue, rightValue, fails, rfl⟩
      · exact ihFirst (.trans (List.prefix_append _ _).isInfix inside) here
      · exact ihSecond (later.trans inside) there
      · exact .operator inside sign (first.mono operator.rank_pos) (second.mono (by omega))
          leftValue rightValue fails
  | juxtaposed first second ihFirst ihSecond =>
      rcases value_binary_error failed with
        here | there | ⟨_, _, fault, leftValue, rightValue, fails, rfl⟩
      · exact ihFirst (.trans (List.prefix_append _ _).isInfix inside) here
      · exact ihSecond (.trans (List.suffix_append _ _).isInfix inside) there
      · exact .juxtaposed inside (first.mono (by decide)) (second.mono (by decide)) leftValue
          rightValue fails
  | loosen _ ih => exact ih inside failed

/-- A formula without a value is at fault in one of these ways. -/
theorem blames_of_evaluate {source : Text} (failed : evaluate ν store source = .error diagnostic) :
    Blames ν store source.byteSize (lexemes store 0 source) diagnostic := by
  have accounts := (@accounts_read source.byteSize (lexemes store 0 source)).1 .nil (by decide)
  rw [List.nil_append] at accounts
  rw [evaluate, parse] at failed
  generalize read source.byteSize [] none (lexemes store 0 source) = result at accounts failed
  cases result with
  | ok expr => exact Derives.blames accounts (List.infix_refl _) failed
  | error halt =>
      obtain ⟨complete, halts⟩ := accounts
      cases values : halt.completed.mapM (Expr.value ν store) with
      | ok grids =>
          simp only [values] at failed
          cases failed
          exact .halts halts
      | error diagnostic =>
          simp only [values] at failed
          cases failed
          obtain ⟨expr, member, wrong⟩ := exists_of_mapM_eq_error values
          obtain ⟨block, inside, derives⟩ := complete expr member
          exact derives.blames inside wrong

/-- The fault of a name is about the name itself. It is a variable without cells, or it is neither
a variable nor a constant, and the known names that are nearly spelled like it are suggested. -/
theorem nameValue_error {name : Text} {span : Span}
    (failed : nameValue store name span = .error diagnostic) :
    (∃ rows cols, store.get? name = some (.placeholder rows cols) ∧
        diagnostic.fault = .missingCells name rows.text cols.text) ∨
      store.get? name = none ∧ Name.constant? name = none ∧
        diagnostic.fault = .undefinedVariable name (store.similar name) := by
  unfold nameValue at failed
  split at failed
  · cases failed
  · next rows cols found =>
      cases failed
      exact .inl ⟨rows, cols, found, rfl⟩
  · next unknown =>
      split at failed
      · cases failed
      · next other =>
          cases failed
          exact .inr ⟨unknown, other, rfl⟩

/-- A name is reported as undefined only if it is neither a variable nor a constant. Then the
suggestions are all known names at a distance of less than two, in increasing order. -/
theorem suggestions_of_evaluate {source name : Text} {suggestions : List Text}
    (failed : evaluate ν store source = .error diagnostic)
    (undefined : diagnostic.fault = .undefinedVariable name suggestions) :
    store.contains name = false ∧ Name.constant? name = none ∧ suggestions.Pairwise (· < ·) ∧
      ∀ other, other ∈ suggestions ↔
        store.contains other ∧ ∃ count < 2, Store.Edits count name other := by
  cases blames_of_evaluate failed with
  | halts halts => cases halts <;> cases undefined
  | number | operator | juxtaposed => cases undefined
  | name _ unknown =>
      rcases nameValue_error unknown with ⟨_, _, _, missing⟩ | ⟨absent, other, report⟩
      · cases missing.symm.trans undefined
      · cases report.symm.trans undefined
        refine ⟨?_, other, store.pairwise_similar _, fun _ => Store.mem_similar_iff⟩
        rw [Store.contains, absent, Option.isSome_none]

end MatrixFormula.Formula
