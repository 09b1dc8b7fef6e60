import Mathlib.Data.List.Find
import MatrixFormula.Proofs.Formula.Dependence
import MatrixFormula.Proofs.Formula.Evaluation

/-!
# Saved intermediate results

The value of a formula can be saved under a new name. Whatever formula the name is then used in has
the value, or the fault, of that formula with the first one typed in parentheses in place of the
name.
-/

namespace MatrixFormula.Formula

variable {store : Store} {inset saved text rest : Text} {pieces : List Text} {offset : Nat}
  {words : List Lexeme}

/-- A formula with holes, which is given by the texts around them, with a text in every hole. -/
def filled (inset : Text) (pieces : List Text) : Text := Text.joined (' ' :: inset ++ [' ']) pieces

/-! ## Carets at the end of a text -/

/-- Characters of a class without the caret can stand in front. -/
theorem closed_caret_append {inside : Char → Bool} (mark : inside '^' = false)
    (all : ∀ char ∈ text, inside char) (closed : Text.Closed (· == '^') Text.isBlank rest) :
    Text.Closed (· == '^') Text.isBlank (text ++ rest) := by
  refine closed.append fun char member caret => ?_
  have here := all char member
  rw [eq_of_beq caret, mark] at here
  cases here

/-- Behind a caret of a spelling stands the mark of transposition. -/
theorem Spelled.closed_caret (spelled : Spelled store offset text words) :
    Text.Closed (· == '^') Text.isBlank text := by
  induction spelled with
  | nil => exact fun before first behind spelled => absurd spelled (by simp)
  | @blank offset char rest words shown _ ih =>
      exact @closed_caret_append [char] rest Text.isBlank rfl (by simpa using shown) ih
  | number nonempty digits ends _ ih => exact closed_caret_append rfl digits ih
  | name identifier ends whole _ ih =>
      exact closed_caret_append rfl (Token.continuesName_of_isIdentifier identifier) ih
  | split identifier ends unknown halves _ ih =>
      exact closed_caret_append rfl (Token.continuesName_of_isIdentifier identifier) ih
  | @sign offset char rest word words writes _ ih =>
      exact @closed_caret_append [char] rest (fun char => (signWord? char).isSome) rfl
        (by simp [writes]) ih
  | @transpose offset stop blanks rest mark words blank marks stops _ ih =>
      have behind := closed_caret_append rfl blank
        (@closed_caret_append [mark] rest isTransposeMark rfl (by simpa using marks) ih)
      refine @Text.Closed.append _ _ ['^'] _ behind fun _ _ _ => ⟨mark, by simp, ?_⟩
      simp only [isTransposeMark, Bool.or_eq_true, beq_iff_eq] at marks
      rcases marks with rfl | rfl <;> rfl

/-- A text that does not end with a caret, trimmed, has something behind each of its carets. -/
theorem closed_caret_of_trim (last : (Text.trim text).getLast? ≠ some '^') :
    Text.Closed (· == '^') Text.isBlank text := by
  rintro before first behind rfl caret
  obtain rfl := eq_of_beq caret
  refine Decidable.byContradiction fun none => last ?_
  have blank : ∀ char ∈ behind, Text.isBlank char := fun char member =>
    Bool.not_eq_false _ ▸ fun shown => none ⟨char, member, shown⟩
  have mark (rest : Text) : ∀ char ∈ ('^' :: rest).head?, Text.isBlank char = false := by
    intro char head
    obtain rfl := Option.some.inj head
    rfl
  have start : Text.trimStart (before ++ '^' :: behind) = Text.trimStart before ++ '^' :: behind :=
    (Text.span_append (.inr (mark behind))).2
  have stop (front : Text) : Text.trimStart (behind.reverse ++ '^' :: front) = '^' :: front :=
    (Text.span_run (by simpa using blank) (mark front)).2
  rw [Text.trim, start, List.reverse_append, List.reverse_cons, List.append_assoc,
    List.singleton_append, stop]
  simp

/-! ## Formulas with a value -/

variable {ν : Type} [Numeral ν] {grid : Grid Text}

/-- What is heard of a formula with a value derives an expression with that value. -/
theorem exists_derives_of_evaluate (done : evaluate ν store text = .ok grid) :
    ∃ expr, Derives 1 (hear store text) expr ∧ expr.verdict ν store = .ok grid := by
  obtain ⟨expr, read, value⟩ := exists_parse_of_evaluate ν done
  have same := outcome_read (Text.byteSize text) [] none (lexemes store 0 text)
  rw [List.map_nil, Option.map_none, heard_lexemes, ← parse, read] at same
  cases result : Formula.read 0 [] none (hear store text) with
  | error stop =>
      rw [result] at same
      cases same
  | ok other =>
      rw [result] at same
      have placeless : expr.placeless = other.placeless := Except.ok.inj same
      refine ⟨other, read_eq_ok_iff.mp result, ?_⟩
      rw [← verdict_placeless, ← placeless, verdict_placeless, Expr.verdict, value]
      rfl

theorem closed_caret_of_evaluate (keyed : Keyed store) (done : evaluate ν store text = .ok grid) :
    Text.Closed (· == '^') Text.isBlank text := by
  obtain ⟨expr, read, -⟩ := exists_parse_of_evaluate ν done
  obtain ⟨words, spelled, -⟩ := (parse_eq_ok_iff keyed).mp read
  exact spelled.closed_caret

/-- Words that all have a meaning are followed by those behind them. -/
theorem follow_eq_append {words behind : List Lexeme}
    (regular : ∀ lexeme ∈ words, lexeme.word.isRegular) : follow words behind = words ++ behind := by
  induction words with
  | nil => rfl
  | cons lexeme words ih =>
      obtain ⟨here, later⟩ := List.forall_mem_cons.mp regular
      rw [follow, if_pos here, ih later, List.cons_append]

/-! ## Holes -/

/-- Words in front of replaced words. -/
theorem Replaced.follow {first second : Store} {front words others : List Lexeme}
    (known : ∀ lexeme ∈ front, lexeme.word = .name →
      SameAnswer ν first second (.name lexeme.text lexeme.span) (.name lexeme.text lexeme.span))
    (replaced : Replaced ν first second words others) :
    Replaced ν first second (Formula.follow front words) (Formula.follow front others) := by
  induction front with
  | nil => exact replaced
  | cons lexeme front ih =>
      obtain ⟨here, later⟩ := List.forall_mem_cons.mp known
      rw [Formula.follow, Formula.follow]
      split
      · exact .word lexeme here (ih later)
      · exact .word lexeme here .nil

/-- Words without new powers. -/
theorem Replaced.refl {first second : Store} {words : List Lexeme}
    (known : ∀ lexeme ∈ words, lexeme.word = .name →
      SameAnswer ν first second (.name lexeme.text lexeme.span) (.name lexeme.text lexeme.span)) :
    Replaced ν first second words words := by
  induction words with
  | nil => exact .nil
  | cons lexeme words ih =>
      obtain ⟨here, later⟩ := List.forall_mem_cons.mp known
      exact .word lexeme here (ih later)

/-- A text in front of a blank ends in front of it, unless it ends with a caret. -/
theorem separate_blank (closed : Text.Closed (· == '^') Text.isBlank text) (rest : Text) :
    Separate text (' ' :: rest) := by
  refine .inr ⟨.inr fun char head => ?_, fun char head => ?_, closed⟩ <;>
    obtain rfl := Option.some.inj head <;> rfl

/-- The words of a formula with a value in parentheses. -/
theorem hear_group (keyed : Keyed store) (done : evaluate ν store text = .ok grid) (rest : Text) :
    hear store ('(' :: text ++ [')'] ++ rest) =
      ⟨.openParen, ['('], nowhere⟩ :: hear store text ++ [⟨.closeParen, [')'], nowhere⟩] ++
        hear store rest := by
  obtain ⟨expr, derives, -⟩ := exists_derives_of_evaluate done
  have separate : Separate text (')' :: rest) := by
    refine .inr ⟨.inr fun char head => ?_, fun char head => ?_,
      closed_caret_of_evaluate keyed done⟩ <;> obtain rfl := Option.some.inj head <;> rfl
  have opening := @hear_single store '(' (text ++ ')' :: rest) .openParen rfl rfl nofun
  have closing := @hear_single store ')' rest .closeParen rfl rfl nofun
  rw [List.append_assoc, List.cons_append, List.singleton_append, opening, hear_append separate,
    closing, follow_eq_append derives.isRegular]
  simp [Word.ofKind]

theorem contains_insert (store : Store) (saved name : Text) (tensor : Tensor) :
    (store.insert saved tensor).contains name = (name == saved || store.contains name) := by
  rw [Store.contains, Store.get?_insert, Store.contains]
  by_cases same : name = saved <;> simp [same]

/-- The word of a saved result. -/
theorem hear_saved (identifier : Token.isIdentifier saved) (tensor : Tensor)
    (ends : ∀ char ∈ rest.head?, Token.continuesName char = false) :
    hear (store.insert saved tensor) (saved ++ rest) =
      ⟨.name, saved, nowhere⟩ :: hear (store.insert saved tensor) rest := by
  rw [← heard_lexemes _ 0, lexemes_whole identifier ends (.inl (by simp [contains_insert])), heard,
    heard_lexemes]
  rfl

/-- Saving a tensor under a name that does not occur in a text does not change its words. -/
theorem hear_insert (fresh : ¬ saved <:+: text) (tensor : Tensor) :
    hear (store.insert saved tensor) text = hear store text := by
  rw [← heard_lexemes _ 0, ← heard_lexemes _ 0]
  have agree := Store.agreeOn_insert fresh store tensor
  exact congrArg heard (lexemes_congr (fun run inside => leadingName_agree agree inside) 0)

/-- What is heard of some words are texts of these words. -/
theorem exists_of_mem_heard {lexeme : Lexeme} (member : lexeme ∈ heard words) :
    ∃ word ∈ words, word.text = lexeme.text := by
  induction words with
  | nil => cases member
  | cons first words ih =>
      rw [heard] at member
      split at member
      · obtain rfl := List.mem_singleton.mp member
        exact ⟨first, List.mem_cons_self, rfl⟩
      · rcases List.mem_cons.mp member with rfl | later
        · exact ⟨first, List.mem_cons_self, rfl⟩
        · obtain ⟨word, inside, same⟩ := ih later
          exact ⟨word, List.mem_cons_of_mem _ inside, same⟩

/-- What is heard of a text are parts of it. -/
theorem infix_of_mem_hear {lexeme : Lexeme} (member : lexeme ∈ hear store text) :
    lexeme.text <:+: text := by
  rw [← heard_lexemes store 0] at member
  obtain ⟨word, inside, same⟩ := exists_of_mem_heard member
  rw [← same]
  exact ((laid_lexemes store [] text).placed inside).quotes.isInfix

/-- Other names keep their answers when a tensor is saved. -/
theorem sameAnswer_insert (tensor : Tensor) {name : Text} (other : name ≠ saved) (span : Span) :
    SameAnswer ν store (store.insert saved tensor) (.name name span) (.name name span) := by
  simp only [SameAnswer, Expr.answer, Expr.verdict, Expr.value, nameValue, Store.get?_insert,
    if_neg other]
  cases store.get? name with
  | none => cases Name.constant? name <;> rfl
  | some known => cases known <;> rfl

theorem sameAnswer_of_mem_hear (fresh : ¬ saved <:+: text) (tensor : Tensor) :
    ∀ lexeme ∈ hear store text, lexeme.word = .name →
      SameAnswer ν store (store.insert saved tensor) (.name lexeme.text lexeme.span)
        (.name lexeme.text lexeme.span) := by
  intro lexeme member _
  refine sameAnswer_insert tensor (fun same => fresh ?_) lexeme.span
  rw [← same]
  exact infix_of_mem_hear member

/-- A saved value answers for an expression with that value in parentheses. -/
theorem sameAnswer_saved {expr : Expr} (value : expr.verdict ν store = .ok grid)
    (span place : Span) :
    SameAnswer ν store (store.insert saved (.filled grid)) (.group span expr)
      (.name saved place) := by
  have found : (store.insert saved (.filled grid)).get? saved = some (.filled grid) := by
    rw [Store.get?_insert, if_pos rfl]
  have answer : expr.answer ν store = .ok grid := by rw [Expr.answer, value]; rfl
  have saving : (Expr.name saved place).answer ν (store.insert saved (.filled grid)) =
      .ok grid := by
    simp only [Expr.answer, Expr.verdict, Expr.value, nameValue, found]
    rfl
  exact answer.trans saving.symm

theorem filled_cons_cons (inset piece next : Text) (pieces : List Text) :
    filled inset (piece :: next :: pieces) =
      piece ++ ' ' :: (inset ++ ' ' :: filled inset (next :: pieces)) := by
  simp [filled, Text.joined_cons_cons]

/-- A formula with a value in parentheses, in every hole, becomes a formula with the name of the
saved value in its place. -/
theorem replaced_filled (keyed : Keyed store) (done : evaluate ν store inset = .ok grid)
    (identifier : Token.isIdentifier saved) (fresh : ∀ piece ∈ pieces, ¬ saved <:+: piece)
    (holes : ∀ piece ∈ pieces.dropLast, (Text.trim piece).getLast? ≠ some '^') :
    Replaced ν store (store.insert saved (.filled grid))
      (hear store (filled ('(' :: inset ++ [')']) pieces))
      (hear (store.insert saved (.filled grid)) (filled saved pieces)) := by
  obtain ⟨expr, derives, value⟩ := exists_derives_of_evaluate done
  have group := @Derives.group ⟨.openParen, ['('], nowhere⟩ ⟨.closeParen, [')'], nowhere⟩ _ _ rfl
    derives rfl
  have name := @Derives.name ⟨.name, saved, nowhere⟩ rfl
  induction pieces with
  | nil =>
      have none (inset : Text) : filled inset [] = [] := rfl
      rw [none, none, hear, hear]
      exact .nil
  | cons piece pieces ih =>
      obtain ⟨here, later⟩ := List.forall_mem_cons.mp fresh
      cases pieces with
      | nil =>
          have last (inset : Text) : filled inset [piece] = piece := by
            simp [filled]
          rw [last, last, hear_insert here]
          exact .refl (sameAnswer_of_mem_hear here _)
      | cons next pieces =>
          rw [List.dropLast_cons_cons] at holes
          obtain ⟨hole, holes⟩ := List.forall_mem_cons.mp holes
          have separate := separate_blank (closed_caret_of_trim hole)
          have space : ∀ char ∈ (' ' :: filled saved (next :: pieces)).head?,
              Token.continuesName char = false := by
            intro char head
            obtain rfl := Option.some.inj head
            rfl
          rw [filled_cons_cons, filled_cons_cons, hear_append (separate _), hear_append (separate _),
            hear_insert here, hear_blank rfl, hear_blank rfl, hear_group keyed done,
            hear_saved identifier _ space, hear_blank rfl, hear_blank rfl]
          exact (Replaced.power group name (sameAnswer_saved value _ _) (ih later holes)).follow
            (sameAnswer_of_mem_hear here _)

/-- Saving the value of a formula under a name that is not used yet, and using the name, is the same
as typing the formula in parentheses, except for the names that a fault suggests. -/
theorem evaluate_inlined (ν : Type) [Numeral ν] (store : Store) (keyed : Keyed store)
    (inset saved : Text) (grid : Grid Text) (pieces : List Text)
    (done : evaluate ν store inset = .ok grid) (identifier : Token.isIdentifier saved)
    (fresh : ∀ piece ∈ pieces, ¬ saved <:+: piece)
    (holes : ∀ piece ∈ pieces.dropLast, (Text.trim piece).getLast? ≠ some '^') :
    (evaluate ν store (filled ('(' :: inset ++ [')']) pieces)).mapError
        (fun diagnostic => diagnostic.fault.unadvised) =
      (evaluate ν (store.insert saved (.filled grid)) (filled saved pieces)).mapError
        (fun diagnostic => diagnostic.fault.unadvised) := by
  have same := settledValue_replaced (replaced_filled keyed done identifier fresh holes)
  rw [← heard_lexemes store 0, ← heard_lexemes _ 0, ← evaluate_eq_settledValue,
    ← evaluate_eq_settledValue] at same
  have forget (outcome : Except Diagnostic (Grid Text)) :
      outcome.mapError (fun diagnostic => diagnostic.fault.unadvised) =
        (outcome.mapError Diagnostic.fault).mapError Fault.unadvised := by
    cases outcome <;> rfl
  rw [forget, forget, same]

/-- A difference that is used twice, once as a transposed divisor. -/
theorem evaluate_inlined_difference :
    evaluate ℚ letters ("a - b" : String) = .ok (.scalar "x - y".toList) ∧
      (evaluate ℚ letters ("2 / (a - b) ^T - (a - b) " : String)).mapError
          (fun diagnostic => diagnostic.fault.unadvised) =
        (evaluate ℚ (letters.insert ['r'] (.filled (.scalar "x - y".toList)))
          ("2 / r ^T - r " : String)).mapError (fun diagnostic => diagnostic.fault.unadvised) ∧
      evaluate ℚ letters ("2 / (a - b) ^T - (a - b) " : String) =
        .ok (.scalar "\\frac\x7b2\x7d\x7bx - y\x7d - (x - y)".toList) := by
  have done : evaluate ℚ letters ("a - b" : String) = .ok (.scalar "x - y".toList) := by
    decide +kernel
  exact ⟨done, evaluate_inlined ℚ letters (by decide) ("a - b" : String) ['r'] _
    [("2 /" : String), ("^T -" : String), []] done rfl (by decide) (by decide), by decide +kernel⟩

end MatrixFormula.Formula
