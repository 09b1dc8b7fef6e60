import MatrixFormula.Proofs.Decimal.Rational
import MatrixFormula.Proofs.Formula.Splitting
import MatrixFormula.Proofs.Text.Token

/-!
# Runs of letters and spaces

A run of letters that is no variable is cut behind the shortest variable that leaves a variable.
Typing a space at that place changes nothing, in whatever formula the run stands, except behind a
caret, where the evaluator takes a single letter off the run and not the run itself.
-/

namespace MatrixFormula.Formula

variable {store : Store} {left right run : Text}

/-! ## The shortest half -/

/-- Ways to cut a text come in the order of their first parts. -/
theorem pairwise_properSplits (text : Text) :
    (Text.properSplits text).Pairwise fun first second => first.1.byteSize < second.1.byteSize := by
  fun_induction Text.properSplits text with
  | case1 | case2 => exact .nil
  | case3 first second rest ih =>
      refine .cons (fun split member => ?_) (ih.map _ fun _ _ => by simp)
      obtain ⟨⟨left, right⟩, inside, rfl⟩ := List.mem_map.mp member
      have nonempty := (Text.mem_properSplits_iff.mp inside).1
      have := Nat.pos_of_ne_zero (mt Text.byteSize_eq_zero_iff.mp nonempty)
      simp only [Text.byteSize_cons, Text.byteSize_nil]
      omega

/-- No shorter variable starts a run and leaves a variable. -/
theorem byteSize_le_of_split? (halves : store.split? run = some (left, right)) {first second : Text}
    (cut : (first, second) ∈ Text.properSplits run) (start : store.contains first)
    (rest : store.contains second) : left.byteSize ≤ first.byteSize := by
  obtain ⟨-, before, after, splits, earlier⟩ := List.find?_eq_some_iff_append.mp halves
  have ascending := pairwise_properSplits run
  rw [splits] at cut ascending
  rcases List.mem_append.mp cut with shorter | later
  · have unknown := earlier _ shorter
    simp [start, rest] at unknown
  · rcases List.mem_cons.mp later with same | longer
    · rw [(Prod.mk.inj same).1]
    · have behind := (List.pairwise_append.mp ascending).2.1
      exact Nat.le_of_lt ((List.pairwise_cons.mp behind).1 _ longer)

/-! ## The run in a formula -/

/-- The words in front of a name that does not follow a caret end in front of it. -/
theorem separate_of_list {source : Text} {before after : List Token} {token : Token}
    (tokens : Token.list source = before ++ token :: after) (name : token.kind = .name)
    (exponent : (before.filter fun token => token.kind != .blank).getLast?.map Token.kind ≠
      some .caret)
    {char : Char} (starts : Token.startsName char) (rest : Text) :
    Separate (before.flatMap Token.lexeme) (char :: rest) := by
  refine .inr ⟨.inl (Token.closed_name tokens name), fun other head => ?_,
    Token.closed_caret tokens exponent⟩
  obtain rfl := Option.some.inj head
  refine Bool.eq_false_iff.mpr fun digit => ?_
  rw [Token.not_startsName_of_inNumber digit] at starts
  cases starts

/-- A run of letters is cut behind the shortest variable that leaves a variable, and a formula with
such a run has the same value, or the same fault, as the formula with a space at that place. -/
theorem evaluate_spaced (ν : Type) [Numeral ν] (store : Store) (keyed : Keyed store) (source : Text)
    (before after : List Token) (token : Token) (left right : Text)
    (tokens : Token.list source = before ++ token :: after) (name : token.kind = .name)
    (exponent : (before.filter fun token => token.kind != .blank).getLast?.map Token.kind ≠
      some .caret)
    (unknown : store.contains token.lexeme = false)
    (halves : store.split? token.lexeme = some (left, right)) :
    (evaluate ν store source).mapError Diagnostic.fault =
      (evaluate ν store (before.flatMap Token.lexeme ++ left ++ ' ' :: right ++
        after.flatMap Token.lexeme)).mapError Diagnostic.fault ∧
      left ++ right = token.lexeme ∧ store.contains left ∧ store.contains right ∧
      ∀ first second, first ++ second = token.lexeme → store.contains first →
        store.contains second → left.byteSize ≤ first.byteSize := by
  obtain ⟨nonempty, spelled, first, second⟩ := contains_of_split? halves
  constructor
  · obtain ⟨text, ends⟩ := Token.listFrom_of_cons tokens
    have member : token ∈ Token.list source := tokens ▸ by simp
    have identifier := Token.isIdentifier_lexeme member name
    rw [name] at ends
    rw [← spelled] at text identifier unknown halves
    obtain ⟨char, others, rfl⟩ := List.exists_cons_of_ne_nil nonempty
    have starts : Token.startsName char := by
      simp only [List.cons_append, Token.isIdentifier, Bool.and_eq_true] at identifier
      exact identifier.1
    have same := hear_split keyed identifier ends unknown halves
    have heard (rest : Text) := @hear_append store _ _
      (separate_of_list tokens name exponent starts rest)
    have cut : before.flatMap Token.lexeme ++ char :: others ++ ' ' :: right ++
        after.flatMap Token.lexeme = before.flatMap Token.lexeme ++
          char :: (others ++ ' ' :: (right ++ after.flatMap Token.lexeme)) := by
      simp
    simp only [List.cons_append] at text same
    rw [evaluate_eq_settledValue, evaluate_eq_settledValue, heard_lexemes, heard_lexemes, cut, text,
      heard, heard, same]
  · refine ⟨spelled, first, second, fun start rest same known knownToo => ?_⟩
    refine byteSize_le_of_split? halves (Text.mem_properSplits_iff.mpr ⟨?_, ?_, same⟩) known knownToo
    · rintro rfl
      cases keyed.identifier known
    · rintro rfl
      cases keyed.identifier knownToo

/-- A store in which a run can be cut in two places. -/
def overlapping : Store :=
  (((Store.empty.insert ['a'] (.filled (.scalar ['2']))).insert ['a', 'b'] (.filled (.scalar ['3']))
    ).insert ['b', 'c'] (.filled (.scalar ['5']))).insert ['c'] (.filled (.scalar ['7']))

/-- The shorter of two variables starts the run, and the transposed rest follows. -/
theorem evaluate_spaced_transposed :
    (evaluate ℚ overlapping ("-abc^T" : String)).mapError Diagnostic.fault =
        (evaluate ℚ overlapping ("-a bc^T" : String)).mapError Diagnostic.fault ∧
      evaluate ℚ overlapping ("-abc^T" : String) = .ok (.scalar "-10".toList) ∧
      ∀ first second, first ++ second = ("abc" : String).toList → overlapping.contains first →
        overlapping.contains second → Text.byteSize ['a'] ≤ Text.byteSize first := by
  have spaced := evaluate_spaced ℚ overlapping (by decide) ("-abc^T" : String)
    [⟨.minus, ['-'], ⟨0, 1⟩⟩] [⟨.caret, ['^'], ⟨4, 5⟩⟩, ⟨.name, ['T'], ⟨5, 6⟩⟩]
    ⟨.name, ['a', 'b', 'c'], ⟨1, 4⟩⟩ ['a'] ['b', 'c'] (by decide +kernel) rfl (by decide) (by decide)
    (by decide)
  exact ⟨spaced.1, by decide +kernel, spaced.2.2.2.2⟩

end MatrixFormula.Formula
