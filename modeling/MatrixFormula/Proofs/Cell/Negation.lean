import MatrixFormula.Grid.Arithmetic
import MatrixFormula.Proofs.Cell.Arithmetic
import MatrixFormula.Proofs.Decimal.Double

/-!
# Negating twice

The opposite of the opposite of a term is the term, with three exceptions. Parentheses around a
sum come back without the first pair, because `-(…)` around a sum is read as its opposite. What
stands in `-(…)` comes back changed when it is a number with a plus sign, which is computed, and
when it ends with a blank, which is trimmed.
-/

namespace MatrixFormula

/-- Trimming shortens a text that ends with a blank. -/
theorem Text.length_trim_concat_lt {blank : Char} (white : isBlank blank) (text : Text) :
    (trim (text ++ [blank])).length < (text ++ [blank]).length := by
  have shorter := (List.dropWhile_sublist isBlank (l := text)).length_le
  rw [List.length_append, List.length_singleton, trim, trimStart, trimStart, List.length_reverse,
    List.dropWhile_append]
  split
  · simp [white]
  · have last := (List.dropWhile_sublist isBlank (l := (text.dropWhile isBlank).reverse)).length_le
    rw [List.reverse_append, List.reverse_singleton, List.singleton_append,
      List.dropWhile_cons_of_pos white]
    rw [List.length_reverse] at last
    omega

namespace Cell

/-! ## Brackets that close each other -/

/-- Whether every bracket of a kind has its counterpart, when the text stands inside `depth` of
them. -/
def closes (opening closing : Char) : Nat → Text → Bool
  | depth, [] => depth == 0
  | depth, char :: rest =>
      if char = opening then closes opening closing (depth + 1) rest
      else if char = closing then
        match depth with
        | 0 => false
        | outer + 1 => closes opening closing outer rest
      else closes opening closing depth rest

variable {opening closing : Char} {depth : Nat} {text inner term : Text}

/-- Other characters leave the number of open brackets alone. -/
theorem closes_cons_of_ne {char : Char} (notOpen : char ≠ opening) (notClose : char ≠ closing)
    (depth : Nat) (rest : Text) :
    closes opening closing depth (char :: rest) = closes opening closing depth rest := by
  simp [closes, notOpen, notClose]

/-- Other characters at the end do not matter. -/
theorem closes_concat {char : Char} (notOpen : char ≠ opening) (notClose : char ≠ closing)
    (depth : Nat) (text : Text) :
    closes opening closing depth (text ++ [char]) = closes opening closing depth text := by
  fun_induction closes opening closing depth text with
  | case1 depth => exact closes_cons_of_ne notOpen notClose depth []
  | case2 depth rest ih => simpa [closes] using ih
  | case3 rest differs => simp [closes, differs]
  | case4 rest outer differs ih => simpa [closes, differs] using ih
  | case5 depth other rest otherOpen otherClose ih =>
      simpa [closes, otherOpen, otherClose] using ih

/-- Parentheses that close each other close none in front of them. -/
theorem staysOpen_of_closes (closed : closes '(' ')' depth text) : staysOpen depth text := by
  induction text generalizing depth with
  | nil => rfl
  | cons char rest ih =>
      by_cases opens : char = '('
      · subst opens
        exact ih closed
      · by_cases shuts : char = ')'
        · subst shuts
          cases depth with
          | zero => cases closed
          | succ outer => exact ih closed
        · rw [closes_cons_of_ne opens shuts] at closed
          rw [staysOpen_cons ⟨opens, shuts⟩]
          exact ih closed

/-- No sign is outside a parenthesis that is closed at the end of the text. The braces in the
text neither close the parenthesis nor another brace. -/
theorem hasOuterSign_closed {parentheses braces : Nat} (whole : staysOpen parentheses inner)
    (closed : closes '\x7b' '\x7d' braces inner) :
    hasOuterSign (parentheses + braces + 1) (inner ++ [')']) = false := by
  induction inner generalizing parentheses braces with
  | nil => simp [hasOuterSign]
  | cons char rest ih =>
      rw [List.cons_append]
      by_cases parenthesis : char = '(' ∨ char = ')'
      · rcases parenthesis with rfl | rfl
        · have deeper := @ih (parentheses + 1) braces whole closed
          simpa [hasOuterSign, Nat.add_right_comm] using deeper
        · cases parentheses with
          | zero => cases whole
          | succ outer =>
              have deeper := @ih outer braces whole closed
              simpa [hasOuterSign, Nat.add_right_comm] using deeper
      · obtain ⟨notOpen, notClose⟩ := not_or.mp parenthesis
        rw [staysOpen_cons ⟨notOpen, notClose⟩] at whole
        by_cases brace : char = '\x7b' ∨ char = '\x7d'
        · rcases brace with rfl | rfl
          · have deeper := @ih parentheses (braces + 1) whole closed
            simpa [hasOuterSign, Nat.add_assoc] using deeper
          · cases braces with
            | zero => cases closed
            | succ outer =>
                have deeper := @ih parentheses outer whole closed
                simpa [hasOuterSign, Nat.add_assoc] using deeper
        · obtain ⟨notLeft, notRight⟩ := not_or.mp brace
          rw [closes_cons_of_ne notLeft notRight] at closed
          simpa [hasOuterSign, notOpen, notClose, notLeft, notRight] using ih whole closed

/-- Parentheses around a text do not matter for its braces. -/
theorem closes_braces_group (inner : Text) :
    closes '\x7b' '\x7d' 0 ('(' :: inner ++ [')']) = closes '\x7b' '\x7d' 0 inner := by
  rw [List.cons_append, closes_cons_of_ne (by decide) (by decide),
    closes_concat (by decide) (by decide)]

/-- A text in parentheses has no outer sign. -/
theorem hasOuterSign_group (whole : staysOpen 0 inner) (closed : closes '\x7b' '\x7d' 0 inner) :
    hasOuterSign 0 ('(' :: inner ++ [')']) = false := by
  simpa [hasOuterSign] using hasOuterSign_closed whole closed

/-! ## The opposite of what is no number -/

/-- The opposite of a term that is no number. -/
def opposite (term : Text) : Text :=
  match negatedSum? term with
  | some inner => inner
  | none =>
      if isSum term then '-' :: '(' :: term ++ [')']
      else
        match term with
        | '-' :: rest => rest
        | _ => '-' :: term

/-- A sum in parentheses behind a minus sign is found. -/
theorem negatedSum?_group (whole : staysOpen 0 inner) (sum : isSum inner) :
    negatedSum? ('-' :: '(' :: inner ++ [')']) = some inner := by
  simp [negatedSum?, whole, sum]

/-- A term without a leading minus sign is no negated sum. -/
theorem negatedSum?_eq_none (bare : term.head? ≠ some '-') : negatedSum? term = none := by
  unfold negatedSum?
  split
  · exact absurd rfl bare
  · rfl

/-- A minus sign in front does not make a sum. -/
theorem isSum_minus (bare : term.head? ≠ some '-') : isSum ('-' :: term) = isSum term := by
  rw [isSum_eq term, withoutMinus, isSum]
  exact fun rest starts => bare (by rw [starts, List.head?_cons])

/-- The opposite of a negated sum is the sum. -/
theorem opposite_group (whole : staysOpen 0 inner) (sum : isSum inner) :
    opposite ('-' :: '(' :: inner ++ [')']) = inner := by
  simp only [opposite, negatedSum?_group whole sum]

/-- The opposite of a sum stands in parentheses behind a minus sign. -/
theorem opposite_sum (other : negatedSum? term = none) (sum : isSum term) :
    opposite term = '-' :: '(' :: term ++ [')'] := by
  simp only [opposite, other, sum, if_true]

/-- The opposite of a single term with a minus sign is the term without it. -/
theorem opposite_minus (other : negatedSum? ('-' :: term) = none)
    (single : isSum ('-' :: term) = false) : opposite ('-' :: term) = term := by
  simp only [opposite, other, single, Bool.false_eq_true, if_false]

/-- The opposite of a single term without a sign is the term behind a minus sign. -/
theorem opposite_bare (bare : term.head? ≠ some '-') (single : isSum term = false) :
    opposite term = '-' :: term := by
  simp only [opposite, negatedSum?_eq_none bare, single, Bool.false_eq_true, if_false]
  split
  · exact absurd rfl bare
  · rfl

/-- The opposite is longer by at most a sign and parentheses. -/
theorem length_opposite_le (term : Text) : (opposite term).length ≤ term.length + 3 := by
  unfold opposite
  split
  · next inner negated =>
      rw [(of_negatedSum?_eq_some negated).1]
      simp only [List.length_append, List.length_cons]
      omega
  · split
    · simp
    · split
      · simp only [List.length_cons]
        omega
      · simp

variable {ν : Type} [Numeral ν]

/-- The opposite of a cell is a number that was computed, or it is the opposite of a term that
is no number. -/
theorem neg_cases (ν : Type) [Numeral ν] (cell : Text) :
    (neg ν cell = ['0'] ∨ ∃ value : ν, neg ν cell = Numeral.write value) ∨
      Decimal.isDecimal (Text.trim cell) = false ∧ neg ν cell = opposite (Text.trim cell) := by
  simp only [neg]
  split
  · exact .inl (.inl rfl)
  · split
    · exact .inl (.inr ⟨_, rfl⟩)
    · next unread => exact .inr ⟨by simpa [Numeral.read?, Decimal.isDecimal] using unread, rfl⟩

/-- The opposite of a trimmed term that is no number is found by its text. -/
theorem neg_eq_opposite (trimmed : Text.trim term = term)
    (symbolic : Decimal.isDecimal term = false) : neg ν term = opposite term := by
  have unread : Numeral.read? ν term = none := by
    simpa [Numeral.read?, Decimal.isDecimal] using symbolic
  simp only [neg, trimmed, isZero, unread, Option.any_none, Bool.false_eq_true, if_false]
  rfl

/-- A term with a parenthesis is no number. -/
theorem isDecimal_eq_false_of_mem (member : '(' ∈ term) : Decimal.isDecimal term = false := by
  refine Bool.eq_false_iff.mpr fun number => ?_
  obtain ⟨decimal, read⟩ := Option.isSome_iff_exists.mp number
  exact absurd (Decimal.inNumber_or_sign_of_read? read '(' member) (by decide)

/-- A number may stand behind a minus sign when it has no sign itself. -/
theorem isDecimal_minus (single : isSum ('-' :: term) = false)
    (number : Decimal.isDecimal term) : Decimal.isDecimal ('-' :: term) := by
  obtain ⟨decimal, read⟩ := Option.isSome_iff_exists.mp number
  rcases Decimal.cases_of_read? read with ⟨unsigned, -⟩ | ⟨sign, digits, rfl, -, cause⟩
  · simp [Decimal.isDecimal, Decimal.read?, Decimal.readUnsigned?, unsigned]
  · rw [isSum, hasOuterSign_cons_of_sign (cause.elim (.inr ·.1) (.inl ·.1))] at single
    cases single

/-- A number without its minus sign is a number. -/
theorem isDecimal_of_minus (number : Decimal.isDecimal ('-' :: term)) : Decimal.isDecimal term := by
  obtain ⟨decimal, read⟩ := Option.isSome_iff_exists.mp number
  obtain ⟨unsigned, -⟩ := Decimal.isUnsigned_of_readUnsigned? read
  simp [Decimal.isDecimal, Decimal.read?_of_isUnsigned unsigned]

/-- A number that counts as a sum has a plus sign. -/
theorem exists_of_isDecimal_of_isSum (number : Decimal.isDecimal term) (sum : isSum term) :
    ∃ digits, Decimal.isUnsigned digits ∧ term = '+' :: digits := by
  obtain ⟨decimal, read⟩ := Option.isSome_iff_exists.mp number
  rcases Decimal.cases_of_read? read with ⟨unsigned, -⟩ | ⟨sign, digits, rfl, unsigned, cause⟩
  · rw [(isSum_digits unsigned).1] at sum
    cases sum
  · rcases cause with ⟨rfl, -⟩ | ⟨rfl, -⟩
    · rw [(isSum_digits unsigned).2.1] at sum
      cases sum
    · exact ⟨digits, unsigned, rfl⟩

/-! ## Terms that come back -/

/-- The term is no number, its brackets close each other, and no blank stands at its ends or
directly behind a leading `-` or `-(`. -/
structure Symbolic (term : Text) : Prop where
  other : Decimal.isDecimal (Text.trim term) = false
  parentheses : closes '(' ')' 0 term
  braces : closes '\x7b' '\x7d' 0 term
  starts : ∀ blank, Text.isBlank blank → ¬ [blank] <+: term
  ends : ∀ blank, Text.isBlank blank → ¬ [blank] <:+ term
  signed : ∀ blank, Text.isBlank blank → ¬ ['-', blank] <+: term
  enclosed : ∀ blank, Text.isBlank blank → ¬ ['-', '(', blank] <+: term

/-- Negating the term twice gives another one. -/
inductive Reshaped : Text → Prop where
  /-- A sum loses the parentheses around it. -/
  | group {inner : Text} (whole : staysOpen 0 inner) (sum : isSum inner) :
      Reshaped ('(' :: inner ++ [')'])
  /-- A number with a plus sign is computed. -/
  | number {digits : Text} (unsigned : Decimal.isUnsigned digits) :
      Reshaped ('-' :: '(' :: '+' :: digits ++ [')'])
  /-- A blank at the end of a negated sum is trimmed. -/
  | spaced {inner : Text} {blank : Char} (white : Text.isBlank blank)
      (whole : staysOpen 0 (inner ++ [blank])) (sum : isSum (inner ++ [blank])) :
      Reshaped ('-' :: '(' :: (inner ++ [blank]) ++ [')'])

/-- Trimming leaves a text as it is that neither starts nor ends with a blank. -/
theorem trim_eq_of_ends (starts : ∀ blank, Text.isBlank blank → ¬ [blank] <+: text)
    (ends : ∀ blank, Text.isBlank blank → ¬ [blank] <:+ text) : Text.trim text = text := by
  rcases eq_or_ne text [] with rfl | nonempty
  · rfl
  · refine Solid.trim_eq ⟨nonempty, fun char first => ?_, fun char last => ?_⟩
    · obtain ⟨rest, rfl⟩ := List.head?_eq_some_iff.mp first
      exact Bool.eq_false_iff.mpr fun blank => starts char blank ⟨rest, rfl⟩
    · obtain ⟨front, rfl⟩ := List.getLast?_eq_some_iff.mp last
      exact Bool.eq_false_iff.mpr fun blank => ends char blank ⟨front, rfl⟩

/-- No blank follows a text that another character follows. -/
theorem not_prefix_of_shown {front rest : Text} {char : Char} (shown : Text.isBlank char = false) :
    ∀ blank, Text.isBlank blank → ¬ front ++ [blank] <+: front ++ char :: rest := by
  intro blank white starts
  obtain ⟨rfl, -⟩ := List.cons_prefix_cons.mp ((List.prefix_append_right_inj front).mp starts)
  exact absurd white (by simp [shown])

/-- No blank ends a text that another character ends. -/
theorem not_suffix_of_shown {front : Text} {char : Char} (shown : Text.isBlank char = false) :
    ∀ blank, Text.isBlank blank → ¬ [blank] <:+ front ++ [char] := by
  rintro blank white ⟨others, same⟩
  obtain ⟨-, rfl⟩ := List.append_singleton_inj.mp same
  exact absurd white (by simp [shown])

/-- There is nothing to trim at a minus sign and at a parenthesis. -/
theorem trim_negatedGroup (inner : Text) :
    Text.trim ('-' :: '(' :: inner ++ [')']) = '-' :: '(' :: inner ++ [')'] :=
  trim_eq_of_ends (@not_prefix_of_shown [] _ '-' rfl) (not_suffix_of_shown rfl)

namespace Symbolic

variable (symbolic : Symbolic term)

include symbolic

theorem trim_eq : Text.trim term = term := trim_eq_of_ends symbolic.starts symbolic.ends

theorem isDecimal_eq : Decimal.isDecimal term = false := symbolic.trim_eq ▸ symbolic.other

theorem neg_eq : neg ν term = opposite term :=
  neg_eq_opposite symbolic.trim_eq symbolic.isDecimal_eq

end Symbolic

/-- The opposite of a sum is the sum in parentheses behind a minus sign. -/
theorem neg_negatedGroup (whole : staysOpen 0 inner) (sum : isSum inner) :
    neg ν ('-' :: '(' :: inner ++ [')']) = inner := by
  rw [neg_eq_opposite (trim_negatedGroup inner) (isDecimal_eq_false_of_mem (by simp)),
    opposite_group whole sum]

/-- What stands in `-(…)` is a sum without a sign and parentheses of its own around it. -/
theorem Symbolic.neg_inner (symbolic : Symbolic ('-' :: '(' :: inner ++ [')']))
    (whole : staysOpen 0 inner) (sum : isSum inner)
    (kept : ¬ Reshaped ('-' :: '(' :: inner ++ [')'])) :
    neg ν inner = '-' :: '(' :: inner ++ [')'] := by
  have trimmed : Text.trim inner = inner := by
    refine trim_eq_of_ends (fun blank white first => ?_) fun blank white last => ?_
    · obtain ⟨rest, rfl⟩ := first
      exact symbolic.enclosed blank white ⟨rest ++ [')'], rfl⟩
    · obtain ⟨front, rfl⟩ := last
      exact kept (.spaced white whole sum)
  have symbols : Decimal.isDecimal inner = false := by
    refine Bool.eq_false_iff.mpr fun number => ?_
    obtain ⟨digits, unsigned, rfl⟩ := exists_of_isDecimal_of_isSum number sum
    exact kept (.number unsigned)
  have other : negatedSum? inner = none := by
    refine Option.eq_none_iff_forall_ne_some.mpr fun deeper negated => ?_
    obtain ⟨rfl, open_, -⟩ := of_negatedSum?_eq_some negated
    have closed : closes '\x7b' '\x7d' 0 deeper := by
      have braces := symbolic.braces
      rwa [List.cons_append, closes_cons_of_ne (by decide) (by decide), closes_braces_group,
        List.cons_append, closes_cons_of_ne (by decide) (by decide), closes_braces_group] at braces
    exact absurd sum (Bool.eq_false_iff.mp (hasOuterSign_group open_ closed))
  rw [neg_eq_opposite trimmed symbols, opposite_sum other sum]

/-- What stands behind a minus sign comes back with it. -/
theorem Symbolic.neg_behind (symbolic : Symbolic ('-' :: term))
    (single : isSum ('-' :: term) = false) : neg ν term = '-' :: term := by
  have trimmed : Text.trim term = term := by
    refine trim_eq_of_ends (fun blank white first => ?_) fun blank white last => ?_
    · exact symbolic.signed blank white (List.cons_prefix_cons.mpr ⟨rfl, first⟩)
    · exact symbolic.ends blank white (last.trans (List.suffix_cons '-' term))
  have symbols : Decimal.isDecimal term = false := by
    refine Bool.eq_false_iff.mpr fun number => ?_
    exact absurd (isDecimal_minus single number) (by simp [symbolic.isDecimal_eq])
  have bare : term.head? ≠ some '-' := by
    intro minus
    obtain ⟨rest, rfl⟩ := List.head?_eq_some_iff.mp minus
    simp [isSum, hasOuterSign] at single
  rw [neg_eq_opposite trimmed symbols, opposite_bare bare]
  rwa [← isSum_minus bare]

/-- A minus sign in front of a term that is no sum is taken off again. -/
theorem Symbolic.neg_minus (symbolic : Symbolic term) (bare : term.head? ≠ some '-')
    (single : isSum term = false) (kept : ¬ Reshaped term) : neg ν ('-' :: term) = term := by
  have trimmed : Text.trim ('-' :: term) = '-' :: term := by
    refine trim_eq_of_ends (@not_prefix_of_shown [] _ '-' rfl) fun blank white last => ?_
    rcases List.suffix_cons_iff.mp last with alone | inside
    · cases alone
      cases white
    · exact symbolic.ends blank white inside
  have symbols : Decimal.isDecimal ('-' :: term) = false := by
    refine Bool.eq_false_iff.mpr fun number => ?_
    exact absurd (isDecimal_of_minus number) (by simp [symbolic.isDecimal_eq])
  have other : negatedSum? ('-' :: term) = none := by
    refine Option.eq_none_iff_forall_ne_some.mpr fun inner negated => ?_
    obtain ⟨same, whole, sum⟩ := of_negatedSum?_eq_some negated
    obtain rfl : term = '(' :: inner ++ [')'] := List.tail_eq_of_cons_eq same
    exact kept (.group whole sum)
  rw [neg_eq_opposite trimmed symbols, opposite_minus other]
  rwa [isSum_minus bare]

/-- The opposite of the opposite is the term itself, but for the three exceptions. -/
theorem Symbolic.neg_neg (symbolic : Symbolic term) (kept : ¬ Reshaped term) :
    neg ν (neg ν term) = term := by
  rw [symbolic.neg_eq]
  cases negated : negatedSum? term with
  | some inner =>
      obtain ⟨rfl, whole, sum⟩ := of_negatedSum?_eq_some negated
      rw [opposite_group whole sum]
      exact symbolic.neg_inner whole sum kept
  | none =>
      cases sum : isSum term with
      | true =>
          rw [opposite_sum negated sum]
          exact neg_negatedGroup (staysOpen_of_closes symbolic.parentheses) sum
      | false =>
          by_cases minus : term.head? = some '-'
          · obtain ⟨rest, rfl⟩ := List.head?_eq_some_iff.mp minus
            rw [opposite_minus negated sum]
            exact symbolic.neg_behind sum
          · rw [opposite_bare minus sum]
            exact symbolic.neg_minus minus sum kept

/-! ## Terms that do not come back -/

/-- An opposite with a parenthesis is longer than the trimmed cell by at most a sign and
parentheses, and the cell is no number. -/
theorem of_mem_neg (bare : ∀ value : ν, '(' ∉ Numeral.write value) (cell : Text)
    (member : '(' ∈ neg ν cell) :
    Decimal.isDecimal (Text.trim cell) = false ∧
      (neg ν cell).length ≤ (Text.trim cell).length + 3 := by
  rcases neg_cases ν cell with (zero | ⟨value, written⟩) | ⟨symbols, same⟩
  · rw [zero] at member
    exact absurd member (by decide)
  · exact absurd (written ▸ member) (bare value)
  · exact ⟨symbols, same ▸ length_opposite_le _⟩

/-- Each of the exceptions is one. -/
theorem Symbolic.neg_neg_ne (symbolic : Symbolic term) (reshaped : Reshaped term)
    (bare : ∀ value : ν, '(' ∉ Numeral.write value) : neg ν (neg ν term) ≠ term := by
  intro same
  rw [symbolic.neg_eq] at same
  cases reshaped with
  | @group inner whole sum =>
      have closed := closes_braces_group inner ▸ symbolic.braces
      have single : isSum ('(' :: inner ++ [')']) = false := hasOuterSign_group whole closed
      rw [opposite_bare (by simp) single] at same
      have longer := congrArg List.length ((neg_negatedGroup whole sum).symm.trans same)
      simp only [List.length_append, List.length_cons] at longer
      omega
  | @number digits unsigned =>
      have plus : Paired ('+' :: digits) :=
        (Paired.of_all rfl : Paired ['+']).append (.of_isUnsigned unsigned)
      have whole : staysOpen 0 ('+' :: digits) := by simpa [staysOpen] using plus 0 []
      have solid : Solid ('+' :: digits) := by
        simpa using (Solid.singleton '+' rfl).append (.of_isUnsigned unsigned) []
      rw [opposite_group whole (isSum_digits unsigned).2.2] at same
      have read : Decimal.isDecimal ('+' :: digits) := by
        simp [Decimal.isDecimal, Decimal.read?, Decimal.readUnsigned?, unsigned]
      obtain ⟨symbols, -⟩ := of_mem_neg bare ('+' :: digits) (by rw [same]; simp)
      rw [solid.trim_eq, read] at symbols
      cases symbols
  | @spaced inner blank white whole sum =>
      rw [opposite_group whole sum] at same
      obtain ⟨-, short⟩ := of_mem_neg bare (inner ++ [blank]) (by rw [same]; simp)
      have trimmed := Text.length_trim_concat_lt white inner
      rw [same, List.length_append, List.length_cons, List.length_cons, List.length_singleton]
        at short
      omega

/-- The number of a cell is written without parentheses. -/
theorem parenthesis_not_mem_write (value : Float) : '(' ∉ Numeral.write value := fun member =>
  absurd (Numeral.of_mem_write member) (by decide)

/-- The opposite of the opposite of a term is the term itself exactly when it is none of the three
exceptions. -/
theorem Symbolic.neg_neg_iff (symbolic : Symbolic term) :
    neg Float (neg Float term) = term ↔ ¬ Reshaped term :=
  ⟨fun same reshaped => symbolic.neg_neg_ne reshaped parenthesis_not_mem_write same,
    symbolic.neg_neg⟩

/-- Negating a term twice gives it back exactly when it is none of the three exceptions, and a
matrix of such terms comes back exactly when none of its cells is. -/
theorem neg_neg_eq_iff (term : Text) (grid : Grid Text) :
    (Symbolic term → (neg Float (neg Float term) = term ↔ ¬ Reshaped term)) ∧
      ((∀ row col, Symbolic (grid.entry row col)) →
        (Grid.neg Float (Grid.neg Float grid) = grid ↔
          ∀ row col, ¬ Reshaped (grid.entry row col))) := by
  refine ⟨Symbolic.neg_neg_iff, fun symbolic => ?_⟩
  rw [Grid.neg, Grid.neg, Grid.map_map, Grid.map_eq_self_iff]
  exact forall₂_congr fun row col => (symbolic row col).neg_neg_iff

theorem symbolic_parentheses : Symbolic "(a + b)" where
  other := rfl
  parentheses := rfl
  braces := rfl
  starts := @not_prefix_of_shown [] "a + b)" '(' rfl
  ends := @not_suffix_of_shown "(a + b" ')' rfl
  signed := fun _ _ starts => absurd (List.cons_prefix_cons.mp starts).1 (by decide)
  enclosed := fun _ _ starts => absurd (List.cons_prefix_cons.mp starts).1 (by decide)

/-- A matrix of one sum in parentheses, which loses them, and the opposite of the sum, which comes
back. -/
theorem neg_neg_eq_iff_parentheses :
    Reshaped "(a + b)" ∧
      Grid.neg Float (Grid.neg Float (.scalar "(a + b)")) ≠ .scalar "(a + b)" ∧
      Symbolic "-(a + b)" ∧
        (neg Float (neg Float "-(a + b)") = "-(a + b)" ↔ ¬ Reshaped "-(a + b)") := by
  have opposite : Symbolic "-(a + b)" :=
    { other := rfl
      parentheses := rfl
      braces := rfl
      starts := @not_prefix_of_shown [] "(a + b)" '-' rfl
      ends := @not_suffix_of_shown "-(a + b" ')' rfl
      signed := @not_prefix_of_shown ['-'] "a + b)" '(' rfl
      enclosed := @not_prefix_of_shown ['-', '('] " + b)" 'a' rfl }
  have reshaped : Reshaped "(a + b)" := @Reshaped.group "a + b" rfl rfl
  obtain ⟨single, cells⟩ := neg_neg_eq_iff "-(a + b)" (.scalar "(a + b)")
  simp only [Grid.entry_scalar] at cells
  have changes := cells fun _ _ => symbolic_parentheses
  exact ⟨reshaped, fun same => changes.mp same ⟨0, Grid.rowsPos _⟩ ⟨0, Grid.colsPos _⟩ reshaped,
    opposite, single opposite⟩

/-- Negating a sum in parentheses twice takes them off. -/
theorem neg_neg_parentheses :
    Symbolic "(a + b)" ∧ neg Float "(a + b)" = "-(a + b)" ∧
      neg Float (neg Float "(a + b)") = "a + b" ∧ ("a + b" : Text) ≠ "(a + b)" :=
  ⟨symbolic_parentheses, by decide, by decide, by decide⟩

end Cell

end MatrixFormula
