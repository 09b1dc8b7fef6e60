import MatrixFormula.Proofs.Formula.Fragments

/-!
# The operands of arithmetic faults

When two values cannot be combined, the fault points at the text of the first operand, at what joins
the operands, and at the text of the second one. Each of the two texts has a value on its own, these
values cannot be combined either, and the sizes that the fault names are theirs.
-/

namespace MatrixFormula

/-- The sizes that the fault names are those of the operands. -/
def ArithmeticFault.Reports (fault : ArithmeticFault) (left right : Grid Text) : Prop :=
  match fault with
  | .dimensionMismatch _ first second => first = left.dims ∧ second = right.dims
  | .nonScalarDivisor rows cols => (rows, cols) = right.dims
  | .divisionByZero => True

namespace Formula

variable {ν : Type} [Numeral ν] {store : Store} {fault : ArithmeticFault}

/-- An operator that fails names the sizes of its operands. -/
theorem Operator.reports_of_apply {operator : Operator} {left right : Grid Text}
    (fails : operator.apply ν left right = .error fault) : fault.Reports left right := by
  cases operator with
  | add | sub =>
      simp only [apply, Grid.add, Grid.sub, Grid.combine] at fails
      split at fails <;> cases fails
      exact ⟨rfl, rfl⟩
  | mul =>
      simp only [apply, Grid.mul] at fails
      repeat' split at fails
      all_goals cases fails
      exact ⟨rfl, rfl⟩
  | div =>
      simp only [apply, Grid.div] at fails
      repeat' split at fails
      all_goals cases fails
      · exact rfl
      · trivial

/-- What joins two operands: a sign with blanks around it, or nothing but blanks, which write a
product. -/
inductive Joins : Operator → Text → Text → Text → Prop where
  | sign {operator : Operator} {word : Word} {gap space : Text} {char : Char}
      (writes : signWord? char = some word) (means : word.operator? = some operator)
      (before : ∀ char ∈ gap, Text.isBlank char) (behind : ∀ char ∈ space, Text.isBlank char) :
      Joins operator gap [char] space
  | blanks {between : Text} (blank : ∀ char ∈ between, Text.isBlank char) : Joins .mul [] between []

/-- The regions are those of two parts of the source and of what joins them. Each part has a value
on its own, the operator between them cannot combine the values, and the fault names their sizes. -/
def AboutOperands (ν : Type) [Numeral ν] (store : Store) (source : Text) (fault : ArithmeticFault)
    (spans : List Span) : Prop :=
  ∃ (before left gap sign space right behind : Text) (operator : Operator) (first second : Grid Text),
    source = before ++ left ++ gap ++ sign ++ space ++ right ++ behind ∧
    spans = [.ofText (Text.byteSize before) left,
      .ofText (Text.byteSize (before ++ left ++ gap)) sign,
      .ofText (Text.byteSize (before ++ left ++ gap ++ sign ++ space)) right] ∧
    Joins operator gap sign space ∧
    evaluate ν store left = .ok first ∧ evaluate ν store right = .ok second ∧
    operator.apply ν first second = .error fault ∧ fault.Reports first second

theorem Halts.not_arithmetic {stop : Nat} {words : List Lexeme} {diagnostic : Diagnostic}
    (halts : Halts stop words diagnostic) (fault : ArithmeticFault) :
    diagnostic.fault ≠ .arithmetic fault := by
  cases halts <;> exact nofun

theorem not_arithmetic_of_nameValue {name : Text} {span : Span} {diagnostic : Diagnostic}
    (failed : nameValue store name span = .error diagnostic) (fault : ArithmeticFault) :
    diagnostic.fault ≠ .arithmetic fault := by
  unfold nameValue at failed
  repeat' split at failed
  all_goals cases failed
  all_goals exact nofun

/-- An expression with a value is written by a part of the text behind some blanks, and this part has
the same value on its own. -/
theorem Derives.exists_operand (ν : Type) [Numeral ν] {offset : Nat} {text : Text}
    {block others : List Lexeme} {expr : Expr} {grid : Grid Text} (derives : Derives 1 block expr)
    (keyed : Keyed store) (cut : lexemes store offset text = block ++ others)
    (value : expr.value ν store = .ok grid) :
    ∃ blanks operand rest, text = blanks ++ operand ++ rest ∧
      (∀ char ∈ blanks, Text.isBlank char) ∧
      expr.span = .ofText (offset + blanks.byteSize) operand ∧
      evaluate ν store operand = .ok grid ∧
      lexemes store (offset + (blanks ++ operand).byteSize) rest = others := by
  obtain ⟨blanks, operand, rest, parts, blank, span, words, tail⟩ := derives.exists_fragment keyed cut
  exact ⟨blanks, operand, rest, parts, blank, span, evaluate_fragment ν words derives value, tail⟩

/-- The same holds of an expression with words of the source in front of it. -/
theorem Derives.exists_first_operand (ν : Type) [Numeral ν] {source : Text}
    {block others : List Lexeme} {expr : Expr} {grid : Grid Text} (derives : Derives 1 block expr)
    (keyed : Keyed store) (inside : block ++ others <:+: lexemes store 0 source)
    (value : expr.value ν store = .ok grid) :
    ∃ before operand rest behind, source = before ++ operand ++ rest ∧
      expr.span = .ofText (Text.byteSize before) operand ∧
      evaluate ν store operand = .ok grid ∧
      lexemes store (Text.byteSize (before ++ operand)) rest = others ++ behind := by
  obtain ⟨front, behind, parts⟩ := inside
  have cut : lexemes store 0 source = front ++ (block ++ (others ++ behind)) := by
    simpa using parts.symm
  obtain ⟨first, later, rfl, -⟩ := derives.exists_span_eq
  obtain ⟨passed, _, rfl, whole⟩ := exists_drop cut (by simp)
  obtain ⟨blanks, operand, rest, rfl, -, span, same, tail⟩ := derives.exists_operand ν keyed whole value
  refine ⟨passed ++ blanks, operand, rest, behind, by simp, ?_, same, ?_⟩
  · rw [span, Nat.zero_add, Text.byteSize_append]
  · rwa [List.append_assoc, Text.byteSize_append, ← Nat.zero_add passed.byteSize]

/-- An arithmetic fault points at two parts of the formula with values on their own that cannot be
combined, and at the sign or the blanks between them. -/
theorem arithmetic_fault_operands (ν : Type) [Numeral ν] (store : Store) (keyed : Keyed store)
    (source : Text) (fault : ArithmeticFault) (spans : List Span)
    (failed : evaluate ν store source = .error ⟨.arithmetic fault, spans⟩) :
    AboutOperands ν store source fault spans := by
  -- Of all reasons for a fault, only two operands that cannot be combined are arithmetic.
  have blames := blames_of_evaluate failed
  generalize same : (⟨.arithmetic fault, spans⟩ : Diagnostic) = diagnostic at blames
  cases blames with
  | halts halts => exact absurd (same ▸ rfl) (halts.not_arithmetic fault)
  | number => cases same
  | name _ unknown => exact absurd (same ▸ rfl) (not_arithmetic_of_nameValue unknown fault)
  | @operator operator lexeme former latter leftExpr rightExpr first second _ inside sign begins ends
      leftValue rightValue fails =>
      cases same
      obtain ⟨before, left, _, _, rfl, leftSpan, leftSame, others⟩ :=
        begins.exists_first_operand ν keyed inside leftValue
      obtain ⟨gap, _, char, rfl, blanks, writes, signSpan, tail⟩ := exists_sign others sign
      obtain ⟨space, right, behind, rfl, after, rightSpan, rightSame, -⟩ :=
        ends.exists_operand ν keyed tail rightValue
      refine ⟨before, left, gap, [char], space, right, behind, operator, first, second, by simp, ?_,
        .sign writes sign blanks after, leftSame, rightSame, fails, Operator.reports_of_apply fails⟩
      rw [leftSpan, signSpan, rightSpan]
      simp [Nat.add_assoc]
  | @juxtaposed former latter leftExpr rightExpr first second _ inside begins ends leftValue
      rightValue fails =>
      cases same
      obtain ⟨before, left, _, _, rfl, leftSpan, leftSame, others⟩ :=
        begins.exists_first_operand ν keyed inside leftValue
      obtain ⟨space, right, behind, rfl, blank, rightSpan, rightSame, -⟩ :=
        ends.exists_operand ν keyed others rightValue
      refine ⟨before, left, [], space, [], right, behind, .mul, first, second, by simp, ?_,
        .blanks blank, leftSame, rightSame, fails, Operator.reports_of_apply fails⟩
      rw [leftSpan, rightSpan]
      simp [Span.between, Span.ofText, Nat.add_assoc]

/-- A store with one variable, which has one row and two columns. -/
def oneRow : Store :=
  Store.empty.insert ['m'] (.filled (.generate 1 2 fun _ col => if col = 0 then ['1'] else ['2']))

/-- The second operand of a failing product starts inside a run of letters. -/
theorem arithmetic_fault_operands_split :
    Keyed oneRow ∧ evaluate ℚ oneRow "3mm" =
      .error ⟨.arithmetic (.dimensionMismatch .multiply (1, 2) (1, 2)), [⟨0, 2⟩, ⟨2, 2⟩, ⟨2, 3⟩]⟩ ∧
    AboutOperands ℚ oneRow "3mm" (.dimensionMismatch .multiply (1, 2) (1, 2))
      [⟨0, 2⟩, ⟨2, 2⟩, ⟨2, 3⟩] := by
  have keyed : Keyed oneRow := by decide
  have failed : evaluate ℚ oneRow "3mm" = .error ⟨.arithmetic (.dimensionMismatch .multiply
      (1, 2) (1, 2)), [⟨0, 2⟩, ⟨2, 2⟩, ⟨2, 3⟩]⟩ := by decide +kernel
  exact ⟨keyed, failed, arithmetic_fault_operands ℚ oneRow keyed _ _ _ failed⟩

end Formula

end MatrixFormula
