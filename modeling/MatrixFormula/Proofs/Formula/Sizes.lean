import MatrixFormula.Formula.Value
import MatrixFormula.Proofs.Decimal.Rational
import MatrixFormula.Proofs.Formula.Spelling

/-!
# Sizes do not depend on cells

Which variables are known, how large they are and which of them have cells decides whether a
formula has a value, how large the value is, and which fault it has otherwise. What the cells
hold matters to a divisor alone, which must not be zero. So stores that differ in nothing but the
contents of cells lead to grids of one size or to the same report, unless one of the two
evaluations divides by zero.
-/

namespace MatrixFormula

/-- Tensors that differ at most in what their cells hold. -/
structure Tensor.SameShape (first second : Tensor) : Prop where
  rows : first.rows = second.rows
  cols : first.cols = second.cols
  filled : first.cells?.isSome = second.cells?.isSome

/-- Stores that differ at most in what the cells of their variables hold. -/
structure Store.SameShapes (first second : Store) : Prop where
  names : first.names = second.names
  tensors : ∀ name tensor other, first.get? name = some tensor → second.get? name = some other →
    tensor.SameShape other

variable {first second : Store} {name : Text}

/-- A name is known when it is among the names of the store. -/
theorem Store.contains_eq (store : Store) (name : Text) :
    store.contains name = store.names.contains name := by
  rw [Bool.eq_iff_iff, List.contains_iff_mem, mem_names_iff]

/-- Stores of the same shapes know the same names. -/
theorem Store.SameShapes.contains (same : first.SameShapes second) (name : Text) :
    first.contains name = second.contains name := by
  rw [contains_eq, contains_eq, same.names]

/-- What two such stores know under a name. -/
theorem Store.SameShapes.get? (same : first.SameShapes second) (name : Text) :
    (first.get? name = none ∧ second.get? name = none) ∨
      ∃ tensor other, first.get? name = some tensor ∧ second.get? name = some other ∧
        tensor.SameShape other := by
  have known := same.contains name
  unfold Store.contains at known
  cases found : first.get? name with
  | none =>
      rw [found] at known
      exact .inl ⟨rfl, Option.isSome_eq_false_iff.mp known.symm |> Option.isNone_iff_eq_none.mp⟩
  | some tensor =>
      rw [found] at known
      obtain ⟨other, also⟩ := Option.isSome_iff_exists.mp known.symm
      exact .inr ⟨tensor, other, rfl, also, same.tensors name tensor other found also⟩

/-! ## Computations that go on alike -/

/-- Two outcomes that differ at most in related values, unless one of them is an exempt fault. -/
inductive Parallel {ε α β : Type} (exempt : ε → Prop) (related : α → β → Prop) :
    Except ε α → Except ε β → Prop where
  | ok {value : α} {other : β} (same : related value other) :
      Parallel exempt related (.ok value) (.ok other)
  | error (fault : ε) : Parallel exempt related (.error fault) (.error fault)
  | first {fault : ε} (exempted : exempt fault) (outcome : Except ε β) :
      Parallel exempt related (.error fault) outcome
  | second {fault : ε} (exempted : exempt fault) (outcome : Except ε α) :
      Parallel exempt related outcome (.error fault)

namespace Parallel

variable {ε α β γ δ : Type} {exempt : ε → Prop} {related : α → β → Prop} {next : γ → δ → Prop}
  {outcome : Except ε α} {other : Except ε β}

/-- Computations stay alike when they go on alike from related values. -/
theorem bind (parallel : Parallel exempt related outcome other) {proceed : α → Except ε γ}
    {follow : β → Except ε δ}
    (steps : ∀ value same, related value same → Parallel exempt next (proceed value) (follow same)) :
    Parallel exempt next (outcome >>= proceed) (other >>= follow) := by
  cases parallel with
  | ok same => exact steps _ _ same
  | error fault => exact .error fault
  | first exempted => exact .first exempted _
  | second exempted => exact .second exempted _

/-- Parallel outcomes stay parallel when their values are changed alike. -/
theorem map (parallel : Parallel exempt related outcome other) {change : α → γ} {alter : β → δ}
    (keeps : ∀ value same, related value same → next (change value) (alter same)) :
    Parallel exempt next (outcome.map change) (other.map alter) := by
  cases parallel with
  | ok same => exact .ok (keeps _ _ same)
  | error fault => exact .error fault
  | first exempted => exact .first exempted _
  | second exempted => exact .second exempted _

/-- Outcomes that are no exempt faults both succeed with related values or fail alike. -/
theorem resolve (parallel : Parallel exempt related outcome other)
    (proper : ∀ fault, outcome = .error fault → ¬ exempt fault)
    (properToo : ∀ fault, other = .error fault → ¬ exempt fault) :
    (∃ value same, outcome = .ok value ∧ other = .ok same ∧ related value same) ∨
      ∃ fault, outcome = .error fault ∧ other = .error fault := by
  cases parallel with
  | ok same => exact .inl ⟨_, _, rfl, rfl, same⟩
  | error fault => exact .inr ⟨fault, rfl, rfl⟩
  | first exempted => exact absurd exempted (proper _ rfl)
  | second exempted => exact absurd exempted (properToo _ rfl)

end Parallel

/-! ## Grids of one size -/

/-- Whether a fault is a division by zero. -/
def ArithmeticFault.IsZeroDivision (fault : ArithmeticFault) : Prop := fault = .divisionByZero

namespace Grid

/-- Two grids of one size. -/
def SameSize (first second : Grid Text) : Prop := first.dims = second.dims

variable {ν : Type} [Numeral ν] {left right other another : Grid Text}

theorem SameSize.rows (same : left.SameSize other) : left.rows = other.rows :=
  congrArg Prod.fst same

theorem SameSize.cols (same : left.SameSize other) : left.cols = other.cols :=
  congrArg Prod.snd same

/-- Grids of one size are both of one cell, or neither is. -/
theorem SameSize.isScalar (same : left.SameSize other) : left.isScalar = other.isScalar := by
  rw [Grid.isScalar, Grid.isScalar, same.rows, same.cols]

/-- Transposed grids have one size when the grids do. -/
theorem SameSize.transpose (same : left.SameSize other) :
    left.transpose.SameSize other.transpose := by
  rw [SameSize, dims, dims, rows_transpose, cols_transpose, rows_transpose, cols_transpose,
    same.rows, same.cols]

/-- Whether two grids can be combined, and how large the outcome is, depends on their sizes. -/
theorem SameSize.combine {exempt : ArithmeticFault → Prop} (first : left.SameSize other)
    (second : right.SameSize another) (combination : Combination) (cell : Text → Text → Text) :
    Parallel exempt SameSize (Grid.combine combination cell left right)
      (Grid.combine combination cell other another) := by
  unfold Grid.combine
  by_cases fits : left.rows = right.rows ∧ left.cols = right.cols
  · have also : other.rows = another.rows ∧ other.cols = another.cols := by
      rwa [first.rows, first.cols, second.rows, second.cols] at fits
    rw [dif_pos fits, dif_pos also]
    exact .ok first
  · have also : ¬ (other.rows = another.rows ∧ other.cols = another.cols) := by
      rwa [first.rows, first.cols, second.rows, second.cols] at fits
    rw [dif_neg fits, dif_neg also, first, second]
    exact .error _

/-- Products of grids of the same sizes have one size or the same fault. -/
theorem SameSize.mul {exempt : ArithmeticFault → Prop} (first : left.SameSize other)
    (second : right.SameSize another) :
    Parallel exempt SameSize (Grid.mul ν left right) (Grid.mul ν other another) := by
  unfold Grid.mul
  rw [first.isScalar, second.isScalar]
  by_cases scales : other.isScalar
  · rw [if_pos scales, if_pos scales]
    exact .ok second
  · rw [if_neg scales, if_neg scales]
    by_cases scaled : another.isScalar
    · rw [if_pos scaled, if_pos scaled]
      exact .ok first
    · rw [if_neg scaled, if_neg scaled]
      by_cases fits : left.cols = right.rows
      · rw [dif_pos fits, dif_pos (by rwa [first.cols, second.rows] at fits)]
        exact .ok (Prod.ext first.rows second.cols)
      · rw [dif_neg fits, dif_neg (by rwa [first.cols, second.rows] at fits), first, second]
        exact .error _

/-- A quotient alone looks at a cell, which must not be zero. -/
theorem SameSize.div (first : left.SameSize other) (second : right.SameSize another) :
    Parallel ArithmeticFault.IsZeroDivision SameSize (Grid.div ν left right)
      (Grid.div ν other another) := by
  unfold Grid.div
  rw [second.isScalar, second.rows, second.cols]
  split
  · exact .error _
  · split
    · have zero : ArithmeticFault.IsZeroDivision .divisionByZero := rfl
      exact .first zero _
    · split
      · have zero : ArithmeticFault.IsZeroDivision .divisionByZero := rfl
        exact .second zero _
      · exact .ok first

end Grid

namespace Formula

variable {ν : Type} [Numeral ν]

/-- An operator on grids of the same sizes gives grids of one size or the same fault, except for a
division by zero. -/
theorem Operator.apply_sameSize (operator : Operator) {left right other another : Grid Text}
    (first : left.SameSize other) (second : right.SameSize another) :
    Parallel ArithmeticFault.IsZeroDivision Grid.SameSize (operator.apply ν left right)
      (operator.apply ν other another) := by
  cases operator with
  | add => exact first.combine second _ _
  | sub => exact first.combine second _ _
  | mul => exact first.mul second
  | div => exact first.div second

/-! ## Values -/

/-- Whether a report is about a division by zero. -/
def DividesByZero (diagnostic : Diagnostic) : Prop :=
  diagnostic.fault = .arithmetic .divisionByZero

/-- A name stands for grids of one size, or has the same fault. -/
theorem nameValue_parallel (same : first.SameShapes second) (name : Text) (span : Span) :
    Parallel DividesByZero Grid.SameSize (nameValue first name span)
      (nameValue second name span) := by
  unfold nameValue
  rcases same.get? name with ⟨unknown, also⟩ | ⟨tensor, other, found, also, alike⟩
  · rw [unknown, also]
    have similar : first.similar name = second.similar name := by
      rw [Store.similar, Store.similar, same.names]
    cases Name.constant? name with
    | none => simpa only [similar] using .error _
    | some cell => exact .ok rfl
  · rw [found, also]
    obtain ⟨rows, cols, filled⟩ := alike
    cases tensor with
    | filled cells =>
        cases other with
        | filled others =>
            exact .ok (Prod.ext (Dim.fixed.inj rows) (Dim.fixed.inj cols))
        | placeholder => cases filled
    | placeholder height width =>
        cases other with
        | filled => cases filled
        | placeholder =>
            obtain rfl : height = _ := rows
            obtain rfl : width = _ := cols
            exact .error _

/-- An expression has values of one size, or the same fault. -/
theorem Expr.value_parallel (same : first.SameShapes second) (expr : Expr) :
    Parallel DividesByZero Grid.SameSize (expr.value ν first) (expr.value ν second) := by
  induction expr with
  | number lexeme span =>
      simp only [value, numberValue]
      split
      · exact .ok rfl
      · exact .error _
  | name text span => exact nameValue_parallel same text span
  | negation start operand ih => exact ih.map fun _ _ sizes => sizes
  | transpose operand stop ih => exact ih.map fun _ _ sizes => sizes.transpose
  | group span inner ih => exact ih
  | binary operator sign? left right ihLeft ihRight =>
      refine ihLeft.bind fun grid other first => ihRight.bind fun divisor another second => ?_
      have applied := operator.apply_sameSize (ν := ν) first second
      have located {fault : ArithmeticFault} (zero : fault.IsZeroDivision) (spans : List Span) :
          DividesByZero ⟨.arithmetic fault, spans⟩ := congrArg Fault.arithmetic zero
      generalize operator.apply ν grid divisor = outcome at applied ⊢
      generalize operator.apply ν other another = follows at applied ⊢
      cases applied with
      | ok sizes => exact .ok sizes
      | error fault => exact .error _
      | first exempted => exact .first (located exempted _) _
      | second exempted => exact .second (located exempted _) _

/-- A formula is read alike over stores of the same shapes. -/
theorem parse_congr (same : first.SameShapes second) (source : Text) :
    parse first source = parse second source := by
  have leads (run : Text) : leadingName first run = leadingName second run :=
    leadingName_congr fun name _ => same.contains name
  rw [parse, parse, lexemes_congr fun run _ => leads run]

/-- Complete operands have their say alike. -/
theorem mapM_value_parallel (same : first.SameShapes second) (exprs : List Expr) :
    Parallel DividesByZero (fun _ _ => True) (exprs.mapM (Expr.value ν first))
      (exprs.mapM (Expr.value ν second)) := by
  induction exprs with
  | nil => exact .ok trivial
  | cons expr exprs ih =>
      rw [List.mapM_cons, List.mapM_cons]
      exact (expr.value_parallel same).bind fun _ _ _ => ih.bind fun _ _ _ => .ok trivial

/-- Formulas whose variables have the same sizes have values of one size or the same report,
unless one of them divides by zero. -/
theorem evaluate_sameShapes (ν : Type) [Numeral ν] (first second : Store)
    (same : first.SameShapes second) (source : Text)
    (proper : ∀ diagnostic, evaluate ν first source = .error diagnostic → ¬ DividesByZero diagnostic)
    (properToo : ∀ diagnostic, evaluate ν second source = .error diagnostic →
      ¬ DividesByZero diagnostic) :
    (∃ grid other, evaluate ν first source = .ok grid ∧ evaluate ν second source = .ok other ∧
        grid.dims = other.dims) ∨
      ∃ diagnostic, evaluate ν first source = .error diagnostic ∧
        evaluate ν second source = .error diagnostic := by
  have parallel : Parallel DividesByZero Grid.SameSize (evaluate ν first source)
      (evaluate ν second source) := by
    rw [evaluate, evaluate, parse_congr same]
    cases parse second source with
    | ok expr => exact expr.value_parallel same
    | error stop =>
        have completed : Parallel DividesByZero (fun _ _ => True)
            (discard (stop.completed.mapM (Expr.value ν first)))
            (discard (stop.completed.mapM (Expr.value ν second))) :=
          (mapM_value_parallel same stop.completed).map fun _ _ _ => trivial
        exact completed.bind fun _ _ _ => .error stop.diagnostic
  exact parallel.resolve proper properToo

/-- A store with a column of two cells and a divisor. -/
def divided (upper lower divisor : Text) : Store :=
  (Store.empty.insert ['v'] (.filled (.generate 2 1 fun row _ =>
    if row = 0 then upper else lower))).insert ['d'] (.filled (.scalar divisor))

/-- The column and the divisor keep their shapes, whatever their cells hold. -/
theorem divided_sameShapes (upper lower divisor other another last : Text) :
    (divided upper lower divisor).SameShapes (divided other another last) := by
  refine ⟨rfl, fun name tensor same found also => ?_⟩
  simp only [divided, Store.get?_insert] at found also
  by_cases divides : name = ['d']
  · rw [if_pos divides] at found also
    cases found
    cases also
    exact ⟨rfl, rfl, rfl⟩
  · rw [if_neg divides] at found also
    by_cases column : name = ['v']
    · rw [if_pos column] at found also
      cases found
      cases also
      exact ⟨rfl, rfl, rfl⟩
    · rw [if_neg column] at found
      cases found

/-- A column of numbers and a column of letters lead to different quotients of one size. -/
theorem evaluate_sameShapes_divided :
    ∃ grid other, evaluate ℚ (divided ['1'] ['2'] ['3']) ("v v^T v / d" : String) = .ok grid ∧
      evaluate ℚ (divided ['a'] ['b'] ['c']) ("v v^T v / d" : String) = .ok other ∧
      grid.dims = other.dims ∧ grid ≠ other := by
  have proper {outcome : Except Diagnostic (Grid Text)} (valued : outcome.toOption.isSome)
      (diagnostic : Diagnostic) : outcome ≠ .error diagnostic := by
    rintro rfl
    cases valued
  have numbers := @proper (evaluate ℚ (divided ['1'] ['2'] ['3']) ("v v^T v / d" : String))
    (by decide +kernel)
  have letters := @proper (evaluate ℚ (divided ['a'] ['b'] ['c']) ("v v^T v / d" : String))
    (by decide +kernel)
  have apart : evaluate ℚ (divided ['1'] ['2'] ['3']) ("v v^T v / d" : String) ≠
      evaluate ℚ (divided ['a'] ['b'] ['c']) ("v v^T v / d" : String) := by decide +kernel
  rcases evaluate_sameShapes ℚ _ _ (divided_sameShapes ['1'] ['2'] ['3'] ['a'] ['b'] ['c'])
      ("v v^T v / d" : String) (fun diagnostic failed => absurd failed (numbers diagnostic))
      (fun diagnostic failed => absurd failed (letters diagnostic)) with
    ⟨grid, other, first, second, sizes⟩ | ⟨diagnostic, failed, -⟩
  · refine ⟨grid, other, first, second, sizes, fun same => apart ?_⟩
    rw [first, second, same]
  · exact absurd failed (numbers diagnostic)

end Formula

end MatrixFormula
