import MatrixFormula.Proofs.Formula.Denotation
import MatrixFormula.Proofs.Store

/-!
# Formulas of numbers

A formula without quotients that is built from numbers and from variables whose cells are
numbers has an exact value, computed with matrices of rational numbers. When it evaluates to a
grid, the cells of the grid are terms for the entries of the exact value, as long as no number
on the way leaves the range in which the numerals are exact.
-/

namespace MatrixFormula.Formula

/-- The number that a text writes as a decimal. -/
def number? (text : Text) : Option ℚ := (Decimal.read? text).map (Decimal.value ℚ)

/-- The exact value of a formula of numbers. -/
def Expr.numbers? (store : Store) : Expr → Option (Grid ℚ)
  | .number lexeme _ => (number? lexeme).map .scalar
  | .name text _ => (store.get? text).bind fun tensor => tensor.cells?.bind (Grid.mapAll? number?)
  | .negation _ operand => (operand.numbers? store).map Grid.opposite
  | .transpose operand _ => (operand.numbers? store).map Grid.transpose
  | .group _ inner => inner.numbers? store
  | .binary .add _ left right => do (← left.numbers? store).sum? (← right.numbers? store)
  | .binary .sub _ left right => do (← left.numbers? store).difference? (← right.numbers? store)
  | .binary .mul _ left right => do (← left.numbers? store).product? (← right.numbers? store)
  | .binary .div _ _ _ => none

/-- Whether a formula has no quotients and no names but those of variables. -/
def Expr.isPolynomial (store : Store) : Expr → Bool
  | .number _ _ => true
  | .name text _ => store.contains text
  | .negation _ operand => operand.isPolynomial store
  | .transpose operand _ => operand.isPolynomial store
  | .group _ inner => inner.isPolynomial store
  | .binary operator _ left right =>
      operator != .div && left.isPolynomial store && right.isPolynomial store

/-- Whether all cells of all variables are numbers. -/
def HoldsNumbers (store : Store) : Prop :=
  ∀ entry ∈ store.entries, ∀ cells ∈ entry.2.cells?,
    cells.All fun cell => Decimal.isDecimal cell

instance (store : Store) : Decidable (HoldsNumbers store) :=
  inferInstanceAs (Decidable (∀ entry ∈ store.entries, ∀ cells ∈ entry.2.cells?,
    ∀ row col, Decimal.isDecimal (cells.entry row col)))

/-- Whether the exact values of all parts of a formula are safe, and so are the products that
its matrix products add up. -/
def Expr.IsSafe (safe : ℚ → Prop) (store : Store) (expr : Expr) : Prop :=
  ∀ node ∈ expr.postorder,
    (∀ numbers, node.numbers? store = some numbers → numbers.All safe) ∧
      ∀ sign? left right, node = .binary .mul sign? left right →
        ∀ first second, left.numbers? store = some first → right.numbers? store = some second →
          first.AllProducts safe second

variable {ν : Type} [Numeral ν] {safe : ℚ → Prop} {stands : ν → ℚ → Prop} {store : Store}
  {σ : Text → ℚ} {expr left right : Expr} {grid : Grid Text}

/-- The cells of a variable are numbers. -/
theorem HoldsNumbers.all {name : Text} (numbers : HoldsNumbers store)
    (found : store.get? name = some (.filled grid)) :
    grid.All fun cell => Decimal.isDecimal cell :=
  numbers (name, .filled grid) (Store.mem_entries_iff.mpr found) grid rfl

/-- An expression is one of its own nodes. -/
theorem Expr.mem_postorder (expr : Expr) : expr ∈ expr.postorder := by
  cases expr <;> simp [Expr.postorder]

/-- The exact value of a safe formula is safe. -/
theorem Expr.IsSafe.all {numbers : Grid ℚ} (safely : expr.IsSafe safe store)
    (value : expr.numbers? store = some numbers) : numbers.All safe :=
  (safely expr expr.mem_postorder).1 numbers value

/-- The operand of a safe formula is safe. -/
theorem Expr.IsSafe.operand {operand : Expr} (safely : expr.IsSafe safe store)
    (above : (∃ start, expr = .negation start operand) ∨ (∃ stop, expr = .transpose operand stop) ∨
      ∃ span, expr = .group span operand) : operand.IsSafe safe store := by
  intro node member
  refine safely node ?_
  rcases above with ⟨_, rfl⟩ | ⟨_, rfl⟩ | ⟨_, rfl⟩ <;> simp [Expr.postorder, member]

/-- Both operands of a safe formula are safe. -/
theorem Expr.IsSafe.operands {operator : Operator} {sign? : Option Span}
    (safely : (Expr.binary operator sign? left right).IsSafe safe store) :
    left.IsSafe safe store ∧ right.IsSafe safe store :=
  ⟨fun node member => safely node (by simp [Expr.postorder, member]),
    fun node member => safely node (by simp [Expr.postorder, member])⟩

/-- A decimal is a literal of every dialect with plus signs. -/
theorem signedLiteral_of_read? {δ : Cell.Dialect} (plus : δ.allowsPlus) {text : Text}
    {decimal : Decimal} (read : Decimal.read? text = some decimal) :
    Cell.SignedLiteral δ text (decimal.value ℚ) := by
  rcases Decimal.cases_of_read? read with
    ⟨unsigned, rfl⟩ | ⟨sign, digits, rfl, unsigned, ⟨rfl, rfl⟩ | ⟨rfl, rfl⟩⟩
  · exact .bare unsigned
  · rw [Decimal.value_ofUnsigned_true]
    exact .minus unsigned
  · exact .plus plus unsigned

/-- The cells of a grid of numbers are literals for the numbers. -/
theorem reads_of_numbers {δ : Cell.Dialect} (plus : δ.allowsPlus)
    (numbers : grid.All fun cell => Decimal.isDecimal cell) :
    ∃ truth, grid.mapAll? number? = some truth ∧ grid.Reads δ σ truth := by
  have readable : grid.All fun cell => (number? cell).isSome := fun row col => by
    simpa [number?, Decimal.isDecimal] using numbers row col
  obtain ⟨truth, found⟩ := Option.isSome_iff_exists.mp (Grid.isSome_mapAll? readable)
  refine ⟨truth, found, (Grid.related_of_mapAll? found).mono fun cell number value => ?_⟩
  obtain ⟨decimal, read, rfl⟩ := Option.map_eq_some_iff.mp value
  exact (signedLiteral_of_read? plus read).reads

section Exact

variable (faithful : Numeral.Exact ν safe stands)

include faithful

/-- A formula of numbers that evaluates has an exact value, and its cells are terms for the
entries of that value. -/
theorem reads_of_value {δ : Cell.Dialect} (plus : δ.allowsPlus) (numbers : HoldsNumbers store)
    (polynomial : expr.isPolynomial store) (safely : expr.IsSafe safe store)
    (done : expr.value ν store = .ok grid) :
    ∃ truth, expr.numbers? store = some truth ∧ grid.Reads δ σ truth := by
  induction expr generalizing grid with
  | number lexeme span =>
      obtain ⟨decimal, found, reads⟩ := reads_of_numberValue faithful done
      have value : (Expr.number lexeme span).numbers? store = some (.scalar (decimal.value ℚ)) := by
        simp [Expr.numbers?, number?, found]
      have safeNumber := Grid.all_ofFn.mp (safely.all value) ⟨0, by omega⟩ ⟨0, by omega⟩
      exact ⟨_, value, reads safeNumber⟩
  | name text span =>
      obtain ⟨tensor, found⟩ := Option.isSome_iff_exists.mp polynomial
      simp only [Expr.value, nameValue, found] at done
      cases tensor with
      | placeholder => cases done
      | filled cells =>
          cases done
          obtain ⟨truth, value, reads⟩ := reads_of_numbers plus (numbers.all found)
          exact ⟨truth, by simpa [Expr.numbers?, found, Tensor.cells?] using value, reads⟩
  | negation start operand ih =>
      obtain ⟨cells, inner, rfl⟩ := exists_of_map_eq_ok done
      have below := safely.operand (.inl ⟨start, rfl⟩)
      obtain ⟨truth, value, reads⟩ := ih polynomial below inner
      exact ⟨_, congrArg (Option.map Grid.opposite) value, reads.neg faithful (below.all value)⟩
  | transpose operand stop ih =>
      obtain ⟨cells, inner, rfl⟩ := exists_of_map_eq_ok done
      have below := safely.operand (.inr (.inl ⟨stop, rfl⟩))
      obtain ⟨truth, value, reads⟩ := ih polynomial below inner
      exact ⟨_, congrArg (Option.map Grid.transpose) value, reads.transpose⟩
  | group span inner ih => exact ih polynomial (safely.operand (.inr (.inr ⟨span, rfl⟩))) done
  | binary operator sign? left right first second =>
      obtain ⟨leftGrid, rightGrid, leftDone, rightDone, applied⟩ := operands_of_value done
      simp only [Expr.isPolynomial, Bool.and_eq_true, bne_iff_ne] at polynomial
      obtain ⟨⟨noQuotient, leftPolynomial⟩, rightPolynomial⟩ := polynomial
      obtain ⟨leftSafely, rightSafely⟩ := safely.operands
      obtain ⟨leftExact, leftValue, leftReads⟩ := first leftPolynomial leftSafely leftDone
      obtain ⟨rightExact, rightValue, rightReads⟩ := second rightPolynomial rightSafely rightDone
      have productsSafe (product : operator = .mul) : leftExact.AllProducts safe rightExact :=
        (safely _ (Expr.mem_postorder _)).2 sign? left right (product ▸ rfl)
          leftExact rightExact leftValue rightValue
      obtain ⟨truth, outcome, reads⟩ := reads_of_apply faithful leftReads rightReads
        (leftSafely.all leftValue) (rightSafely.all rightValue) productsSafe applied
      have value : (Expr.binary operator sign? left right).numbers? store = some truth := by
        cases operator with
        | div => exact absurd rfl noQuotient
        | _ => simpa [Expr.numbers?, Operator.outcome?, leftValue, rightValue] using outcome
      exact ⟨truth, value, reads (safely.all value)⟩

end Exact

end MatrixFormula.Formula
