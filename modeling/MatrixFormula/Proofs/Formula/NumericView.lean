import MatrixFormula.Proofs.Cell.Total
import MatrixFormula.Proofs.Formula.Numbers

/-!
# The numeric view of a computed result

The cells that are computed from numbers may be sums that were never added up. Where such a
cell has a numeric value, that value is the exact one unless the cell has two minus signs in a
row: the numeric value passes over the first of them, whereas cell arithmetic subtracts a
negative number by writing both.
-/

namespace MatrixFormula.Formula

variable {ν : Type} [Numeral ν] {safe : ℚ → Prop} {stands : ν → ℚ → Prop} {store : Store}
  {expr : Expr} {grid : Grid Text}

/-- The numeric value of a cell that denotes a number is that number exactly when no minus sign
stands directly before another one. -/
theorem stands_iff_singleMinus (faithful : Numeral.Exact ν safe stands) {σ : Text → ℚ}
    {cell : Text} {number : ℚ} (reads : Cell.Reads .numeric σ cell number) {value : ν}
    (total : Cell.total? ν cell = some value)
    (safely : Cell.SafeAddends safe (Cell.cleaned cell)) :
    stands value number ↔ Cell.SingleMinus (Cell.cleaned cell) := by
  have sum := Cell.stands_of_total? faithful total safely
  rw [← (reads.totals (Cell.isNumeric_of_total? total)).exact_iff]
  exact ⟨fun right => faithful.unique sum right, fun same => same ▸ sum⟩

/-- Whatever number a formula of numbers should have in a cell, the numeric value of the computed
cell is that number exactly when the cell does not have two minus signs in a row. The same
holds for the numeric view of the whole result. -/
theorem numericView_exact_iff (faithful : Numeral.Exact ν safe stands) {source : Text}
    (numbers : HoldsNumbers store) (read : parse store source = .ok expr)
    (polynomial : expr.isPolynomial store) (safely : expr.IsSafe safe store)
    (done : evaluate ν store source = .ok grid)
    (safeSums : grid.All fun cell => (Cell.total? ν cell).isSome →
      Cell.SafeAddends safe (Cell.cleaned cell)) :
    ∃ truth, expr.numbers? store = some truth ∧
      ∃ (rows : grid.rows = truth.rows) (cols : grid.cols = truth.cols), ∀ row col,
        let number := truth.entry (row.cast rows) (col.cast cols)
        let single := Cell.SingleMinus (Cell.cleaned (grid.entry row col))
        (∀ value, Cell.total? ν (grid.entry row col) = some value → (stands value number ↔ single)) ∧
        ∀ values, (Tensor.filled grid).numeric? ν = some values →
          ∃ value, values.get? row col = some value ∧ (stands value number ↔ single) := by
  rw [evaluate, read] at done
  obtain ⟨truth, found, rows, cols, reads⟩ :=
    reads_of_value (δ := .numeric) (σ := fun _ => 0) faithful trivial numbers polynomial safely
      done
  have one (row col) (value : ν) (total : Cell.total? ν (grid.entry row col) = some value) :
      stands value (truth.entry (row.cast rows) (col.cast cols)) ↔
        Cell.SingleMinus (Cell.cleaned (grid.entry row col)) :=
    stands_iff_singleMinus faithful (reads row col) total
      (safeSums row col (Option.isSome_of_eq_some total))
  refine ⟨truth, found, rows, cols, fun row col => ⟨one row col, fun values view => ?_⟩⟩
  obtain ⟨viewRows, viewCols, each⟩ := Grid.related_of_mapAll? view
  have inside : (row : Nat) < values.rows ∧ (col : Nat) < values.cols :=
    ⟨viewRows ▸ row.isLt, viewCols ▸ col.isLt⟩
  exact ⟨_, dif_pos inside, one row col _ (each row col)⟩

/-- A store with the row `1 3` and the column `2 4`. -/
def factors : Store :=
  (Store.empty.insert ['A'] (.filled (.generate 1 2 fun _ col =>
    if col = 0 then ['1'] else ['3']))).insert ['B']
      (.filled (.generate 2 1 fun row _ => if row = 0 then ['2'] else ['4']))

/-- The product of the two factors, less minus three. -/
def lessNegative : Expr :=
  .binary .sub (some ⟨4, 5⟩) (.binary .mul none (.name ['A'] ⟨0, 1⟩) (.name ['B'] ⟨2, 3⟩))
    (.negation 6 (.number ['3'] ⟨7, 8⟩))

theorem parse_lessNegative : parse factors "A B - -3" = .ok lessNegative := by decide +kernel

theorem evaluate_lessNegative :
    evaluate ℚ factors "A B - -3" = .ok (.scalar "2 + 12 - -3") := by decide +kernel

/-- The numeric view of the result is eleven, and the exact value is seventeen. -/
theorem numericView_lessNegative :
    HoldsNumbers factors ∧ parse factors "A B - -3" = .ok lessNegative ∧
      lessNegative.isPolynomial factors ∧
      (evaluate ℚ factors "A B - -3").toOption.bind (Tensor.numeric? ℚ ∘ .filled) =
        some (.scalar 11) ∧
      lessNegative.numbers? factors = some (.scalar 17) := by
  refine ⟨by decide +kernel, parse_lessNegative, by decide +kernel, ?_, by decide +kernel⟩
  rw [evaluate_lessNegative]
  decide +kernel

/-- The numeric value of `2 + 12 - -3` is not the exact value of the formula that evaluates to
it, since two minus signs stand in a row. -/
theorem numericView_exact_iff_lessNegative :
    ∃ truth, lessNegative.numbers? factors = some truth ∧
      ∃ (rows : 1 = truth.rows) (cols : 1 = truth.cols),
        Cell.total? ℚ "2 + 12 - -3" = some 11 ∧
          ¬ (11 : ℚ) = truth.entry ((0 : Fin 1).cast rows) ((0 : Fin 1).cast cols) := by
  have safely : lessNegative.IsSafe (fun _ => True) factors :=
    fun _ _ => ⟨fun _ _ _ _ => trivial, fun _ _ _ _ _ _ _ _ _ _ _ _ => trivial⟩
  have total : Cell.total? ℚ "2 + 12 - -3" = some 11 := by decide +kernel
  have doubled : ¬ Cell.SingleMinus (Cell.cleaned "2 + 12 - -3") := by decide +kernel
  obtain ⟨truth, found, rows, cols, each⟩ :=
    numericView_exact_iff (Rational.exact ℚ) (by decide +kernel) parse_lessNegative
      (by decide +kernel) safely evaluate_lessNegative
      (fun _ _ _ => ⟨fun _ _ => trivial, fun _ _ => trivial⟩)
  refine ⟨truth, found, rows, cols, total, fun same => doubled ?_⟩
  exact ((each (0 : Fin 1) (0 : Fin 1)).1 11 total).mp same

end MatrixFormula.Formula
