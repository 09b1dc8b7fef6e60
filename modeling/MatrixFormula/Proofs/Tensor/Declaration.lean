import MatrixFormula.Tensor.Basic

/-!
# What a declaration makes

Two dimensions that are numbers ask for a grid of that size, which is made when it is a possible
one and refused when it is not. Any other pair of dimensions makes a placeholder. This is what
declarations do as long as the numbers are below the limit of sizes: a number beyond it is kept as
text, so that a placeholder is made where the size should be refused.
-/

namespace MatrixFormula

/-! ## Grids of a declared size -/

/-- A grid is possible when it has a cell and not too many. -/
theorem cellCount?_isSome_iff {rows cols : Nat} :
    (cellCount? rows cols).isSome ↔ 1 ≤ rows * cols ∧ rows * cols ≤ maxCells := by
  simp [cellCount?]

/-- A possible grid has the size that was declared. -/
theorem dims_generate {α : Type} {rows cols : Nat} (possible : (cellCount? rows cols).isSome)
    (cell : Nat → Nat → α) : (Grid.generate rows cols cell).dims = (rows, cols) := by
  obtain ⟨some, -⟩ := cellCount?_isSome_iff.mp possible
  have high : 1 ≤ rows := Nat.pos_of_mul_pos_right some
  have wide : 1 ≤ cols := Nat.pos_of_mul_pos_left some
  simp [Grid.dims, Grid.generate, Nat.max_eq_left high, Nat.max_eq_left wide]

/-- A generated grid has the cells that were computed. -/
theorem entry_generate {α : Type} {rows cols : Nat} {cell : Nat → Nat → α}
    (row : Fin (Grid.generate rows cols cell).rows) (col : Fin (Grid.generate rows cols cell).cols) :
    (Grid.generate rows cols cell).entry row col = cell row col :=
  Grid.entry_ofFn row col

/-! ## Dimensions -/

/-- The number that a text writes, if it has only digits, and at least one, apart from blanks
around them. There is no limit to it. -/
def Text.number? (text : Text) : Option Nat :=
  let digits := Text.trim text
  if digits ≠ [] ∧ digits.all Char.isDigit then some (Text.digitsValue digits) else none

/-- A text writes a number when it consists of digits, except for blanks around them. -/
theorem Text.number?_eq_some_iff {text : Text} {size : Nat} :
    text.number? = some size ↔
      (Text.trim text ≠ [] ∧ (Text.trim text).all Char.isDigit) ∧
        Text.digitsValue (Text.trim text) = size := by
  simp [number?]

/-- A number below the limit fixes a dimension. -/
theorem Dim.ofText_of_lt {text : Text} {size : Nat} (writes : text.number? = some size)
    (low : size < Dim.sizeLimit) : Dim.ofText text = .fixed size := by
  obtain ⟨⟨nonempty, digits⟩, rfl⟩ := Text.number?_eq_some_iff.mp writes
  rw [ofText, if_pos ⟨nonempty, digits, low⟩]

/-- A number beyond the limit is kept as text. -/
theorem Dim.ofText_of_le {text : Text} {size : Nat} (writes : text.number? = some size)
    (high : Dim.sizeLimit ≤ size) : Dim.ofText text = .symbolic (Text.trim text) := by
  obtain ⟨-, rfl⟩ := Text.number?_eq_some_iff.mp writes
  rw [ofText, if_neg fun fixed => Nat.not_lt.mpr high fixed.2.2]

/-- A dimension that is no number is symbolic. -/
theorem Dim.ofText_of_none {text : Text} (other : text.number? = none) :
    Dim.ofText text = .symbolic (Text.trim text) := by
  rw [ofText, if_neg]
  rintro ⟨nonempty, digits, -⟩
  rw [Text.number?_eq_some_iff.mpr ⟨⟨nonempty, digits⟩, rfl⟩] at other
  cases other

namespace Declaration

/-! ## What is declared -/

/-- What a declaration stands for, whatever numbers its dimensions write. -/
inductive Yields (declaration : Declaration) : Except Diagnostic Tensor → Prop where
  | filled {grid : Grid Text} (high : declaration.rows.number? = some grid.rows)
      (wide : declaration.cols.number? = some grid.cols)
      (possible : 1 ≤ grid.rows * grid.cols ∧ grid.rows * grid.cols ≤ maxCells)
      (given : ∀ (row : Fin grid.rows) (col : Fin grid.cols) text,
        declaration.cells[row * grid.cols + col]? = some text → Text.trim text ≠ [] →
          grid.entry row col = Text.trim text)
      (blank : ∀ (row : Fin grid.rows) (col : Fin grid.cols),
        (∀ text, declaration.cells[row * grid.cols + col]? = some text → Text.trim text = []) →
          grid.entry row col = ['0']) :
      declaration.Yields (.ok (.filled grid))
  | refused {rows cols : Nat} (high : declaration.rows.number? = some rows)
      (wide : declaration.cols.number? = some cols)
      (impossible : ¬ (1 ≤ rows * cols ∧ rows * cols ≤ maxCells)) :
      declaration.Yields (.error ⟨.invalidDimensions rows cols, []⟩)
  | placeholder {rows cols : Dim}
      (other : declaration.rows.number? = none ∨ declaration.cols.number? = none) :
      declaration.Yields (.ok (.placeholder rows cols))

/-- Both dimensions are numbers, and one of them is beyond the limit of sizes. -/
def Exceeds (declaration : Declaration) : Prop :=
  ∃ rows cols, declaration.rows.number? = some rows ∧ declaration.cols.number? = some cols ∧
    (Dim.sizeLimit ≤ rows ∨ Dim.sizeLimit ≤ cols)

variable {declaration : Declaration} {rows cols : Nat}

/-- A cell that was given is trimmed. -/
theorem cell_of_given {index : Nat} {text : Text} (given : declaration.cells[index]? = some text)
    (shown : Text.trim text ≠ []) : declaration.cell index = Text.trim text := by
  simp [cell, given, shown]

/-- A cell that was left empty is zero. -/
theorem cell_of_blank {index : Nat}
    (blank : ∀ text, declaration.cells[index]? = some text → Text.trim text = []) :
    declaration.cell index = ['0'] := by
  cases given : declaration.cells[index]? with
  | none => simp [cell, given, Text.trim, Text.trimStart]
  | some text => simp [cell, given, blank text given]

/-- A dimension that is not fixed makes a placeholder. -/
theorem tensor?_of_symbolic {spec : Text}
    (symbolic : Dim.ofText declaration.rows = .symbolic spec ∨
      Dim.ofText declaration.cols = .symbolic spec) :
    ∃ rows cols, declaration.tensor? = .ok (.placeholder rows cols) := by
  unfold tensor?
  split
  · next high wide =>
      rw [high, wide] at symbolic
      rcases symbolic with same | same <;> cases same
  · exact ⟨_, _, rfl⟩

/-- A number beyond the limit makes a placeholder. -/
theorem Exceeds.tensor? (exceeds : declaration.Exceeds) :
    ∃ rows cols, declaration.tensor? = .ok (.placeholder rows cols) := by
  obtain ⟨rows, cols, high, wide, tall | broad⟩ := exceeds
  · exact tensor?_of_symbolic (.inl (Dim.ofText_of_le high tall))
  · exact tensor?_of_symbolic (.inr (Dim.ofText_of_le wide broad))

/-- Two numbers below the limit make a grid of that size or are refused. -/
theorem yields_of_numbers (high : declaration.rows.number? = some rows)
    (wide : declaration.cols.number? = some cols) (tall : rows < Dim.sizeLimit)
    (broad : cols < Dim.sizeLimit) : declaration.Yields declaration.tensor? := by
  unfold Declaration.tensor?
  rw [Dim.ofText_of_lt high tall, Dim.ofText_of_lt wide broad]
  simp only
  split
  · next possible =>
      obtain ⟨sameRows, sameCols⟩ := Prod.mk.inj (dims_generate possible fun row col =>
        declaration.cell (row * cols + col))
      have index (row col : Nat) : row * (Grid.generate rows cols fun row col =>
          declaration.cell (row * cols + col)).cols + col = row * cols + col :=
        congrArg (row * · + col) sameCols
      refine .filled (by rw [sameRows, high]) (by rw [sameCols, wide]) ?_
        (fun row col text given shown => ?_) fun row col blank => ?_
      · rw [sameRows, sameCols]
        exact cellCount?_isSome_iff.mp possible
      · rw [index] at given
        rw [entry_generate, cell_of_given given shown]
      · simp only [index] at blank
        rw [entry_generate, cell_of_blank blank]
  · next impossible => exact .refused high wide (mt cellCount?_isSome_iff.mpr impossible)

/-- A dimension that is no number makes a placeholder, as it should. -/
theorem yields_of_other
    (other : declaration.rows.number? = none ∨ declaration.cols.number? = none) :
    declaration.Yields declaration.tensor? := by
  obtain ⟨rows, cols, made⟩ : ∃ rows cols, declaration.tensor? = .ok (.placeholder rows cols) := by
    rcases other with none | none
    · exact tensor?_of_symbolic (.inl (Dim.ofText_of_none none))
    · exact tensor?_of_symbolic (.inr (Dim.ofText_of_none none))
  rw [made]
  exact .placeholder other

/-- A declaration makes what it stands for exactly when no dimension is a number beyond the limit
next to another number. Then it makes a placeholder. -/
theorem yields_tensor?_iff (declaration : Declaration) :
    (declaration.Yields declaration.tensor? ↔ ¬ declaration.Exceeds) ∧
      (declaration.Exceeds → ∃ rows cols, declaration.tensor? = .ok (.placeholder rows cols)) := by
  refine ⟨⟨fun yields exceeds => ?_, fun within => ?_⟩, Exceeds.tensor?⟩
  · obtain ⟨rows, cols, made⟩ := exceeds.tensor?
    obtain ⟨high, wide, tall, broad, -⟩ := exceeds
    rw [made] at yields
    cases yields with
    | placeholder other => simp [tall, broad] at other
  · cases high : declaration.rows.number? with
    | none => exact yields_of_other (.inl high)
    | some rows =>
        cases wide : declaration.cols.number? with
        | none => exact yields_of_other (.inr wide)
        | some cols =>
            have low : ¬ (Dim.sizeLimit ≤ rows ∨ Dim.sizeLimit ≤ cols) := fun beyond =>
              within ⟨rows, cols, high, wide, beyond⟩
            obtain ⟨tall, broad⟩ := not_or.mp low
            exact yields_of_numbers high wide (Nat.not_le.mp tall) (Nat.not_le.mp broad)

/-- A number of rows that is the limit itself. -/
def towering : Declaration := ⟨"18446744073709551616", "1", []⟩

theorem yields_tensor?_iff_towering :
    towering.Exceeds ∧ ¬ towering.Yields towering.tensor? ∧
      ∃ rows cols, towering.tensor? = .ok (.placeholder rows cols) := by
  have exceeds : towering.Exceeds :=
    ⟨Dim.sizeLimit, 1, by decide +kernel, by decide +kernel, .inl (Nat.le_refl _)⟩
  obtain ⟨made, placeholder⟩ := yields_tensor?_iff towering
  exact ⟨exceeds, fun yields => made.mp yields exceeds, placeholder exceeds⟩

/-- So many rows are not refused. -/
theorem not_refused_towering :
    towering.rows.number? = some 18446744073709551616 ∧ towering.cols.number? = some 1 ∧
      ¬ (18446744073709551616 * 1 ≤ maxCells) ∧
      towering.tensor? = .ok (.placeholder (.symbolic "18446744073709551616") (.fixed 1)) :=
  ⟨by decide +kernel, by decide +kernel, by decide, rfl⟩

end Declaration

end MatrixFormula
