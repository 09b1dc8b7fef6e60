import MatrixFormula.Latex
import MatrixFormula.Proofs.Grid.Transpose
import MatrixFormula.Proofs.Text.Separator

/-!
# Reading grids from their markup

The markup of a grid shows its cells in rows. Cells may be empty, and they may hold spaces and
single backslashes where a separator begins or ends. As long as no cell has an ampersand or two
backslashes in a row, the rows are found again, so two such grids have the same markup only if they
are the same.
-/

namespace MatrixFormula

/-- Whether no cell has an ampersand or two backslashes in a row. -/
def Grid.Separable (grid : Grid Text) : Prop :=
  ∀ cell ∈ grid.toList, '&' ∉ cell ∧ ¬ ['\\', '\\'] <:+: cell

instance (grid : Grid Text) : Decidable grid.Separable :=
  inferInstanceAs (Decidable (∀ cell ∈ grid.toList, '&' ∉ cell ∧ ¬ ['\\', '\\'] <:+: cell))

namespace Latex

/-- What stands between the commands of an environment. -/
def body? (name markup : Text) : Option Text :=
  (markup.dropPrefix? ("\\begin" ++ braced name)).bind fun rest =>
    rest.dropSuffix? ("\\end" ++ braced name)

/-- The rows of cells in the markup of a matrix. -/
def rows? (markup : Text) : Option (List (List Text)) :=
  (body? "pmatrix" markup).map fun body =>
    (Text.splitOn " \\\\ " body).map (Text.splitOn " & ")

/-- What stands between a prefix and a suffix is found. -/
theorem between_append (front name body back : Text) :
    ((front ++ name ++ body ++ back ++ name).dropPrefix? (front ++ name)).bind
      (·.dropSuffix? (back ++ name)) = some body := by
  have parts : front ++ name ++ body ++ back ++ name =
      (front ++ name) ++ (body ++ (back ++ name)) := by simp only [List.append_assoc]
  rw [parts, List.dropPrefix?_append_of_beq _ (beq_self_eq_true _), Option.bind_some,
    List.dropSuffix?_eq_some_iff]
  exact ⟨back ++ name, rfl, beq_self_eq_true _⟩

/-- The body of an environment is found. -/
theorem body?_environment (name body : Text) : body? name (environment name body) = some body :=
  between_append "\\begin" (braced name) body "\\end"

variable {grid : Grid Text} {row : List Text}

theorem ne_nil_of_mem_toRows (member : row ∈ grid.toRows) : row ≠ [] := by
  rintro rfl
  exact grid.colsPos.ne (Grid.length_of_mem_toRows member)

/-- A row is split into its cells. -/
theorem splitOn_cells (separable : grid.Separable) (member : row ∈ grid.toRows) :
    Text.splitOn " & " (Text.joined " & " row) = row := by
  refine Text.splitOn_joined (show ' ' ∉ ['&'] by decide) (ne_nil_of_mem_toRows member) ?_
  intro cell inside occurs
  exact (separable cell (List.mem_flatten_of_mem member inside)).1 (occurs.subset (by simp))

/-- The body of a matrix is split into its rows. -/
theorem splitOn_rows (separable : grid.Separable) :
    Text.splitOn " \\\\ " (Text.joined " \\\\ " (grid.toRows.map (Text.joined " & "))) =
      grid.toRows.map (Text.joined " & ") := by
  have nonempty : grid.toRows.map (Text.joined " & ") ≠ [] := by
    have := grid.rowsPos
    simpa [← List.length_eq_zero_iff] using this.ne'
  refine Text.splitOn_joined (show ' ' ∉ ['\\', '\\'] by decide) nonempty ?_
  simp only [List.forall_mem_map]
  intro row member
  have between : ¬ ['\\', '\\'] <:+: ['&'] := by decide
  refine Text.not_infix_joined (by decide) (by decide) between fun cell inside => ?_
  exact (separable cell (List.mem_flatten_of_mem member inside)).2

/-- The markup of a grid is read back as its rows. -/
theorem rows?_matrix (separable : grid.Separable) : rows? (matrix grid) = some grid.toRows := by
  have cells : grid.toRows.map (Text.splitOn " & " ∘ Text.joined " & ") = grid.toRows.map id :=
    List.map_congr_left fun row member => splitOn_cells separable member
  rw [rows?, matrix, body?_environment, Option.map_some, splitOn_rows separable, List.map_map,
    cells, List.map_id]

/-- The rows of a grid without ampersands and without two backslashes in a row are found again in
its markup, between the two commands. So the markup of such grids tells them apart. -/
theorem matrix_read_back :
    (∀ grid : Grid Text, grid.Separable → rows? (matrix grid) = some grid.toRows) ∧
    ∀ left right : Grid Text, left.Separable → right.Separable →
      (matrix left = matrix right ↔ left = right) := by
  refine ⟨fun _ => rows?_matrix, fun left right leftSeparable rightSeparable => ?_⟩
  refine ⟨fun same => ?_, congrArg matrix⟩
  have rows := rows?_matrix leftSeparable
  rw [same, rows?_matrix rightSeparable] at rows
  exact Grid.ext_toRows (Option.some.inj rows).symm

/-- Cells that are empty or hold parts of the separator of rows. -/
def slanted : Grid Text :=
  Grid.generate 2 2 fun row col =>
    if row = 0 then if col = 0 then " \\" else "\\" else if col = 0 then "" else "\\ "

/-- Cells may end or start with spaces and backslashes next to a separator. -/
theorem matrix_read_back_slanted :
    slanted.Separable ∧ slanted.transpose.Separable ∧
      rows? "\\begin\x7bpmatrix\x7d \\ & \\ \\\\  & \\ \\end\x7bpmatrix\x7d" =
        some [[" \\".toList, "\\".toList], ["".toList, "\\ ".toList]] ∧
      matrix slanted ≠ matrix slanted.transpose := by
  have separable : slanted.Separable := by decide
  have turned : slanted.transpose.Separable := by decide
  have shown : matrix slanted =
      "\\begin\x7bpmatrix\x7d \\ & \\ \\\\  & \\ \\end\x7bpmatrix\x7d".toList := by decide
  have cells : slanted.toRows = [[" \\".toList, "\\".toList], ["".toList, "\\ ".toList]] := by
    decide
  have different : slanted ≠ slanted.transpose := by decide
  refine ⟨separable, turned, ?_, mt (matrix_read_back.2 _ _ separable turned).mp different⟩
  rw [← shown, ← cells]
  exact matrix_read_back.1 slanted separable

end Latex

end MatrixFormula
