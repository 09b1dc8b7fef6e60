import MatrixFormula.Proofs.Decimal.Double
import MatrixFormula.Proofs.Markup.Locality
import MatrixFormula.Proofs.Text.Character
import MatrixFormula.Proofs.Text.Occurrence
import MatrixFormula.Tensor.Basic

/-!
# The markup of a value is a single block

The markup of a matrix is an environment. It ends with the first closing command for its name,
so it is read as one block when no cell contains that command. The size of a matrix without cells
is a group behind its environment, and ends where it should when its braces are balanced.
-/

namespace MatrixFormula.Markup

/-- The command that closes an environment. -/
def closing (name : Text) : Text := "\\end" ++ Latex.braced name

/-- The number of groups that are open behind a text, unless one of its braces closes none. -/
def openGroups : Nat → Text → Option Nat
  | depth, [] => some depth
  | depth, char :: rest =>
      if char = '\x7b' then openGroups (depth + 1) rest
      else if char = '\x7d' then
        match depth with
        | 0 => none
        | outer + 1 => openGroups outer rest
      else openGroups depth rest

/-- Whether every brace of a text has its counterpart. -/
def Balanced (text : Text) : Prop := openGroups 0 text = some 0

instance (text : Text) : Decidable (Balanced text) :=
  inferInstanceAs (Decidable (openGroups 0 text = some 0))

/-- Whether the markup of a tensor is delimited by its own commands and braces. -/
def Enclosed : Tensor → Prop
  | .filled cells => ∀ row col, ¬ closing "pmatrix" <:+: cells.entry row col
  | .placeholder rows cols => Balanced rows.text ∧ Balanced cols.text

instance (tensor : Tensor) : Decidable (Enclosed tensor) :=
  match tensor with
  | .filled cells =>
      inferInstanceAs (Decidable (∀ row col, ¬ closing "pmatrix" <:+: cells.entry row col))
  | .placeholder rows cols =>
      inferInstanceAs (Decidable (Balanced rows.text ∧ Balanced cols.text))

/-! ## Groups with balanced braces -/

/-- A group goes on behind text in which it is not closed. -/
theorem closeGroup_inside {depth deeper : Nat} {text : Text}
    (opens : openGroups depth text = some deeper) (rest : Text) :
    Block.closeGroup depth (text ++ rest) =
      (text ++ (Block.closeGroup deeper rest).1, (Block.closeGroup deeper rest).2) := by
  fun_induction openGroups depth text with
  | case1 => cases opens; rfl
  | case2 depth rest ih => simp [Block.closeGroup, ih opens]
  | case3 => cases opens
  | case4 rest notOpen outer ih => simp [Block.closeGroup, ih opens]
  | case5 depth char rest notOpen notClose ih =>
      simp [Block.closeGroup, notOpen, notClose, ih opens]

/-- The groups that two texts open are those that the second one leaves open behind the first. -/
theorem openGroups_append {depth deeper : Nat} {text : Text}
    (opens : openGroups depth text = some deeper) (rest : Text) :
    openGroups depth (text ++ rest) = openGroups deeper rest := by
  fun_induction openGroups depth text with
  | case1 => cases opens; rfl
  | case2 depth rest ih => simp [openGroups, ih opens]
  | case3 => cases opens
  | case4 rest notOpen outer ih => simp [openGroups, ih opens]
  | case5 depth char rest notOpen notClose ih =>
      simp [openGroups, notOpen, notClose, ih opens]

/-- The size of a matrix without cells has balanced braces when its dimensions have. -/
theorem Balanced.size {rows cols : Text} (first : Balanced rows) (second : Balanced cols) :
    Balanced (rows ++ " \\times " ++ cols) := by
  have sign : openGroups 0 " \\times " = some 0 := by decide
  unfold Balanced
  rw [List.append_assoc, openGroups_append first, openGroups_append sign, second]

/-- A group with balanced braces ends with its own brace. -/
theorem Balanced.closeGroup {group : Text} (balanced : Balanced group) (rest : Text) :
    Block.closeGroup 0 (group ++ '\x7d' :: rest) = (group ++ ['\x7d'], rest) := by
  rw [closeGroup_inside balanced]
  rfl

/-- A group in braces belongs to the text in front of it, and so do the groups behind it. -/
theorem groups_braced {group : Text} (balanced : Balanced group) (rest : Text) :
    Block.groups (Latex.braced group ++ rest) =
      (Latex.braced group ++ (Block.groups rest).1, (Block.groups rest).2) := by
  have spelled : Latex.braced group ++ rest = '\x7b' :: (group ++ '\x7d' :: rest) := by
    simp [Latex.braced]
  rw [spelled, groups_open, balanced.closeGroup]
  rfl

/-- A subscript in braces belongs to the text in front of it, and so do the subscripts behind
it. -/
theorem subscripts_braced {index : Text} (balanced : Balanced index) (rest : Text) :
    Block.subscripts ('_' :: Latex.braced index ++ rest) =
      ('_' :: Latex.braced index ++ (Block.subscripts rest).1, (Block.subscripts rest).2) := by
  have spelled : '_' :: Latex.braced index ++ rest =
      '_' :: '\x7b' :: (index ++ '\x7d' :: rest) := by
    simp [Latex.braced]
  rw [spelled, subscripts_open, balanced.closeGroup]
  rfl

/-! ## Environments -/

/-- The opening command for a name takes in all that stands up to the first closing command for
it. -/
theorem cut_begin {name : Text} (simple : '\x7d' ∉ name) (text : Text) :
    Block.cut ("begin" ++ (Latex.braced name ++ text)) =
      let (body, after) := Text.cutAfter (closing name) text
      ("begin" ++ (Latex.braced name ++ body) ++ (Block.subscripts after).1,
        (Block.subscripts after).2) := by
  have named : Text.cutAfter ['\x7d'] (Latex.braced name ++ text) = (Latex.braced name, text) := by
    have open_ : ¬ ['\x7d'] <:+: '\x7b' :: name := fun occurs => simple <| by
      simpa using occurs.subset (List.mem_singleton_self _)
    simpa [Latex.braced] using Text.cutAfter_tag (by simp) open_ text
  have command := @Text.span_run Char.isAlpha "begin" (Latex.braced name ++ text)
    (List.all_eq_true.mp (by decide)) (by simp [Latex.braced])
  rw [Block.cut, command.1, command.2, Block.arguments, if_pos rfl, Block.environment, named]
  rfl

/-- A closing command has no further command inside. -/
theorem closing_marked {name : Text} (plain : '\\' ∉ name) :
    '\\' ∉ 'e' :: 'n' :: 'd' :: Latex.braced name := by
  simp [Latex.braced, plain]

/-- An environment is a command with a name, a body and an end tag. -/
theorem environment_eq (name body : Text) :
    Latex.environment name body =
      '\\' :: ("begin" ++ (Latex.braced name ++ (body ++ closing name))) := by
  have opening (rest : Text) : ("\\begin" : Text) ++ rest = '\\' :: ("begin" ++ rest) := by simp
  unfold Latex.environment closing
  rw [List.append_assoc, List.append_assoc, List.append_assoc, opening]

/-- A text is one block, and the subscripts behind it are all that it takes in of any text. -/
def IsWholeBlock (text : Text) : Prop :=
  ∃ run, text = '\\' :: run ∧ ∀ rest : Text,
    Block.cut (run ++ rest) = (run ++ (Block.subscripts rest).1, (Block.subscripts rest).2)

/-- Without its closing command inside, an environment ends where it should. -/
theorem isWholeBlock_environment {name body : Text} (plain : '\\' ∉ name) (simple : '\x7d' ∉ name)
    (free : ¬ closing name <:+: body) : IsWholeBlock (Latex.environment name body) := by
  refine ⟨_, environment_eq name body, fun rest => ?_⟩
  have ended : Text.cutAfter (closing name) (body ++ (closing name ++ rest)) =
      (body ++ closing name, rest) := Text.cutAfter_tag (closing_marked plain) free rest
  simp only [List.append_assoc]
  rw [cut_begin simple, ended]
  simp only [List.append_assoc]

/-! ## Values -/

/-- A text that is read as one block, wherever no character follows that continues a name. -/
def IsBlock (text : Text) : Prop :=
  ∃ run, text = '\\' :: run ∧
    ∀ rest : Text, (∀ char ∈ rest.head?, Token.continuesName char = false) →
      Block.cut (run ++ rest) = (run, rest)

/-- No subscript follows where no name goes on. -/
theorem not_prefix_of_ends {rest : Text}
    (ends : ∀ char ∈ rest.head?, Token.continuesName char = false) : ¬ ['_', '\x7b'] <+: rest := by
  rintro ⟨more, rfl⟩
  exact absurd (ends '_' rfl) (by decide)

/-- An environment and the subscript behind it are one block. -/
theorem isBlock_environment {name body index : Text} (plain : '\\' ∉ name) (simple : '\x7d' ∉ name)
    (free : ¬ closing name <:+: body)
    (indexed : ∀ rest, ¬ ['_', '\x7b'] <+: rest →
      Block.subscripts (index ++ rest) = (index, rest)) :
    IsBlock (Latex.environment name body ++ index) := by
  obtain ⟨run, spelled, cut⟩ := isWholeBlock_environment plain simple free
  refine ⟨run ++ index, by rw [spelled, List.cons_append], fun rest ends => ?_⟩
  rw [List.append_assoc, cut, indexed rest (not_prefix_of_ends ends)]

/-- What holds of all cells by position holds of all cells of all rows. -/
theorem forall_mem_toRows {α : Type} {grid : Grid α} {holds : α → Prop}
    (entries : ∀ row col, holds (grid.entry row col)) :
    ∀ row ∈ grid.toRows, ∀ cell ∈ row, holds cell := by
  intro row member cell inside
  obtain ⟨cells, stored, rfl⟩ := List.mem_map.mp member
  obtain ⟨i, low, rfl⟩ := List.getElem_of_mem stored
  obtain ⟨j, left, rfl⟩ := List.getElem_of_mem inside
  have bound : i < grid.rows := by simpa using low
  have side : j < grid.cols := by simpa using left
  simpa [Grid.entry] using entries ⟨i, bound⟩ ⟨j, side⟩

/-- A matrix is a block when no end tag stands in its cells. -/
theorem isBlock_matrix {grid : Grid Text}
    (free : ∀ row col, ¬ closing "pmatrix" <:+: grid.entry row col) :
    IsBlock (Latex.matrix grid) := by
  have solid : ' ' ∉ closing "pmatrix" := by decide
  have some : closing "pmatrix" ≠ [] := by decide
  have rows : ∀ row ∈ grid.toRows.map (Text.joined " & "), ¬ closing "pmatrix" <:+: row := by
    intro row member
    obtain ⟨cells, stored, rfl⟩ := List.mem_map.mp member
    exact @Text.not_infix_joined _ ['&'] cells some solid (by decide)
      (forall_mem_toRows free cells stored)
  have body := @Text.not_infix_joined _ ['\\', '\\'] _ some solid (by decide) rows
  have block := @isBlock_environment "pmatrix" _ [] (by decide) (by decide) body
    fun rest ends => subscripts_plain ends
  rwa [List.append_nil] at block

/-- A matrix with dots is a block when its dimensions have balanced braces. -/
theorem isBlock_elidedMatrix {rows cols : Text} (first : Balanced rows) (second : Balanced cols) :
    IsBlock (Latex.elidedMatrix rows cols) := by
  have free : ¬ closing "bmatrix" <:+: " \\dots " := fun occurs =>
    absurd occurs.length_le (by simp [closing, Latex.braced])
  unfold Latex.elidedMatrix Latex.subscript
  refine isBlock_environment (by decide) (by decide) free fun rest ends => ?_
  rw [subscripts_braced (first.size second), subscripts_plain ends, List.append_nil]

variable {ν : Type} [Numeral ν]

/-- The markup of a transposed value is one block. -/
theorem Enclosed.isBlock_transposedLatex (unmarked : ∀ value : ν, '\\' ∉ Numeral.write value)
    {tensor : Tensor} (enclosed : Enclosed tensor) : IsBlock (tensor.transposedLatex ν) := by
  unfold Tensor.transposedLatex
  split
  · next values _ =>
      refine isBlock_matrix fun row col occurs => ?_
      have same := @Grid.entry_map _ _ Numeral.write values.transpose row col
      exact unmarked _ ((same ▸ occurs).subset (by decide))
  · cases tensor with
    | filled cells =>
        refine isBlock_matrix fun row col occurs => ?_
        exact enclosed col row (@Grid.entry_transpose _ cells row col ▸ occurs)
    | placeholder rows cols => exact isBlock_elidedMatrix enclosed.2 enclosed.1

/-- A number that was computed is written without markup. -/
theorem not_mem_write (value : Float) : '\\' ∉ Numeral.write value := fun member =>
  absurd (Numeral.of_mem_write member) (by decide)

end MatrixFormula.Markup
