import MatrixFormula.Proofs.Cell.Brackets
import MatrixFormula.Proofs.Markup.Enclosed
import MatrixFormula.Proofs.Session.Requests
import MatrixFormula.Proofs.Tensor.Declaration
import MatrixFormula.Session.Script

/-!
# What every session keeps

Whatever lines a session processes and however its questions are answered, its variables have
identifiers for names. A variable either has no cells and a dimension that is not a number, or as
many cells as its dimensions say, none of them blank.
-/

namespace MatrixFormula

/-! ## Declared tensors -/

/-- A tensor as a declaration makes it. -/
inductive Tensor.Declared : Tensor → Prop where
  | placeholder {rows cols : Dim} (symbolic : rows.size? = none ∨ cols.size? = none) :
      Declared (.placeholder rows cols)
  | filled {cells : Grid Text} (size : (cellCount? cells.rows cells.cols).isSome)
      (solid : ∀ row col, Cell.Solid (cells.entry row col)) : Declared (.filled cells)

/-- What trimming leaves of a text is empty, or neither starts nor ends with a blank. -/
theorem Cell.solid_trim {text : Text} (nonempty : Text.trim text ≠ []) :
    Cell.Solid (Text.trim text) := by
  have parts : Text.trimStart text = Text.trim text ++
      ((Text.trimStart text).reverse.takeWhile Text.isBlank).reverse := by
    show _ = ((Text.trimStart text).reverse.dropWhile Text.isBlank).reverse ++ _
    rw [← List.reverse_append, List.takeWhile_append_dropWhile, List.reverse_reverse]
  refine ⟨nonempty, fun char first => ?_, fun char last => ?_⟩
  · obtain ⟨_, rest, spelled⟩ := List.exists_cons_of_ne_nil nonempty
    rw [spelled] at first parts
    cases first
    exact Text.not_isBlank_of_trimStart parts
  · rw [Text.trim, List.getLast?_reverse] at last
    obtain ⟨rest, spelled⟩ := List.head?_eq_some_iff.mp last
    exact Text.not_isBlank_of_trimStart spelled

/-- The cells of a declaration are trimmed and not empty. -/
theorem Declaration.solid_cell (declaration : Declaration) (index : Nat) :
    Cell.Solid (declaration.cell index) := by
  unfold cell
  simp only
  split
  · exact .of_isUnsigned rfl
  · next shown => exact Cell.solid_trim shown

/-- A declaration makes a tensor with the declared dimensions. -/
theorem Declaration.declared_tensor {declaration : Declaration} {tensor : Tensor}
    (made : declaration.tensor? = .ok tensor) :
    tensor.Declared ∧ tensor.rows = Dim.ofText declaration.rows ∧
      tensor.cols = Dim.ofText declaration.cols := by
  unfold tensor? at made
  split at made
  · next rows cols high wide =>
      split at made
      · next possible =>
          cases made
          obtain ⟨tall, broad⟩ := Prod.mk.inj (dims_generate possible fun row col =>
            declaration.cell (row * cols + col))
          refine ⟨.filled (by rwa [tall, broad]) fun row col => ?_, ?_, ?_⟩
          · rw [entry_generate row col]
            exact declaration.solid_cell _
          · rw [high, Tensor.rows, tall]
          · rw [wide, Tensor.cols, broad]
      · cases made
  · next rows cols other =>
      cases made
      refine ⟨.placeholder ?_, rfl, rfl⟩
      cases high : Dim.ofText declaration.rows with
      | symbolic => exact .inl rfl
      | fixed tall =>
          cases wide : Dim.ofText declaration.cols with
          | symbolic => exact .inr rfl
          | fixed broad => exact (other tall broad high wide).elim

/-! ## Declared stores -/

/-- Every variable has an identifier for its name and a tensor as a declaration makes it. -/
structure Store.Declared (store : Store) : Prop where
  names : ∀ entry ∈ store.entries, Token.isIdentifier entry.1
  tensors : ∀ entry ∈ store.entries, entry.2.Declared

/-- A store without variables has only declared ones. -/
theorem Store.declared_empty : Store.empty.Declared := ⟨nofun, nofun⟩

/-- A declared tensor under an identifier keeps a store declared. -/
theorem Store.Declared.insert {store : Store} {name : Text} {tensor : Tensor}
    (declared : store.Declared) (identifier : Token.isIdentifier name) (made : tensor.Declared) :
    (store.insert name tensor).Declared := by
  constructor <;> intro entry member
  · rcases mem_of_mem_insertEntry member with rfl | old
    · exact identifier
    · exact declared.names entry old
  · rcases mem_of_mem_insertEntry member with rfl | old
    · exact made
    · exact declared.tensors entry old

namespace Workspace

/-- An input that asks for a declaration starts with an identifier, which is the name to declare. -/
theorem identifier_of_declaredName? {input name : Text} (asked : declaredName? input = some name) :
    Token.isIdentifier name ∧ name <+: input := by
  obtain ⟨identifier, blanks, -, spelled⟩ := requests_of_declaredName? asked
  exact ⟨identifier, blanks ++ ['='], by rw [spelled, List.append_assoc]⟩

/-- A declaration adds a variable to the store or leaves it as it is. -/
theorem declared_assign {workspace : Workspace} (declared : workspace.store.Declared)
    (source : Text → Option Declaration) (input : Text) :
    (workspace.assign source input).workspace.store.Declared := by
  unfold assign
  split
  · exact declared
  · next name asked =>
      split
      · exact declared
      · next declaration given =>
          split
          · next shown after made =>
              cases found : declaration.tensor? with
              | error diagnostic =>
                  rw [define, found] at made
                  cases made
              | ok tensor =>
                  rw [define, found] at made
                  cases made
                  exact declared.insert (identifier_of_declaredName? asked).1
                    (Declaration.declared_tensor found).1
          · exact declared

end Workspace

namespace Session

/-- The workspaces that a session can reach: it starts without variables, and processes any lines,
with any answers to the questions. Answers that run out cancel the declaration. -/
inductive Reachable : Workspace → Prop where
  | start : Reachable {}
  | processed {workspace : Workspace} (reached : Reachable workspace) (line : Text)
      (answers : List Text) : Reachable (process workspace line answers).workspace

/-- Processing a line keeps the store declared. -/
theorem declared_process {workspace : Workspace} (declared : workspace.store.Declared) (line : Text)
    (answers : List Text) : (process workspace line answers).workspace.store.Declared := by
  unfold process
  split
  case h_5 =>
    unfold processFormula
    split
    · exact declared
    · simp only
      split <;> exact Workspace.declared_assign declared _ _
  all_goals exact declared

/-- The store of every session that can be reached is declared. -/
theorem Reachable.declared {workspace : Workspace} (reached : Reachable workspace) :
    workspace.store.Declared := by
  induction reached with
  | start => exact Store.declared_empty
  | processed _ line answers ih => exact declared_process ih line answers

/-- A variable with an identifier for its name. It is a placeholder with a dimension that is not a
number, or has as many rows and columns of cells as its dimensions say, all trimmed and none of them
empty. If it has cells, it is a scalar exactly when it is broadcast. -/
structure Sound (name : Text) (tensor : Tensor) : Prop where
  identifier : Token.isIdentifier name
  sized : tensor.cells? = none ∧ tensor.isSymbolic ∨
    ∃ rows cols cells, tensor.rows = .fixed rows ∧ tensor.cols = .fixed cols ∧
      1 ≤ rows * cols ∧ rows * cols ≤ maxCells ∧ tensor.cells? = some cells ∧
      cells.toRows.length = rows ∧ ∀ row ∈ cells.toRows, row.length = cols ∧
        ∀ cell ∈ row, Text.trim cell = cell ∧ cell ≠ []
  scalar : ∀ cells, tensor.cells? = some cells → (tensor.shape = .scalar ↔ cells.isScalar)

/-- In every state that a session reaches, all variables are sound. -/
theorem sound_of_reachable {workspace : Workspace} (reached : Reachable workspace) :
    ∀ entry ∈ workspace.store.entries, Sound entry.1 entry.2 := by
  rintro ⟨name, tensor⟩ member
  have made : tensor.Declared := reached.declared.tensors _ member
  refine ⟨reached.declared.names _ member, ?_, fun cells known => ?_⟩
  · cases made with
    | placeholder symbolic =>
        refine .inl ⟨rfl, ?_⟩
        rcases symbolic with none | none <;> simp [Tensor.isSymbolic, Tensor.rows, Tensor.cols, none]
    | @filled cells size solid =>
        obtain ⟨some, few⟩ := cellCount?_isSome_iff.mp size
        refine .inr ⟨cells.rows, cells.cols, cells, rfl, rfl, some, few, rfl, by simp [Grid.toRows],
          fun row stored => ⟨?_, fun cell inside => ?_⟩⟩
        · obtain ⟨cells, -, rfl⟩ := List.mem_map.mp stored
          exact cells.length_toList
        · have shown := Markup.forall_mem_toRows solid row stored cell inside
          exact ⟨shown.trim_eq, shown.nonempty⟩
  · cases made with
    | placeholder => cases known
    | filled =>
        cases known
        simp only [Tensor.shape, Shape.ofDims, Tensor.rows, Tensor.cols, Dim.isOne, Grid.isScalar]
        cases cells.rows == 1 <;> cases cells.cols == 1 <;> simp

/-- A session that declares a column of two cells, one of them left blank, and then a placeholder. -/
def declaredSession : Workspace :=
  (process (process {} "b_1 =" [" 2", "1 ", " x ", ""]).workspace "M=" ["n", "2"]).workspace

/-- A session with a placeholder and with a column of which one cell was left empty. -/
theorem sound_of_reachable_declared :
    declaredSession.store.entries =
      [("M".toList, .placeholder (.symbolic "n") (.fixed 2)),
        ("b_1".toList, .filled (.generate 2 1 fun row _ => if row = 0 then ['x'] else ['0']))] ∧
    ∀ entry ∈ declaredSession.store.entries, Sound entry.1 entry.2 := by
  have reached : Reachable declaredSession := .processed (.processed .start _ _) _ _
  exact ⟨by decide +kernel, sound_of_reachable reached⟩

end Session

end MatrixFormula
