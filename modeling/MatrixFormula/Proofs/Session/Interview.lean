import Mathlib.Data.List.Nodup
import MatrixFormula.Proofs.Decimal.Rational
import MatrixFormula.Proofs.Session.Accounting

/-!
# Interviews and the tensors that come of them

The questions for the cells of a variable are asked row by row, and the answers fill the rows of its
tensor. Both sides read the dimensions and count the cells for themselves: which cells are asked for
and which are filled is the same for all dimensions, and each cell holds the answer to the question
with its position.
-/

namespace MatrixFormula.Session

/-- The question for a cell. Rows and columns are counted from one. -/
def cellQuestion (name : Text) (row col : Nat) : Text :=
  name ++ '[' :: Text.ofNat (row + 1) ++ ',' :: Text.ofNat (col + 1) ++ "] = "

/-- The questions of an interview, as far as the answers decide them. -/
def questions (name : Text) (lines : List Text) : List Text :=
  match lines with
  | rows :: cols :: _ => (name ++ " rows: ") :: (name ++ " cols: ") :: questionsAfter name rows cols
  | _ => [name ++ " rows: ", name ++ " cols: "]

/-- The exchanges about cells. They follow the two about the dimensions. -/
def Interview.cellExchanges (interview : Interview) : List Exchange := interview.exchanges.drop 2

variable {name rows cols : Text}

/-! ## The order of the questions -/

/-- The row and the column of a cell are known from its place in row order. -/
theorem place {row col cols : Nat} (inside : col < cols) :
    (row * cols + col) / cols = row ∧ (row * cols + col) % cols = col :=
  (Nat.div_mod_unique (Nat.zero_lt_of_lt inside)).mpr
    ⟨by rw [Nat.add_comm, Nat.mul_comm], inside⟩

/-- The questions for cells are asked row by row. -/
theorem cellQuestions_eq (name : Text) (rows cols : Nat) :
    cellQuestions name rows cols = (List.range (rows * cols)).map fun index =>
      cellQuestion name (index / cols) (index % cols) := by
  induction rows with
  | zero => rw [Nat.zero_mul]; rfl
  | succ rows ih =>
      have row : (List.range cols).map (cellQuestion name rows) = (List.range cols).map fun col =>
          cellQuestion name ((rows * cols + col) / cols) ((rows * cols + col) % cols) := by
        refine List.map_congr_left fun col inside => ?_
        obtain ⟨above, before⟩ := @place rows col cols (List.mem_range.mp inside)
        rw [above, before]
      unfold cellQuestions at ih ⊢
      rw [List.range_succ, List.flatMap_append, ih, Nat.succ_mul, List.range_add, List.map_append,
        List.map_map, List.flatMap_singleton]
      exact congrArg _ row

/-- A number is known from its digits, also when other text stands behind them. -/
theorem ofNat_append_inj {number other : Nat} {char : Char} {rest otherRest : Text}
    (apart : char.isDigit = false)
    (same : Text.ofNat number ++ char :: rest = Text.ofNat other ++ char :: otherRest) :
    number = other ∧ rest = otherRest := by
  have digits (number : Nat) (rest : Text) :
      (Text.ofNat number ++ char :: rest).takeWhile Char.isDigit = Text.ofNat number := by
    rw [List.takeWhile_append_of_pos fun char member => Decimal.isDigit_of_mem_ofNat member,
      List.takeWhile_cons_of_neg (by simp [apart]), List.append_nil]
  have front : Text.ofNat number = Text.ofNat other := by
    rw [← digits number rest, same, digits]
  refine ⟨?_, (List.cons.inj (List.append_cancel_left (front ▸ same))).2⟩
  rw [← Decimal.digitsValue_ofNat number, front, Decimal.digitsValue_ofNat]

/-- A question for a cell is known from the cell. -/
theorem cellQuestion_inj {row col otherRow otherCol : Nat}
    (same : cellQuestion name row col = cellQuestion name otherRow otherCol) :
    row = otherRow ∧ col = otherCol := by
  simp only [cellQuestion, List.append_assoc, List.cons_append] at same
  have numbers := (List.cons.inj (List.append_cancel_left same)).2
  obtain ⟨sameRow, columns⟩ := ofNat_append_inj (by decide) numbers
  obtain ⟨sameCol, -⟩ := ofNat_append_inj (by decide) columns
  exact ⟨Nat.succ.inj sameRow, Nat.succ.inj sameCol⟩

/-- No cell is asked for twice. -/
theorem nodup_cellQuestions (name : Text) (rows cols : Nat) :
    (cellQuestions name rows cols).Nodup := by
  rw [cellQuestions_eq]
  refine List.Nodup.map (fun index other same => ?_) List.nodup_range
  obtain ⟨sameRow, sameCol⟩ := cellQuestion_inj same
  rw [← Nat.div_add_mod index cols, sameRow, sameCol, Nat.div_add_mod]

/-! ## Dimensions -/

/-- What the dimensions of a variable lead to, in the questions that are asked and in the tensor
that is made of the answers. -/
inductive Plan (name rows cols : Text) : Prop where
  | cells {high wide : Nat} (tall : Dim.ofText rows = .fixed high)
      (broad : Dim.ofText cols = .fixed wide) (possible : (cellCount? high wide).isSome)
      (asks : questionsAfter name rows cols = cellQuestions name high wide)
      (makes : ∀ texts, Declaration.tensor? ⟨rows, cols, texts⟩ =
        .ok (.filled (.generate high wide fun row col =>
          Declaration.cell ⟨rows, cols, texts⟩ (row * wide + col))))
  | impossible {high wide : Nat} (tall : Dim.ofText rows = .fixed high)
      (broad : Dim.ofText cols = .fixed wide) (impossible : cellCount? high wide = none)
      (asks : questionsAfter name rows cols = [])
      (makes : ∀ texts, Declaration.tensor? ⟨rows, cols, texts⟩ =
        .error ⟨.invalidDimensions high wide, []⟩)
  | placeholder
      (symbolic : ∀ high wide, Dim.ofText rows = .fixed high → Dim.ofText cols ≠ .fixed wide)
      (asks : questionsAfter name rows cols = [])
      (makes : ∀ texts, Declaration.tensor? ⟨rows, cols, texts⟩ =
        .ok (.placeholder (Dim.ofText rows) (Dim.ofText cols)))

/-- The dimensions of a variable lead to questions for all cells, to a fault or to a placeholder. -/
theorem planned (name rows cols : Text) : Plan name rows cols := by
  cases tall : Dim.ofText rows with
  | symbolic spec =>
      refine .placeholder (by simp [tall]) (by simp [questionsAfter, tall]) ?_
      simp [Declaration.tensor?, tall]
  | fixed high =>
      cases broad : Dim.ofText cols with
      | symbolic spec =>
          refine .placeholder (by simp [broad]) (by simp [questionsAfter, tall, broad]) ?_
          simp [Declaration.tensor?, tall, broad]
      | fixed wide =>
          cases size : cellCount? high wide with
          | none =>
              refine .impossible tall broad size (by simp [questionsAfter, tall, broad, size]) ?_
              simp [Declaration.tensor?, tall, broad, size]
          | some count =>
              refine .cells tall broad (by simp [size])
                (by simp [questionsAfter, tall, broad, size]) ?_
              simp [Declaration.tensor?, tall, broad, size]

/-- No question is asked twice behind the dimensions. -/
theorem nodup_questionsAfter (name rows cols : Text) : (questionsAfter name rows cols).Nodup := by
  cases planned name rows cols with
  | @cells high wide _ _ _ asks => exact asks ▸ nodup_cellQuestions name high wide
  | impossible _ _ _ asks | placeholder _ asks => exact asks ▸ List.nodup_nil

/-- The questions for the dimensions are not asked for cells. -/
theorem not_mem_questionsAfter {text : Text} (other : text.head? ≠ some '[') :
    name ++ text ∉ questionsAfter name rows cols := by
  cases planned name rows cols with
  | @cells high wide _ _ _ asks =>
      rw [asks, cellQuestions_eq]
      intro asked
      obtain ⟨index, -, same⟩ := List.mem_map.mp asked
      simp only [cellQuestion, List.append_assoc] at same
      exact other (List.append_cancel_left same ▸ rfl)
  | impossible _ _ _ asks | placeholder _ asks => exact asks ▸ List.not_mem_nil

/-- No question of an interview is asked twice. -/
theorem nodup_questions (name : Text) (lines : List Text) : (questions name lines).Nodup := by
  have apart : name ++ " rows: ".toList ≠ name ++ " cols: ".toList := fun same =>
    absurd (List.append_cancel_left same) (by decide)
  unfold questions
  split
  · next rows cols _ =>
      refine List.nodup_cons.mpr ⟨?_, List.nodup_cons.mpr ⟨?_, nodup_questionsAfter name rows cols⟩⟩
      · exact List.not_mem_cons_of_ne_of_not_mem apart (not_mem_questionsAfter (by decide))
      · exact not_mem_questionsAfter (by decide)
  · exact List.nodup_cons.mpr ⟨by simp, List.nodup_singleton _⟩

/-! ## Answers -/

/-- With enough lines, each question has its line for an answer. -/
theorem answers?_ask {questions lines : List Text} (enough : questions.length ≤ lines.length) :
    answers? (ask questions lines) = some (lines.take questions.length) := by
  fun_induction ask questions lines with
  | case1 => rfl
  | case2 => simp at enough
  | case3 question questions line lines ih =>
      rw [answers?, List.mapM_cons, ← answers?, ih (Nat.le_of_succ_le_succ enough)]
      rfl

/-- With enough lines, every question is asked. -/
theorem length_ask {questions lines : List Text} (enough : questions.length ≤ lines.length) :
    (ask questions lines).length = questions.length := by
  fun_induction ask questions lines with
  | case1 => rfl
  | case2 => simp at enough
  | case3 question questions line lines ih =>
      rw [List.length_cons, List.length_cons, ih (Nat.le_of_succ_le_succ enough)]

/-- A question is answered by the line with the same place. -/
theorem getElem?_ask {questions lines : List Text} {index : Nat} {question line : Text}
    (asked : questions[index]? = some question) (answered : lines[index]? = some line) :
    (ask questions lines)[index]? = some ⟨question, some line⟩ := by
  fun_induction ask questions lines generalizing index with
  | case1 => cases asked
  | case2 => cases answered
  | case3 first questions given lines ih =>
      cases index with
      | zero =>
          cases asked
          cases answered
          rfl
      | succ index => exact ih asked answered

/-- Questions are asked from the first one on. -/
theorem questions_ask (questions lines : List Text) :
    (ask questions lines).map Exchange.question <+: questions := by
  fun_induction ask questions lines with
  | case1 => exact List.prefix_rfl
  | case2 question questions => exact List.prefix_append [question] questions
  | case3 question questions line lines ih => exact List.prefix_cons_inj question |>.mpr ih

/-- The questions are asked in their order. -/
theorem question_of_getElem?_ask {questions lines : List Text} {index : Nat} {exchange : Exchange}
    (asked : (ask questions lines)[index]? = some exchange) :
    questions[index]? = some exchange.question := by
  obtain ⟨rest, whole⟩ := questions_ask questions lines
  have inside := (List.getElem?_eq_some_iff.mp asked).1
  rw [← whole, List.getElem?_append_left (by rwa [List.length_map]), List.getElem?_map, asked]
  rfl

/-- An interview asks its questions one after the other. -/
theorem exchanges_conduct (name : Text) (lines : List Text) :
    (Interview.conduct name lines).exchanges = ask (questions name lines) lines := by
  match lines with
  | [] | [_] | _ :: _ :: _ => rfl

/-- A declaration asks for one line for each of its questions. -/
theorem wanted_eq (name : Text) (lines : List Text) :
    wanted lines = (questions name lines).length := by
  match lines with
  | [] | [_] => rfl
  | rows :: cols :: lines =>
      rw [wanted_cons_cons name, questions, List.length_cons, List.length_cons, Nat.add_comm]

/-- An interview gives no declaration exactly when the lines run out before the last question. -/
theorem declaration?_eq_none_iff (name : Text) (lines : List Text) :
    (Interview.conduct name lines).declaration? = none ↔
      lines.length < (questions name lines).length := by
  rw [← Option.not_isSome_iff_eq_none, (conduct_spec name lines).2, wanted_eq name, Nat.not_le]

/-! ## Tensors -/

/-- How an interview goes, also when it is not finished. -/
structure Orderly (name : Text) (lines : List Text) (interview : Interview) : Prop where
  asked : interview.exchanges = ask (questions name lines) lines
  once : (interview.exchanges.map Exchange.question).Nodup
  /-- The cells are asked for row by row. -/
  rowMajor : ∀ index exchange, interview.cellExchanges[index]? = some exchange →
    ∃ high wide rows cols, lines[0]? = some high ∧ lines[1]? = some wide ∧
      Dim.ofText high = .fixed rows ∧ Dim.ofText wide = .fixed cols ∧ index < rows * cols ∧
      exchange.question = cellQuestion name (index / cols) (index % cols)
  cancelled : interview.declaration? = none ↔ lines.length < (questions name lines).length

/-- The tensor of a declaration agrees with the questions that were asked for it. -/
structure Agrees (name : Text) (interview : Interview) (declaration : Declaration) : Prop where
  sizes : interview.exchanges.take 2 =
    [⟨name ++ " rows: ", some declaration.rows⟩, ⟨name ++ " cols: ", some declaration.cols⟩]
  /-- There are cells when they were asked for: at least one, and as many as the dimensions say. -/
  filled : (∃ cells, declaration.tensor? = .ok (.filled cells)) ↔
    ∃ rows cols, Dim.ofText declaration.rows = .fixed rows ∧
      Dim.ofText declaration.cols = .fixed cols ∧ 1 ≤ rows * cols ∧
      interview.cellExchanges.length = rows * cols
  /-- Each cell is the trimmed answer to the question with its position, or zero. -/
  cells : ∀ cells, declaration.tensor? = .ok (.filled cells) →
    Dim.ofText declaration.rows = .fixed cells.rows ∧
      Dim.ofText declaration.cols = .fixed cells.cols ∧
      interview.cellExchanges.length = cells.rows * cells.cols ∧
      ∀ (row : Fin cells.rows) (col : Fin cells.cols), ∃ answer,
        interview.cellExchanges[row * cells.cols + col]? =
            some ⟨cellQuestion name row col, some answer⟩ ∧
          cells.entry row col = if Text.trim answer = [] then ['0'] else Text.trim answer
  otherwise : (∀ cells, declaration.tensor? ≠ .ok (.filled cells)) →
    interview.cellExchanges = [] ∧
      (declaration.tensor? =
          .ok (.placeholder (Dim.ofText declaration.rows) (Dim.ofText declaration.cols)) ∨
        ∃ rows cols, Dim.ofText declaration.rows = .fixed rows ∧
          Dim.ofText declaration.cols = .fixed cols ∧
          declaration.tensor? = .error ⟨.invalidDimensions rows cols, []⟩)

/-- The exchanges of an interview that gives a declaration. -/
theorem exists_of_declaration? {lines : List Text} {declaration : Declaration}
    (given : (Interview.conduct name lines).declaration? = some declaration) :
    ∃ rows cols answers, lines = rows :: cols :: answers ∧
      (questionsAfter name rows cols).length ≤ answers.length ∧
      declaration = ⟨rows, cols, answers.take (questionsAfter name rows cols).length⟩ := by
  match lines with
  | [] | [_] => cases given
  | rows :: cols :: answers =>
      have enough : (questionsAfter name rows cols).length ≤ answers.length := by
        have few := declaration?_eq_none_iff name (rows :: cols :: answers)
        rw [given] at few
        simpa [questions] using mt few.mpr nofun
      rw [conduct_cons_cons, answers?_ask enough] at given
      cases given
      exact ⟨rows, cols, answers, rfl, enough, rfl⟩

/-- Every interview is orderly. -/
theorem orderly_conduct (name : Text) (lines : List Text) :
    Orderly name lines (Interview.conduct name lines) where
  asked := exchanges_conduct name lines
  once := by
    rw [exchanges_conduct]
    exact (nodup_questions name lines).sublist (questions_ask _ lines).sublist
  rowMajor := by
    intro index exchange asked
    match lines with
    | [] | [_] => simp [Interview.cellExchanges, exchanges_conduct, questions, ask] at asked
    | rows :: cols :: lines =>
        have question := @question_of_getElem?_ask (questionsAfter name rows cols) lines _ _ asked
        cases planned name rows cols with
        | cells tall broad _ asks =>
            rw [asks, cellQuestions_eq, List.getElem?_map] at question
            obtain ⟨place, found, same⟩ := Option.map_eq_some_iff.mp question
            obtain ⟨inside, rfl⟩ := List.getElem?_eq_some_iff.mp found
            rw [List.getElem_range] at same
            rw [List.length_range] at inside
            exact ⟨rows, cols, _, _, rfl, rfl, tall, broad, inside, same.symm⟩
        | impossible _ _ _ asks | placeholder _ asks =>
            rw [asks] at question
            cases question
  cancelled := declaration?_eq_none_iff name lines

/-- A cell of a declared grid is the trimmed answer to the question with its position, or zero. -/
theorem entry_declared {high wide : Nat} (possible : (cellCount? high wide).isSome)
    {answers : List Text} (enough : high * wide ≤ answers.length) {grid : Grid Text}
    (same : grid = .generate high wide fun row col =>
      Declaration.cell ⟨rows, cols, answers.take (high * wide)⟩ (row * wide + col))
    (row : Fin grid.rows) (col : Fin grid.cols) :
    ∃ answer, (ask (cellQuestions name high wide) answers)[row * grid.cols + col]? =
        some ⟨cellQuestion name row col, some answer⟩ ∧
      grid.entry row col = if Text.trim answer = [] then ['0'] else Text.trim answer := by
  obtain ⟨sameRows, sameCols⟩ : grid.rows = high ∧ grid.cols = wide :=
    same ▸ Prod.mk.inj (dims_generate possible _)
  have before : col < wide := Nat.lt_of_lt_of_eq col.isLt sameCols
  have inside : row * wide + col < high * wide := by
    calc row * wide + col < row * wide + wide := Nat.add_lt_add_left before _
      _ = (row + 1) * wide := (Nat.succ_mul row wide).symm
      _ ≤ high * wide := Nat.mul_le_mul_right wide (Nat.lt_of_lt_of_eq row.isLt sameRows)
  have asked : (cellQuestions name high wide)[row * wide + col]? =
      some (cellQuestion name row col) := by
    rw [cellQuestions_eq, List.getElem?_map, List.getElem?_range inside, Option.map_some,
      (place before).1, (place before).2]
  have answered := List.getElem?_eq_getElem (Nat.lt_of_lt_of_le inside enough)
  have index : row * grid.cols + col = row * wide + col := congrArg (row * · + col.val) sameCols
  rw [index]
  refine ⟨_, getElem?_ask asked answered, ?_⟩
  subst same
  rw [entry_generate, Declaration.cell, List.getElem?_take_of_lt inside, answered]
  rfl

/-- A declaration agrees with the interview that gave it. -/
theorem agrees_conduct {lines : List Text} {declaration : Declaration}
    (given : (Interview.conduct name lines).declaration? = some declaration) :
    Agrees name (Interview.conduct name lines) declaration := by
  obtain ⟨rows, cols, answers, rfl, enough, rfl⟩ := exists_of_declaration? given
  have asked : (Interview.conduct name (rows :: cols :: answers)).cellExchanges =
    ask (questionsAfter name rows cols) answers := rfl
  have count := length_ask enough
  cases planned name rows cols with
  | @cells high wide tall broad possible asks makes =>
      rw [asks, length_cellQuestions] at count enough ⊢
      rw [asks] at asked
      refine ⟨rfl, ⟨fun _ => ?_, fun _ => ⟨_, makes _⟩⟩, fun grid made => ?_, fun none => ?_⟩
      · exact ⟨high, wide, tall, broad, (cellCount?_isSome_iff.mp possible).1, asked ▸ count⟩
      · cases (makes _).symm.trans made
        obtain ⟨sameRows, sameCols⟩ := Prod.mk.inj (dims_generate possible fun row col =>
          Declaration.cell ⟨rows, cols, answers.take (high * wide)⟩ (row * wide + col))
        rw [asked]
        refine ⟨by rw [sameRows, tall], by rw [sameCols, broad], ?_,
          entry_declared possible enough rfl⟩
        rw [count, sameRows, sameCols]
      · exact absurd (makes _) (none _)
  | @impossible high wide tall broad impossible asks makes =>
      rw [asks] at asked
      refine ⟨rfl, ⟨?_, ?_⟩, fun cells made => ?_,
        fun _ => ⟨asked, .inr ⟨high, wide, tall, broad, makes _⟩⟩⟩
      · rintro ⟨cells, made⟩
        cases (makes _).symm.trans made
      · rintro ⟨_, _, _, _, any, counted⟩
        rw [asked] at counted
        exact absurd (counted ▸ any) (by simp [ask])
      · cases (makes _).symm.trans made
  | placeholder symbolic asks makes =>
      rw [asks] at asked
      refine ⟨rfl, ⟨?_, ?_⟩, fun cells made => ?_, fun _ => ⟨asked, .inl (makes _)⟩⟩
      · rintro ⟨cells, made⟩
        cases (makes _).symm.trans made
      · rintro ⟨_, _, tall, broad, _⟩
        exact absurd broad (symbolic _ _ tall)
      · cases (makes _).symm.trans made

/-- An interview asks for the cells that the dimensions promise, row by row and each once, unless
the lines run out. The tensor of the declaration has a cell for each of these questions, and has
none if there were none. -/
theorem interview_agrees (name : Text) (lines : List Text) :
    Orderly name lines (Interview.conduct name lines) ∧
      ∀ declaration, (Interview.conduct name lines).declaration? = some declaration →
        Agrees name (Interview.conduct name lines) declaration :=
  ⟨orderly_conduct name lines, fun _ given => agrees_conduct given⟩

/-- A column of two cells, of which one is left blank. The last line is not an answer. -/
theorem interview_agrees_column :
    (Interview.conduct "v" ["2", "1", " x", "", "v"]).declaration? =
        some ⟨"2", "1", [" x".toList, []]⟩ ∧
      Declaration.tensor? ⟨"2", "1", [" x".toList, []]⟩ =
        .ok (.filled (.generate 2 1 fun row _ => if row = 0 then ['x'] else ['0'])) ∧
      Agrees "v" (Interview.conduct "v" ["2", "1", " x", "", "v"])
        ⟨"2", "1", [" x".toList, []]⟩ := by
  have given : (Interview.conduct "v" ["2", "1", " x", "", "v"]).declaration? =
      some ⟨"2", "1", [" x".toList, []]⟩ := by decide +kernel
  exact ⟨given, by decide +kernel, (interview_agrees "v" ["2", "1", " x", "", "v"]).2 _ given⟩

/-- Without a row there are as many questions for cells as the dimensions say, namely none, and no
tensor is made. -/
theorem not_filled_without_rows :
    ¬ ∀ (name : Text) (lines : List Text) (declaration : Declaration),
      (Interview.conduct name lines).declaration? = some declaration →
        ((∃ cells, declaration.tensor? = .ok (.filled cells)) ↔
          ∃ rows cols, Dim.ofText declaration.rows = .fixed rows ∧
            Dim.ofText declaration.cols = .fixed cols ∧
            (Interview.conduct name lines).cellExchanges.length = rows * cols) := by
  intro always
  have asked := always "A" ["0", "3"] ⟨"0", "3", []⟩ (by decide +kernel)
  obtain ⟨cells, made⟩ := asked.mpr ⟨0, 3, by decide +kernel, by decide +kernel, by decide +kernel⟩
  have rejected : Declaration.tensor? ⟨"0", "3", []⟩ = .error ⟨.invalidDimensions 0 3, []⟩ := by
    decide +kernel
  cases rejected.symm.trans made

end MatrixFormula.Session
