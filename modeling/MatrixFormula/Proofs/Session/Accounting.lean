import MatrixFormula.Proofs.Session.Invariant

/-!
# What becomes of the lines of a script

Each line of a script is blank and skipped, or it is processed, or it answers a question of the line
that was processed before it. A line takes as many answers as it asks for, which only a request to
declare a variable does, and takes all that are left when these are fewer.
-/

namespace MatrixFormula.Session

/-- The number of answers that a declaration asks for, given the answers: two for the dimensions,
and one for each cell of a possible grid. -/
def wanted : List Text → Nat
  | rows :: cols :: _ =>
      match Dim.ofText rows, Dim.ofText cols with
      | .fixed rows, .fixed cols => 2 + (cellCount? rows cols).getD 0
      | _, _ => 2
  | _ => 2

/-- The number of answers that a line asks for, given the lines behind it. -/
def demanded (line : Text) (lines : List Text) : Nat :=
  if (Workspace.declaredName? line).isSome then wanted lines else 0

/-- The answers that a line took. -/
def Response.answers (response : Response) : List Text :=
  response.exchanges.filterMap Exchange.answer?

/-- The lines, from the first to the last, are blank and skipped, or processed to a response, or
answers that belong to the response in front of them. -/
inductive Accounts : Workspace → List Text → List Response → Prop where
  | done (workspace : Workspace) : Accounts workspace [] []
  | skipped {workspace : Workspace} {line : Text} {lines : List Text} {responses : List Response}
      (blank : Text.isBlankText line) (later : Accounts workspace lines responses) :
      Accounts workspace (line :: lines) responses
  | processed {workspace : Workspace} {line : Text} {answers lines : List Text}
      {response : Response} {responses : List Response} (shown : Text.isBlankText line = false)
      (processes : process workspace line (answers ++ lines) = response)
      (takes : response.answers = answers) (count : answers.length = demanded line answers)
      (later : Accounts response.workspace lines responses) :
      Accounts workspace (line :: (answers ++ lines)) (response :: responses)
  /-- The lines run out before all questions are answered. -/
  | cancelled {workspace : Workspace} {line : Text} {answers : List Text} {response : Response}
      (shown : Text.isBlankText line = false) (processes : process workspace line answers = response)
      (takes : response.answers = answers) (few : answers.length < demanded line answers)
      (silent : response.result = .ok none) (unchanged : response.workspace = workspace) :
      Accounts workspace (line :: answers) [response]

/-! ## The answers of an interview -/

/-- The questions are answered by the lines, as far as there are any. -/
theorem answers_ask (questions lines : List Text) :
    (ask questions lines).filterMap Exchange.answer? = lines.take questions.length := by
  fun_induction ask questions lines with
  | case1 => rfl
  | case2 => rfl
  | case3 question questions line lines ih => simp [ih]

/-- All questions have an answer when there are enough lines. -/
theorem isSome_answers?_ask (questions lines : List Text) :
    (answers? (ask questions lines)).isSome ↔ questions.length ≤ lines.length := by
  fun_induction ask questions lines with
  | case1 => simp [answers?]
  | case2 question questions => simp [answers?]
  | case3 question questions line lines ih =>
      rw [answers?] at ih ⊢
      rw [List.mapM_cons]
      cases rest : (ask questions lines).mapM Exchange.answer? with
      | none => simp_all
      | some => simp_all

/-- There is one question for each cell. -/
theorem length_cellQuestions (name : Text) (rows cols : Nat) :
    (cellQuestions name rows cols).length = rows * cols := by
  simp [cellQuestions, List.length_flatMap, List.map_const']

/-- There are two questions for the dimensions and one for each cell of a possible grid. -/
theorem wanted_cons_cons (name rows cols : Text) (lines : List Text) :
    wanted (rows :: cols :: lines) = 2 + (questionsAfter name rows cols).length := by
  simp only [wanted, questionsAfter]
  cases Dim.ofText rows with
  | symbolic => rfl
  | fixed rows =>
      cases Dim.ofText cols with
      | symbolic => rfl
      | fixed cols =>
          by_cases possible : 1 ≤ rows * cols ∧ rows * cols ≤ maxCells
          · simp [cellCount?, possible, length_cellQuestions]
          · simp [cellCount?, possible]

/-- Once the dimensions are known, the cells are asked for. -/
theorem conduct_cons_cons (name rows cols : Text) (lines : List Text) :
    Interview.conduct name (rows :: cols :: lines) =
      { exchanges := ⟨name ++ " rows: ", some rows⟩ :: ⟨name ++ " cols: ", some cols⟩ ::
          ask (questionsAfter name rows cols) lines
        declaration? := (answers? (ask (questionsAfter name rows cols) lines)).map fun texts =>
          ⟨rows, cols, texts⟩ } := rfl

/-- An interview takes the lines that it wants, and makes a declaration if there are enough. -/
theorem conduct_spec (name : Text) (lines : List Text) :
    (Interview.conduct name lines).exchanges.filterMap Exchange.answer? = lines.take (wanted lines) ∧
      ((Interview.conduct name lines).declaration?.isSome ↔ wanted lines ≤ lines.length) := by
  match lines with
  | [] => exact ⟨rfl, by simp [Interview.conduct, ask, answers?, wanted]⟩
  | [rows] => exact ⟨rfl, by simp [Interview.conduct, ask, answers?, wanted]⟩
  | rows :: cols :: lines =>
      have enough := isSome_answers?_ask (questionsAfter name rows cols) lines
      have taken := answers_ask (questionsAfter name rows cols) lines
      rw [wanted_cons_cons name, conduct_cons_cons]
      constructor
      · simp only [List.filterMap_cons, taken, Nat.add_comm 2, List.take_succ_cons]
      · simp only [Option.isSome_map, enough, List.length_cons]
        omega

/-! ## The answers of a line -/

variable {line : Text}

/-- A request to declare a variable is no command, since it starts with a letter. -/
theorem ofLine_of_declaredName? {name : Text} (asked : Workspace.declaredName? line = some name) :
    Command.ofLine line = .formula line := by
  obtain ⟨identifier, rest, rfl⟩ := Workspace.identifier_of_declaredName? asked
  obtain ⟨first, run, rfl, starts, -⟩ := Token.exists_of_isIdentifier identifier
  have shown : Text.isBlank first = false :=
    Token.not_isBlank_of_continuesName (by simp [Token.continuesName, starts])
  have letter : first ≠ ':' := by
    rintro rfl
    cases starts
  rw [Command.ofLine, Text.trimStart, List.cons_append, List.dropWhile_cons, shown]
  split
  · next spelled => exact absurd (List.cons.inj spelled).1 letter
  · rfl

/-- A line that is a formula is read as a whole. -/
theorem eq_of_ofLine_formula {formula : Text} (plain : Command.ofLine line = .formula formula) :
    formula = line := by
  simp only [Command.ofLine] at plain
  repeat' split at plain
  all_goals cases plain
  rfl

/-- A line that asks for no declaration has no questions. -/
theorem exchanges_process (quiet : Workspace.declaredName? line = none) (workspace : Workspace)
    (lines : List Text) : (process workspace line lines).exchanges = [] := by
  unfold process
  split
  case h_5 formula plain =>
    obtain rfl := eq_of_ofLine_formula plain
    rw [processFormula, quiet]
  all_goals rfl

/-- A line that asks for a declaration leads to an interview. Nothing is shown or saved without a
declaration. -/
theorem process_of_declaredName? {name : Text} (asked : Workspace.declaredName? line = some name)
    (workspace : Workspace) (lines : List Text) :
    (process workspace line lines).exchanges = (Interview.conduct name lines).exchanges ∧
      ((Interview.conduct name lines).declaration? = none →
        (process workspace line lines).result = .ok none ∧
          (process workspace line lines).workspace = workspace) := by
  rw [process, ofLine_of_declaredName? asked]
  simp only [processFormula, asked, Workspace.assign]
  constructor
  · split <;> rfl
  · intro none
    rw [none]
    exact ⟨rfl, rfl⟩

/-- A line takes the lines behind it that it asks for as answers. -/
theorem answers_process (workspace : Workspace) (line : Text) (lines : List Text) :
    (process workspace line lines).answers = lines.take (demanded line lines) := by
  unfold demanded Response.answers
  cases asked : Workspace.declaredName? line with
  | none => simp [exchanges_process asked]
  | some name =>
      rw [(process_of_declaredName? asked workspace lines).1]
      exact (conduct_spec name lines).1

/-- Nothing is shown or saved when the lines run out. -/
theorem process_of_few {lines : List Text} (few : lines.length < demanded line lines)
    (workspace : Workspace) :
    (process workspace line lines).result = .ok none ∧
      (process workspace line lines).workspace = workspace := by
  unfold demanded at few
  cases asked : Workspace.declaredName? line with
  | none => simp [asked] at few
  | some name =>
      rw [asked] at few
      refine (process_of_declaredName? asked workspace lines).2 ?_
      have enough := (conduct_spec name lines).2
      exact Option.not_isSome_iff_eq_none.mp (mt enough.mp (Nat.not_le.mpr few))

/-- The lines that a response takes are its answers. -/
theorem taken_eq (response : Response) : response.taken = response.answers.length := by
  rw [Response.taken, answered, Response.answers, List.length_filterMap_eq_countP]

/-- What a line asks for is known from the answers that it takes. -/
theorem demanded_take (line : Text) (lines : List Text) :
    demanded line (lines.take (demanded line lines)) = demanded line lines := by
  unfold demanded
  split
  · match lines with
    | [] => rfl
    | [rows] => rfl
    | rows :: cols :: lines =>
        rw [wanted_cons_cons [], Nat.add_comm]
        exact (wanted_cons_cons [] rows cols _).trans (Nat.add_comm ..)
  · rfl

/-! ## Lines in a row -/

/-- Every line is accounted for, in order. -/
theorem accounts_runLines (workspace : Workspace) (lines : List Text) :
    Accounts workspace lines (runLines workspace lines) := by
  fun_induction runLines workspace lines with
  | case1 workspace => exact .done workspace
  | case2 workspace line lines blank ih => exact .skipped blank ih
  | case3 workspace line lines shown response ih =>
      have takes : response.answers = lines.take (demanded line lines) :=
        answers_process workspace line lines
      have shown : Text.isBlankText line = false := Bool.eq_false_iff.mpr shown
      -- Without enough answers the line takes all that is left, so nothing else is processed.
      by_cases few : lines.length < demanded line lines
      · have all : response.answers = lines := takes.trans (List.take_of_length_le (Nat.le_of_lt few))
        have rest : lines.drop response.taken = [] := by rw [taken_eq, all, List.drop_length]
        obtain ⟨silent, unchanged⟩ := process_of_few few workspace
        rw [rest, runLines]
        exact .cancelled shown rfl all few silent unchanged
      · have length : (lines.take (demanded line lines)).length = demanded line lines :=
          List.length_take_of_le (Nat.le_of_not_lt few)
        have taken : response.taken = demanded line lines := by rw [taken_eq, takes, length]
        rw [taken] at ih ⊢
        have whole := @Accounts.processed workspace line (lines.take (demanded line lines)) _ response
          _ shown (by rw [List.take_append_drop]) takes (by rw [length, demanded_take]) ih
        rwa [List.take_append_drop] at whole

/-! ## The lines of a script -/

/-- The text is made of the lines. Each of them ends with a line feed, or with a carriage return and
a line feed, and the last one may end with the text. No line contains a line feed, and where a line
ends with a line feed alone, no carriage return stands in front of it. -/
inductive Lines : Text → List Text → Prop where
  | nil : Lines [] []
  | last {line : Text} (nonempty : line ≠ []) (inside : '\n' ∉ line) : Lines line [line]
  | feed {line rest : Text} {lines : List Text} (inside : '\n' ∉ line)
      (alone : line.getLast? ≠ some '\r') (later : Lines rest lines) :
      Lines (line ++ '\n' :: rest) (line :: lines)
  | returned {line rest : Text} {lines : List Text} (inside : '\n' ∉ line)
      (later : Lines rest lines) : Lines (line ++ '\r' :: '\n' :: rest) (line :: lines)

variable {char : Char} {text line : Text} {lines : List Text}

/-- A character that ends no line belongs to the first line. -/
theorem splitLines_cons (inside : char ≠ '\n') (alone : char = '\r' → text.head? ≠ some '\n') :
    splitLines (char :: text) =
      match splitLines text with
      | line :: lines => (char :: line) :: lines
      | [] => [[char]] :=
  splitLines.eq_4 char text inside fun _ returns feeds => alone returns (by simp [feeds])

/-- A character in front of a text that ends no line belongs to its first line. -/
theorem Lines.cons (inside : char ≠ '\n') (alone : char = '\r' → text.head? ≠ some '\n')
    (made : Lines text (line :: lines)) : Lines (char :: text) ((char :: line) :: lines) := by
  cases made with
  | last nonempty others => exact .last (by simp) (by simp [others, Ne.symm inside])
  | feed others bare later =>
      rw [← List.cons_append]
      refine .feed (by simp [others, Ne.symm inside]) ?_ later
      -- The line ends with the new character only if there was nothing in it.
      cases line with
      | nil =>
          intro ends
          exact alone (Option.some.inj ends) rfl
      | cons next line => simpa using bare
  | returned others later =>
      rw [← List.cons_append]
      exact .returned (by simp [others, Ne.symm inside]) later

/-- A text is made of the lines that it is split into. -/
theorem lines_splitLines (text : Text) : Lines text (splitLines text) := by
  fun_induction splitLines text with
  | case1 => exact .nil
  | case2 rest ih => exact @Lines.feed [] _ _ (by simp) (by simp) ih
  | case3 rest ih => exact @Lines.returned [] _ _ (by simp) ih
  | case4 char rest inside alone line lines split ih =>
      rw [split] at ih
      refine ih.cons inside ?_
      rintro rfl head
      obtain ⟨others, rfl⟩ := List.head?_eq_some_iff.mp head
      exact alone others rfl rfl
  | case5 char rest inside alone split ih =>
      rw [split] at ih
      cases ih
      exact .last (by simp) (by simpa using Ne.symm inside)

/-- Characters in front of a text that end no line belong to its first line. -/
theorem splitLines_append {front : Text} (inside : '\n' ∉ front)
    (alone : front.getLast? = some '\r' → text.head? ≠ some '\n')
    (split : splitLines text = line :: lines) :
    splitLines (front ++ text) = (front ++ line) :: lines := by
  induction front with
  | nil => exact split
  | cons char front ih =>
      simp only [List.mem_cons, not_or] at inside
      have later : splitLines (front ++ text) = (front ++ line) :: lines := by
        refine ih inside.2 fun ends => ?_
        obtain ⟨first, others, rfl⟩ := List.exists_cons_of_ne_nil (List.ne_nil_of_mem
          (List.mem_of_getLast? ends))
        exact alone (by simpa using ends)
      rw [List.cons_append, splitLines_cons (Ne.symm inside.1), later]
      · rfl
      -- A carriage return in front ends no line, since no line feed follows it.
      · rintro rfl
        cases front with
        | nil => exact alone rfl
        | cons next front =>
            intro head
            exact inside.2 (by simp [Option.some.inj head])

/-- A text is split into the lines that it is made of. -/
theorem splitLines_eq_iff : splitLines text = lines ↔ Lines text lines := by
  constructor
  · rintro rfl
    exact lines_splitLines text
  · intro made
    induction made with
    | nil => rfl
    | last nonempty inside =>
        obtain ⟨front, char, rfl⟩ := (List.eq_nil_or_concat' _).resolve_left nonempty
        simp only [List.mem_append, List.mem_singleton, not_or] at inside
        have single : splitLines [char] = [[char]] := splitLines_cons (Ne.symm inside.2) nofun
        exact splitLines_append inside.1 (fun _ head => inside.2 (Option.some.inj head).symm) single
    | feed inside alone later ih =>
        have split : splitLines ('\n' :: _) = [] :: _ := congrArg (List.cons []) ih
        simpa using splitLines_append inside (fun ends => absurd ends alone) split
    | returned inside later ih =>
        have split : splitLines ('\r' :: '\n' :: _) = [] :: _ := congrArg (List.cons []) ih
        simpa using splitLines_append inside (by simp) split

/-- Running a script accounts for each of its lines, and shows what comes of the responses. -/
theorem script_accounted (script : Text) :
    ∃ responses, Accounts {} (splitLines script) responses ∧
      (runScript script).output = responses.flatMap Response.output ∧
      (runScript script).complaints = responses.filterMap fun response =>
        match response.result with
        | .error failure => some failure.headline
        | .ok _ => none :=
  ⟨_, accounts_runLines {} (splitLines script), rfl, rfl⟩

end MatrixFormula.Session
