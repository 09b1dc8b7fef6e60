import MatrixFormula.Proofs.Session.Accounting

/-!
# Lines without effect

The lines of a script are divided into turns: a turn is a blank line, or a line that is processed
with the answers that it takes. What a turn leads to depends on its lines and on the workspace
before it. Only a declaration that succeeds changes the workspace, so all other turns can be left
out of a script, and what remains is divided into the same turns and leads to the same responses.
-/

namespace MatrixFormula.Session

/-- Whether the response to a line shows a text. -/
def Response.shows (response : Response) : Bool :=
  match response.result with
  | .ok (some _) => true
  | _ => false

/-- The line asks for a declaration, and it succeeds. -/
def Declares (line : Text) (response : Response) : Prop :=
  (Workspace.declaredName? line).isSome ∧ response.shows

instance (line : Text) (response : Response) : Decidable (Declares line response) :=
  inferInstanceAs (Decidable (_ ∧ _))

/-- What a line does to the workspace. -/
inductive Effect (workspace : Workspace) (line : Text) (response : Response) : Prop where
  | unchanged (undeclared : ¬ Declares line response) (same : response.workspace = workspace)
  /-- A variable is declared. What is shown is the tensor that is stored. -/
  | declared {name : Text} {tensor : Tensor} (asked : Workspace.declaredName? line = some name)
      (shown : response.result = .ok (some (Name.display name ++ " = " ++ tensor.latex)))
      (stored : response.workspace.store.get? name = some tensor)
      (others : ∀ other, other ≠ name →
        response.workspace.store.get? other = workspace.store.get? other)
      (palette : response.workspace.palette = workspace.palette)

variable {workspace : Workspace} {line : Text} {answers : List Text}

/-- A line that asks for no declaration has no effect, and no use for the lines behind it. -/
theorem process_of_quiet (quiet : Workspace.declaredName? line = none) (lines others : List Text) :
    (process workspace line lines).workspace = workspace ∧
      process workspace line others = process workspace line lines := by
  unfold process
  split
  case h_5 formula plain =>
    obtain rfl := eq_of_ofLine_formula plain
    simp only [processFormula, quiet, and_self]
  all_goals exact ⟨rfl, rfl⟩

/-- Processing a line has one of the effects that a line may have. -/
theorem effect_process (workspace : Workspace) (line : Text) (lines : List Text) :
    Effect workspace line (process workspace line lines) := by
  cases asked : Workspace.declaredName? line with
  | none =>
      refine .unchanged (fun declares => ?_) (process_of_quiet asked lines lines).1
      simpa [asked] using declares.1
  | some name =>
      cases given : (Interview.conduct name lines).declaration? with
      | none =>
          obtain ⟨silent, same⟩ := (process_of_declaredName? asked workspace lines).2 given
          refine .unchanged (fun declares => ?_) same
          rw [Declares, Response.shows, silent] at declares
          exact Bool.false_ne_true declares.2
      | some declaration =>
          have response : process workspace line lines = processFormula workspace line lines := by
            rw [process, ofLine_of_declaredName? asked]
          simp only [processFormula, asked, Workspace.assign, given, Workspace.define] at response
          cases made : declaration.tensor? with
          | error diagnostic =>
              rw [made] at response
              rw [response]
              exact .unchanged (fun declares => Bool.false_ne_true declares.2) rfl
          | ok tensor =>
              rw [made] at response
              rw [response]
              refine .declared asked rfl ?_ ?_ rfl
              · exact (Store.get?_insert ..).trans (if_pos rfl)
              · exact fun other apart => (Store.get?_insert ..).trans (if_neg apart)

/-! ## Turns -/

/-- What becomes of the next lines of a script. -/
inductive Turn where
  /-- A blank line is skipped. -/
  | skipped (line : Text)
  /-- A line is processed, and the lines behind it answer its questions. -/
  | processed (line : Text) (answers : List Text) (response : Response)

namespace Turn

/-- The lines of a turn. -/
def lines : Turn → List Text
  | .skipped line => [line]
  | .processed line answers _ => line :: answers

def response? : Turn → Option Response
  | .skipped _ => none
  | .processed _ _ response => some response

/-- Whether the turn is a declaration that succeeds. -/
def Succeeds : Turn → Prop
  | .skipped _ => False
  | .processed line _ response => Declares line response

instance : (turn : Turn) → Decidable turn.Succeeds
  | .skipped _ => isFalse id
  | .processed line _ response => inferInstanceAs (Decidable (Declares line response))

end Turn

/-- Divides lines into turns, and processes them. -/
def turns (workspace : Workspace) : List Text → List Turn
  | [] => []
  | line :: lines =>
      if Text.isBlankText line then .skipped line :: turns workspace lines
      else
        let response := process workspace line lines
        .processed line (lines.take response.taken) response ::
          turns response.workspace (lines.drop response.taken)
termination_by lines => lines.length
decreasing_by all_goals simp only [List.length_drop, List.length_cons]; omega

/-- The turns have all the lines. -/
theorem lines_turns (workspace : Workspace) (lines : List Text) :
    (turns workspace lines).flatMap Turn.lines = lines := by
  fun_induction turns workspace lines with
  | case1 => rfl
  | case2 workspace line lines blank ih => rw [List.flatMap_cons, ih]; rfl
  | case3 workspace line lines shown response ih =>
      rw [List.flatMap_cons, ih, Turn.lines, List.cons_append, List.take_append_drop]

/-- The turns have all the responses. -/
theorem responses_turns (workspace : Workspace) (lines : List Text) :
    (turns workspace lines).filterMap Turn.response? = runLines workspace lines := by
  fun_induction turns workspace lines with
  | case1 => rw [runLines, List.filterMap_nil]
  | case2 workspace line lines blank ih => rw [runLines, if_pos blank, ← ih]; rfl
  | case3 workspace line lines shown response ih =>
      rw [runLines, if_neg shown]
      exact congrArg (response :: ·) ih

/-- The turns follow from each other: each takes as many answers as it asks for, or it is the last
one and there are no more lines. -/
inductive Follow : Workspace → List Turn → Prop where
  | done (workspace : Workspace) : Follow workspace []
  | skipped {workspace : Workspace} {line : Text} {turns : List Turn}
      (blank : Text.isBlankText line) (later : Follow workspace turns) :
      Follow workspace (.skipped line :: turns)
  | processed {workspace : Workspace} {line : Text} {answers : List Text} {turns : List Turn}
      (shown : Text.isBlankText line = false) (count : answers.length = demanded line answers)
      (later : Follow (process workspace line answers).workspace turns) :
      Follow workspace (.processed line answers (process workspace line answers) :: turns)
  | cancelled {workspace : Workspace} {line : Text} {answers : List Text}
      (shown : Text.isBlankText line = false) (few : answers.length < demanded line answers) :
      Follow workspace [.processed line answers (process workspace line answers)]

/-! ## A line depends on the answers that it takes -/

/-- Lines that no question asks for make no difference. -/
theorem ask_take (questions lines : List Text) :
    ask questions (lines.take questions.length) = ask questions lines := by
  fun_induction ask questions lines with
  | case1 => rfl
  | case2 => rfl
  | case3 question questions line lines ih => rw [List.length_cons, List.take_succ_cons, ask, ih]

/-- An interview does not depend on lines that it does not ask for. -/
theorem conduct_take (name : Text) (lines : List Text) :
    Interview.conduct name (lines.take (wanted lines)) = Interview.conduct name lines := by
  match lines with
  | [] | [_] => rfl
  | rows :: cols :: lines =>
      rw [wanted_cons_cons name, Nat.add_comm, List.take_succ_cons, List.take_succ_cons,
        conduct_cons_cons, conduct_cons_cons, ask_take]

/-- The lines behind the answers make no difference. -/
theorem process_take (workspace : Workspace) (line : Text) (lines : List Text) :
    process workspace line (lines.take (demanded line lines)) = process workspace line lines := by
  cases asked : Workspace.declaredName? line with
  | none => exact (process_of_quiet asked ..).2
  | some name =>
      rw [process, process, ofLine_of_declaredName? asked]
      simp only [processFormula, asked, demanded, Option.isSome_some, if_true, conduct_take]

/-- What is asked for is known from enough answers. -/
theorem demanded_append (full : demanded line answers ≤ answers.length) (others : List Text) :
    demanded line (answers ++ others) = demanded line answers := by
  unfold demanded at full ⊢
  split
  · next asked =>
      rw [if_pos asked] at full
      match answers with
      | [] | [_] => simp [wanted] at full
      | rows :: cols :: answers => rfl
  · rfl

/-- The first line that is not blank is a turn, with the answers that it asks for. -/
theorem turns_cons (shown : Text.isBlankText line = false) (lines : List Text) :
    turns workspace (line :: lines) =
      .processed line (lines.take (demanded line lines))
          (process workspace line (lines.take (demanded line lines))) ::
        turns (process workspace line (lines.take (demanded line lines))).workspace
          (lines.drop (demanded line lines)) := by
  have taken : (process workspace line lines).taken = min (demanded line lines) lines.length := by
    rw [taken_eq, answers_process, List.length_take]
  rw [turns, if_neg (by simp [shown]), process_take]
  simp only [taken, ← List.take_eq_take_min, ← List.drop_eq_drop_min]

/-- The turns of a session follow one another. -/
theorem follow_turns (workspace : Workspace) (lines : List Text) :
    Follow workspace (turns workspace lines) := by
  induction size : lines.length using Nat.strongRecOn generalizing workspace lines with
  | ind size ih =>
  match lines with
  | [] =>
      rw [turns]
      exact .done workspace
  | line :: lines =>
      by_cases blank : Text.isBlankText line
      · rw [turns, if_pos blank]
        exact .skipped blank (ih _ (by simp [← size]) workspace lines rfl)
      · have shown : Text.isBlankText line = false := Bool.eq_false_iff.mpr blank
        rw [turns_cons shown]
        rcases Nat.lt_or_ge lines.length (demanded line lines) with few | enough
        · rw [List.take_of_length_le (Nat.le_of_lt few), List.drop_of_length_le (Nat.le_of_lt few),
            turns]
          exact .cancelled shown few
        · refine .processed shown ?_ (ih _ ?_ _ _ rfl)
          · rw [demanded_take, List.length_take_of_le enough]
          · simp only [List.length_drop, ← size, List.length_cons]
            omega

/-- Lines are divided in one way only. -/
theorem Follow.turns_lines {played : List Turn} (follow : Follow workspace played) :
    turns workspace (played.flatMap Turn.lines) = played := by
  induction follow with
  | done => rw [List.flatMap_nil, turns]
  | skipped blank _ ih =>
      rw [List.flatMap_cons, Turn.lines, List.singleton_append, turns, if_pos blank, ih]
  | @processed workspace line answers played shown count _ ih =>
      rw [List.flatMap_cons, Turn.lines, List.cons_append, turns_cons shown,
        demanded_append (Nat.le_of_eq count.symm), ← count, List.take_left, List.drop_left, ih]
  | @cancelled workspace line answers shown few =>
      rw [List.flatMap_cons, Turn.lines, List.flatMap_nil, List.append_nil, turns_cons shown,
        List.take_of_length_le (Nat.le_of_lt few), List.drop_of_length_le (Nat.le_of_lt few), turns]

/-! ## Erasing turns -/

/-- Some turns are left out, and no declaration that succeeds is among them. -/
inductive Erased : List Turn → List Turn → Prop where
  | nil : Erased [] []
  | kept (turn : Turn) {played rest : List Turn} (later : Erased played rest) :
      Erased (turn :: played) (turn :: rest)
  | erased {turn : Turn} {played rest : List Turn} (fails : ¬ turn.Succeeds)
      (later : Erased played rest) : Erased (turn :: played) rest

/-- Without turns that have no effect, the others still follow from each other. -/
theorem Follow.erased {played rest : List Turn} (erased : Erased played rest)
    (follow : Follow workspace played) : Follow workspace rest := by
  induction erased generalizing workspace with
  | nil => exact follow
  | kept turn later ih =>
      cases follow with
      | skipped blank follow => exact .skipped blank (ih follow)
      | processed shown count follow => exact .processed shown count (ih follow)
      | cancelled shown few =>
          cases later
          exact .cancelled shown few
  | erased fails later ih =>
      cases follow with
      | skipped blank follow => exact ih follow
      | @processed _ line answers _ shown count follow =>
          cases effect_process workspace line answers with
          | unchanged _ same => exact ih (same ▸ follow)
          | declared asked shown =>
              exact absurd ⟨Option.isSome_of_eq_some asked, by rw [Response.shows, shown]⟩ fails
      | cancelled shown few =>
          cases later
          exact .done workspace

/-- The lines of a script are divided into turns, and leaving out turns that are no successful
declarations leaves the responses of all others as they are. A declaration that succeeds changes
nothing but its variable, and shows what it stores. -/
theorem only_declarations_matter (workspace : Workspace) :
    (∀ lines, (turns workspace lines).flatMap Turn.lines = lines ∧
      (turns workspace lines).filterMap Turn.response? = runLines workspace lines) ∧
    (∀ lines rest, Erased (turns workspace lines) rest →
      runLines workspace (rest.flatMap Turn.lines) = rest.filterMap Turn.response?) ∧
    ∀ line lines, Effect workspace line (process workspace line lines) := by
  refine ⟨fun lines => ⟨lines_turns workspace lines, responses_turns workspace lines⟩,
    fun lines rest erased => ?_, effect_process workspace⟩
  have follow : Follow workspace rest := (follow_turns workspace lines).erased erased
  rw [← responses_turns, follow.turns_lines]

/-- A declaration is followed by one of an impossible size, a value and a declaration for which the
lines run out. -/
def failingLines : List Text := ["a =", "1", "1", "x", "b =", "0", "2", ":calc a", "b =", "2"]

/-- A declaration without a cell is reported, one that lacks an answer is not, and neither leaves a
trace. -/
theorem only_declarations_matter_failing :
    (∃ rest, Erased (turns {} failingLines) rest ∧
      rest.flatMap Turn.lines = (["a =", "1", "1", "x", ":calc a"] : List Text) ∧
      runLines {} (rest.flatMap Turn.lines) = rest.filterMap Turn.response?) ∧
    (runLines {} failingLines).map Response.result =
      [.ok (some "a = \\begin\x7bpmatrix\x7dx\\end\x7bpmatrix\x7d".toList),
        .error (.formula "b =".toList ⟨.invalidDimensions 0 2, []⟩),
        .ok (some "\\begin\x7bpmatrix\x7dx\\end\x7bpmatrix\x7d".toList), .ok none] := by
  have follow : Follow {} [_, _, _, _] :=
    @Follow.processed {} "a =".toList [['1'], ['1'], ['x']] _ rfl (by decide +kernel)
      (@Follow.processed _ "b =".toList [['0'], ['2']] _ rfl (by decide +kernel)
        (@Follow.processed _ ":calc a".toList [] _ rfl (by decide +kernel)
          (@Follow.cancelled _ "b =".toList [['2']] rfl (by decide +kernel))))
  have divided : turns {} failingLines = [_, _, _, _] := follow.turns_lines
  have ⟨rest, erased, left⟩ : ∃ rest, Erased (turns {} failingLines) rest ∧
      rest.flatMap Turn.lines = (["a =", "1", "1", "x", ":calc a"] : List Text) := by
    rw [divided]
    exact ⟨_, .kept _ (.erased (by decide +kernel) (.kept _ (.erased (by decide +kernel) .nil))),
      rfl⟩
  exact ⟨⟨rest, erased, left, (only_declarations_matter {}).2.1 _ rest erased⟩, by decide +kernel⟩

end MatrixFormula.Session
