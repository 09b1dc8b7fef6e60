import MatrixFormula.Text.Basic

/-!
# Markup blocks

A formula may contain commands in markup, which are copied as they are. A command
extends over the groups in braces that follow it, and `begin` over its whole
environment. Either takes in the subscripts in braces behind it. A group or an
environment that is never closed extends to the end of the text.

Each function here cuts a text in two, and nothing is lost between the parts.
-/

namespace MatrixFormula.Markup.Block

/-- Cuts a text behind the brace that closes a group, when the text stands inside the
group and inside `depth` groups of it. -/
def closeGroup : Nat → Text → Text × Text
  | _, [] => ([], [])
  | depth, char :: rest =>
      if char = '\x7b' then
        let (inside, after) := closeGroup (depth + 1) rest
        (char :: inside, after)
      else if char = '\x7d' then
        match depth with
        | 0 => ([char], rest)
        | depth + 1 =>
            let (inside, after) := closeGroup depth rest
            (char :: inside, after)
      else
        let (inside, after) := closeGroup depth rest
        (char :: inside, after)

/-- What closes a group and what stands behind it spell the text. -/
@[simp] theorem closeGroup_append (depth : Nat) (text : Text) :
    (closeGroup depth text).1 ++ (closeGroup depth text).2 = text := by
  fun_induction closeGroup depth text <;> simp_all

/-- The second part of a cut is no longer than the text. -/
theorem length_le_of_append_eq {text left right : Text} (cut : left ++ right = text) :
    right.length ≤ text.length := by
  rw [← cut, List.length_append]
  exact Nat.le_add_left ..

/-- Cuts a text behind the groups in braces that it starts with. -/
def groups : Text → Text × Text
  | [] => ([], [])
  | char :: rest =>
      if char = '\x7b' then
        let group := closeGroup 0 rest
        let others := groups group.2
        (char :: group.1 ++ others.1, others.2)
      else ([], char :: rest)
termination_by text => text.length
decreasing_by exact Nat.lt_succ_of_le (length_le_of_append_eq (closeGroup_append 0 rest))

/-- Groups in a row and what stands behind them spell the text. -/
@[simp] theorem groups_append (text : Text) : (groups text).1 ++ (groups text).2 = text := by
  fun_induction groups text with
  | case1 => rfl
  | case2 rest group others ih => simp [others, ih, group]
  | case3 => rfl

/-- Cuts a text behind the subscripts in braces that it starts with. -/
def subscripts : Text → Text × Text
  | mark :: char :: rest =>
      if mark = '_' ∧ char = '\x7b' then
        let group := closeGroup 0 rest
        let others := subscripts group.2
        (mark :: char :: group.1 ++ others.1, others.2)
      else ([], mark :: char :: rest)
  | text => ([], text)
termination_by text => text.length
decreasing_by
  have fewer := length_le_of_append_eq (closeGroup_append 0 rest)
  exact Nat.lt_succ_of_lt (Nat.lt_succ_of_le fewer)

/-- Subscripts and what stands behind them spell the text. -/
@[simp] theorem subscripts_append (text : Text) :
    (subscripts text).1 ++ (subscripts text).2 = text := by
  fun_induction subscripts text with
  | case1 mark char rest starts group others ih => simp [others, ih, group]
  | case2 => rfl
  | case3 => rfl

/-- Cuts a text behind an environment of which the opening command was passed. Its
name is all that stands up to the next closing brace, and it ends with the next
closing command for that name. -/
def environment (text : Text) : Text × Text :=
  let (name, inside) := Text.cutAfter ['\x7d'] text
  let (body, after) := Text.cutAfter ("\\end" ++ name) inside
  (name ++ body, after)

/-- An environment and what stands behind it spell the text. -/
@[simp] theorem environment_append (text : Text) :
    (environment text).1 ++ (environment text).2 = text := by
  simp [environment]

/-- Cuts a text behind what belongs to a command, of which the name was passed. -/
def arguments (command text : Text) : Text × Text :=
  if command = "begin" then environment text else groups text

/-- The arguments of a command and what stands behind them spell the text. -/
@[simp] theorem arguments_append (command text : Text) :
    (arguments command text).1 ++ (arguments command text).2 = text := by
  unfold arguments
  split <;> simp

/-- Cuts a text behind the block of which the backslash was passed. -/
def cut (text : Text) : Text × Text :=
  let command : Text := text.takeWhile Char.isAlpha
  let (content, after) := arguments command (text.dropWhile Char.isAlpha)
  let (indices, rest) := subscripts after
  (command ++ content ++ indices, rest)

/-- A block and what stands behind it spell the text. -/
@[simp] theorem cut_append (text : Text) : (cut text).1 ++ (cut text).2 = text := by
  simp [cut]

end MatrixFormula.Markup.Block
