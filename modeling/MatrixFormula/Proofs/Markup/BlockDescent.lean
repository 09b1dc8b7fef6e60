import MatrixFormula.Markup.Block
import MatrixFormula.Proofs.Descent.Progress

/-!
# Copying blocks character by character

A markup block can also be read by loops that move a cursor over it: over the letters of its
command, over the groups in braces behind them or the name of an environment, and over its
subscripts. The end of an environment is searched for in the text behind its name, and the cursor
moves there at once.

The loops stop where the block is cut off from the text behind it.
-/

namespace MatrixFormula

namespace Cursor

/-- The part of the source from an offset up to the cursor. -/
def since (cursor : Cursor) (start : Nat) : Text :=
  cursor.passed.drop (charsWithin start cursor.passed)

/-- The cursor behind the first part of what follows it, when that is cut in two. -/
def through (cursor : Cursor) (parts : Text × Text) : Cursor :=
  ⟨cursor.passed ++ parts.1, parts.2⟩

@[simp] theorem rest_through (cursor : Cursor) (parts : Text × Text) :
    (cursor.through parts).rest = parts.2 := rfl

@[simp] theorem passed_through (cursor : Cursor) (parts : Text × Text) :
    (cursor.through parts).passed = cursor.passed ++ parts.1 := rfl

/-- A cursor that passes nothing stays where it is. -/
theorem through_eq_self {cursor : Cursor} {parts : Text × Text} (none : parts = ([], cursor.rest)) :
    cursor.through parts = cursor := by
  simp [through, none]

/-- Passing two parts is passing both at once. -/
@[simp] theorem through_through (cursor : Cursor) (first second : Text × Text) :
    (cursor.through first).through second = cursor.through (first.1 ++ second.1, second.2) := by
  simp [through]

/-- Passing a part of what follows does not change the source. -/
theorem source_through {cursor : Cursor} {parts : Text × Text}
    (spelled : parts.1 ++ parts.2 = cursor.rest) :
    (cursor.through parts).source = cursor.source := by
  rw [source, source, ← spelled, through, List.append_assoc]

/-- One step passes the next character. -/
theorem advance_one {cursor : Cursor} {char : Char} {rest : Text}
    (behind : cursor.rest = char :: rest) : cursor.advance 1 = cursor.through ([char], rest) := by
  rw [advance, behind]
  rfl

/-- At the end of the source there is no step. -/
theorem advance_nil {cursor : Cursor} (ended : cursor.rest = []) (count : Nat) :
    cursor.advance count = cursor := by
  obtain ⟨passed, rest⟩ := cursor
  subst ended
  simp [advance]

/-- What was passed since an offset is what stands behind it. -/
theorem since_append {cursor : Cursor} {before run : Text} (parts : cursor.passed = before ++ run) :
    cursor.since before.byteSize = run := by
  rw [since, parts, charsWithin_append, List.drop_left]

/-- Moving to the end of a part passes the part. -/
theorem moveTo_through {cursor : Cursor} {parts : Text × Text}
    (spelled : parts.1 ++ parts.2 = cursor.rest) :
    cursor.moveTo (cursor.offset + parts.1.byteSize) = cursor.through parts := by
  rw [offset, ← Text.byteSize_append]
  exact moveTo_eq (source_through spelled).symm

end Cursor

/-- A movement of the cursor over a part of what follows it. -/
theorem Trail.Forward.through {trail : Trail} {parts : Text × Text}
    (spelled : parts.1 ++ parts.2 = trail.cursor.rest) :
    Forward trail (trail.goto (trail.cursor.through parts)) 0 where
  source := Cursor.source_through spelled
  sound := id
  visits := Nat.le_refl _
  weight := by
    have lengths := congrArg List.length spelled
    rw [List.length_append] at lengths
    simp only [Trail.weight, visits_goto, cursor_goto, Cursor.rest_through]
    omega

namespace Markup

open Descent Trail

/-! ## Loops over a block -/

/-- One more letter of a command. -/
def letterPass (_ : Unit) : Descent (Turn Unit Unit) := do
  if (← here).rest.head?.any Char.isAlpha then
    let _ ← readChar
    return .again ()
  else return .done ()

/-- One more character of the name of an environment, up to a closing brace. -/
def namePass (_ : Unit) : Descent (Turn Unit Unit) := do
  match ← readChar with
  | none => return .done ()
  | some char => return if char = '\x7d' then .done () else .again ()

/-- How many braces are open behind a character. -/
def nesting (depth : Nat) (char : Char) : Nat :=
  if char = '\x7b' then depth + 1 else if char = '\x7d' then depth - 1 else depth

/-- One more character of a group, inside of some braces. -/
def groupPass (depth : Nat) : Descent (Turn Nat Unit) := do
  match ← readChar with
  | none => return .done ()
  | some char =>
      return if nesting depth char = 0 then .done () else .again (nesting depth char)

/-- Reads a group in braces, if there is one. -/
def group : Descent Bool := visiting (.call .group) do
  if (← here).rest.head? = some '\x7b' then
    iterate .group groupPass 0
    return true
  else return false

/-- One more group of a command. -/
def argumentPass (_ : Unit) : Descent (Turn Unit Unit) := do
  return if ← group then .again () else .done ()

/-- One more subscript in braces. -/
def subscriptPass (_ : Unit) : Descent (Turn Unit Unit) := do
  if ("_\x7b" : Text).isPrefixOf (← here).rest then
    let _ ← readChar
    let _ ← group
    return .again ()
  else return .done ()

/-- Reads an environment of which the opening command was read. -/
def environment : Descent Unit := do
  let start := (← here).offset
  iterate .block namePass ()
  let place ← here
  moveTo (place.offset + (Text.cutAfter ("\\end" ++ place.since start) place.rest).1.byteSize)

/-- Reads what belongs to a command. -/
def arguments (command : Text) : Descent Unit :=
  if command = "\\begin" then environment else iterate .block argumentPass ()

/-- Reads a block of which the backslash was read, and copies it from its start. -/
def block (start : Nat) : Descent Text := do
  iterate .block letterPass ()
  arguments ((← here).since start)
  iterate .block subscriptPass ()
  return (← here).since start

/-! ## Where the loops stop -/

variable {origin trail : Trail} {gain : Nat}

/-- A descent stops at a place, and has something left of what it has read. -/
def StopsAt (origin : Trail) (gain : Nat) (place : Cursor) (trail : Trail) : Prop :=
  Forward origin trail gain ∧ trail.cursor = place

/-- A loop stops where a text is cut in two, if each pass stays in front of that place. -/
theorem ensures_cut {pass : Unit → Descent (Turn Unit Unit)} {cut : Text → Text × Text} {left : Nat}
    (forward : Forward origin trail gain)
    (step : ∀ trail, Forward origin trail gain → Ensures (pass ()) trail
      (Turn.Ends
        (fun _ after => Forward trail after 1 ∧
          after.cursor.through (cut after.cursor.rest) =
            trail.cursor.through (cut trail.cursor.rest))
        fun _ => StopsAt origin left (trail.cursor.through (cut trail.cursor.rest)))
      fun _ _ => False) :
    Ensures (iterate .block pass ()) trail
      (fun _ => StopsAt origin left (trail.cursor.through (cut trail.cursor.rest)))
      fun _ _ => False := by
  refine @Ensures.iterate _ _ _ _ _ _ (fun _ between => Forward origin between gain ∧
    between.cursor.through (cut between.cursor.rest) =
      trail.cursor.through (cut trail.cursor.rest)) _ _ ⟨forward, rfl⟩ ?_
  rintro _ between ⟨paid, keeps⟩
  refine (step between paid).mono (fun turn after ends => ?_) fun _ _ => False.elim
  cases turn with
  | again next =>
      obtain ⟨once, same⟩ := ends
      exact ⟨.inr (once.length_lt Nat.one_pos), paid.trans (once.logged _), same.trans keeps⟩
  | done result => exact keeps ▸ ends

/-- The loop over the letters of a command stops behind the last one. -/
theorem ensures_letters (forward : Forward origin trail gain) :
    Ensures (iterate .block letterPass ()) trail
      (fun _ => StopsAt origin gain (trail.cursor.through
        (trail.cursor.rest.takeWhile Char.isAlpha, trail.cursor.rest.dropWhile Char.isAlpha)))
      fun _ _ => False := by
  refine @ensures_cut _ _ _ _
    (fun text => (text.takeWhile Char.isAlpha, text.dropWhile Char.isAlpha)) _ forward ?_
  intro between paid
  simp only [letterPass, ensures_bind, ensures_here, ensures_ite, ensures_readChar, ensures_pure,
    Turn.Ends]
  cases behind : between.cursor.rest with
  | nil =>
      refine ⟨(absurd · Bool.false_ne_true), fun _ => ⟨paid, (Cursor.through_eq_self ?_).symm⟩⟩
      rw [behind]
      rfl
  | cons char rest =>
      refine ⟨fun letter => ?_, fun other => ⟨paid, (Cursor.through_eq_self ?_).symm⟩⟩
      · have letter : char.isAlpha := by simpa using letter
        refine ⟨(Forward.advance (congrArg List.head? behind)).mono (by decide), ?_⟩
        simp [Cursor.advance_one behind, letter]
      · rw [behind]
        simpa using other

/-- The loop over the name of an environment stops behind the closing brace. -/
theorem ensures_name (forward : Forward origin trail gain) :
    Ensures (iterate .block namePass ()) trail
      (fun _ => StopsAt origin gain
        (trail.cursor.through (Text.cutAfter ['\x7d'] trail.cursor.rest)))
      fun _ _ => False := by
  refine ensures_cut forward fun between paid => ?_
  rw [namePass, ensures_bind, ensures_readChar]
  cases behind : between.cursor.rest with
  | nil =>
      rw [Cursor.advance_nil behind]
      refine ⟨paid, (Cursor.through_eq_self ?_).symm⟩
      rw [cursor_goto, behind]
      rfl
  | cons char rest =>
      have once := Forward.advance (congrArg List.head? behind)
      rw [Cursor.advance_one behind] at once ⊢
      simp only [List.head?_cons, ensures_pure]
      by_cases closes : char = '\x7d'
      · rw [if_pos closes, Text.cutAfter, if_pos (by simp [closes])]
        exact ⟨(paid.trans once).mono (Nat.le_add_right ..), rfl⟩
      · have other : ¬ ['\x7d'].isPrefixOf (char :: rest) := fun found =>
          closes (by simpa using found : '\x7d' = char).symm
        rw [if_neg closes, Text.cutAfter, if_neg other]
        exact ⟨once.mono (by decide), by simp⟩

/-- Cuts a text behind the brace that closes a group, when some braces of the group are open in
front of the text. -/
def insideGroup : Nat → Text → Text × Text
  | 0, [] => ([], [])
  | 0, char :: rest => (char :: (Block.closeGroup 0 rest).1, (Block.closeGroup 0 rest).2)
  | depth + 1, text => Block.closeGroup depth text

/-- An unclosed group ends with the text. -/
theorem insideGroup_nil (depth : Nat) : insideGroup depth [] = ([], []) := by
  cases depth <;> rfl

/-- A group goes on with its first character, unless that closes its last open brace. -/
theorem insideGroup_cons {depth : Nat} {char : Char} (starts : depth = 0 → char = '\x7b')
    (rest : Text) :
    insideGroup depth (char :: rest) =
      if nesting depth char = 0 then ([char], rest)
      else (char :: (insideGroup (nesting depth char) rest).1,
        (insideGroup (nesting depth char) rest).2) := by
  cases depth with
  | zero => simp [starts rfl, nesting, insideGroup]
  | succ depth =>
      by_cases opens : char = '\x7b'
      · simp [insideGroup, Block.closeGroup, nesting, opens]
      · by_cases closes : char = '\x7d'
        · cases depth <;> simp [insideGroup, Block.closeGroup, nesting, closes]
        · simp [insideGroup, Block.closeGroup, nesting, opens, closes]

/-- A loop over a group has come behind some open braces. With the first one something was read that
pays for more than the passes up to there. The group ends where it did at the start. -/
structure InsideGroup (trail : Trail) (depth : Nat) (between : Trail) : Prop where
  starts : depth = 0 → between = trail
  paid : depth ≠ 0 → Forward trail between 7
  place : between.cursor.through (insideGroup depth between.cursor.rest) =
    trail.cursor.through (insideGroup 0 trail.cursor.rest)

/-- Up to any brace of a group, the loop has read as much as it has spent. -/
theorem InsideGroup.forward {depth : Nat} {between : Trail}
    (inside : InsideGroup trail depth between) : Forward trail between 0 := by
  rcases Nat.eq_zero_or_pos depth with none | some
  · exact inside.starts none ▸ .refl _
  · exact (inside.paid (Nat.ne_of_gt some)).mono (by decide)

/-- A character of a group leads behind another number of open braces, or out of the group. -/
theorem ensures_groupPass {depth : Nat} {between : Trail}
    (opens : trail.cursor.rest.head? = some '\x7b') (inside : InsideGroup trail depth between) :
    Ensures (groupPass depth) between
      (Turn.Ends
        (fun deeper after =>
          after.cursor.rest.length < between.cursor.rest.length ∧
          InsideGroup trail deeper
            (after.log ⟨.pass .group, between.cursor.offset, some after.cursor.offset⟩))
        fun _ => StopsAt trail 7 (trail.cursor.through (insideGroup 0 trail.cursor.rest)))
      fun _ _ => False := by
  have first : depth = 0 → between.cursor.rest.head? = some '\x7b' := fun none => by
    rw [inside.starts none, opens]
  have place := inside.place
  rw [groupPass, ensures_bind, ensures_readChar, ← place]
  cases behind : between.cursor.rest with
  | nil =>
      have some : depth ≠ 0 := fun none => by simpa [behind] using first none
      rw [Cursor.advance_nil behind, insideGroup_nil]
      refine ⟨inside.paid some, (Cursor.through_eq_self ?_).symm⟩
      rw [cursor_goto, behind]
  | cons char rest =>
      have starts : depth = 0 → char = '\x7b' := fun none => by simpa [behind] using first none
      have once := Forward.advance (congrArg List.head? behind)
      rw [behind, insideGroup_cons starts] at place
      rw [Cursor.advance_one behind] at once ⊢
      rw [insideGroup_cons starts]
      simp only [List.head?_cons, ensures_pure]
      split_ifs at place ⊢ with closes
      · exact ⟨(inside.forward.trans once).mono (by decide), rfl⟩
      · refine ⟨behind ▸ once.length_lt (by decide), (absurd · closes), fun _ => ?_, ?_⟩
        · have logged : Forward between _ 7 := once.logged (.pass .group)
          exact (inside.forward.trans logged).mono (by decide)
        · rw [← place]
          simp

/-- A group is read up to the brace that closes it, or to the end of the source. -/
theorem ensures_group_of_opens (opens : trail.cursor.rest.head? = some '\x7b') :
    Ensures group trail
      (fun read after => read = true ∧
        StopsAt trail 6 (trail.cursor.through (insideGroup 0 trail.cursor.rest)) after)
      fun _ _ => False := by
  have loop : Ensures (iterate .group groupPass 0) trail
      (fun _ => StopsAt trail 7 (trail.cursor.through (insideGroup 0 trail.cursor.rest)))
      fun _ _ => False := by
    have start : InsideGroup trail 0 trail := ⟨fun _ => rfl, absurd rfl, rfl⟩
    refine Ensures.iterate start fun depth between inside => ?_
    refine (ensures_groupPass opens inside).mono (fun turn after ends => ?_) fun _ _ => id
    cases turn with
    | again deeper => exact ⟨.inr ends.1, ends.2⟩
    | done result => exact ends
  simp only [group, ensures_visiting, ensures_bind, ensures_here, opens, ensures_ite, ensures_pure]
  refine ⟨fun _ => loop.mono (fun _ after stops => ⟨trivial, ?_⟩) fun _ _ => id, absurd trivial⟩
  exact ⟨stops.1.log (Visit.sound_of_not_advances rfl), stops.2⟩

/-- Where no brace opens, no group is read. -/
theorem ensures_group_of_not (closed : trail.cursor.rest.head? ≠ some '\x7b') :
    Ensures group trail
      (fun read after => read = false ∧
        after = trail.log ⟨.call .group, trail.cursor.offset, some trail.cursor.offset⟩)
      fun _ _ => False := by
  simp only [group, ensures_visiting, ensures_bind, ensures_here, ensures_ite, ensures_pure]
  exact ⟨fun opens => absurd opens closed, fun _ => ⟨trivial, trivial⟩⟩

/-- Groups are read up to a place where there is none, which is noticed by looking for another
one. -/
theorem ensures_groups (forward : Forward origin trail (gain + 1)) :
    Ensures (iterate .block argumentPass ()) trail
      (fun _ => StopsAt origin gain (trail.cursor.through (Block.groups trail.cursor.rest)))
      fun _ _ => False := by
  refine ensures_cut forward fun between paid => ?_
  rw [argumentPass, ensures_bind]
  by_cases opens : between.cursor.rest.head? = some '\x7b'
  · refine (ensures_group_of_opens opens).mono ?_ fun _ _ => id
    rintro _ after ⟨rfl, once, stops⟩
    refine ⟨once.mono (by decide), ?_⟩
    obtain ⟨text, behind⟩ := List.head?_eq_some_iff.mp opens
    rw [stops, behind, Block.groups, if_pos rfl]
    simp [insideGroup]
  · -- Nothing was read, but the visit is paid for by what was read before.
    refine (ensures_group_of_not opens).mono ?_ fun _ _ => id
    rintro _ after ⟨rfl, rfl⟩
    refine ⟨paid.log (Visit.sound_of_not_advances rfl), (Cursor.through_eq_self ?_).symm⟩
    rw [cursor_log]
    cases behind : between.cursor.rest with
    | nil => rw [Block.groups]
    | cons char rest =>
        rw [Block.groups, if_neg (by simpa [behind] using opens)]

/-- The loop over subscripts stops behind the last one. -/
theorem ensures_subscripts (forward : Forward origin trail gain) :
    Ensures (iterate .block subscriptPass ()) trail
      (fun _ => StopsAt origin gain (trail.cursor.through (Block.subscripts trail.cursor.rest)))
      fun _ _ => False := by
  refine ensures_cut forward fun between paid => ?_
  simp only [subscriptPass, ensures_bind, ensures_here, ensures_ite, ensures_readChar, ensures_pure]
  refine ⟨fun starts => ?_, fun other => ⟨paid, (Cursor.through_eq_self ?_).symm⟩⟩
  · obtain ⟨text, behind⟩ := List.isPrefixOf_iff_prefix.mp starts
    have behind : between.cursor.rest = '_' :: '\x7b' :: text := behind.symm
    have once := Forward.advance (congrArg List.head? behind)
    rw [Cursor.advance_one behind] at once ⊢
    refine (ensures_group_of_opens rfl).mono ?_ fun _ _ => id
    rintro _ after ⟨-, twice, stops⟩
    refine ⟨(once.trans twice).mono (by decide), ?_⟩
    rw [stops, behind, Block.subscripts, if_pos ⟨rfl, rfl⟩]
    simp [insideGroup]
  · unfold Block.subscripts
    split
    · next mark char text behind =>
        rw [if_neg, behind]
        rintro ⟨rfl, rfl⟩
        rw [behind] at other
        exact other rfl
    · rfl

/-- An environment is read behind the closing command that is found, or to the end of the source. -/
theorem ensures_environment (forward : Forward origin trail gain) :
    Ensures environment trail
      (fun _ => StopsAt origin gain (trail.cursor.through (Block.environment trail.cursor.rest)))
      fun _ _ => False := by
  rw [environment, ensures_bind, ensures_here, ensures_bind]
  refine (ensures_name forward).mono ?_ fun _ _ => id
  rintro _ between ⟨paid, stops⟩
  have name : between.cursor.since trail.cursor.offset =
      (Text.cutAfter ['\x7d'] trail.cursor.rest).1 := Cursor.since_append (by rw [stops]; rfl)
  rw [ensures_bind, ensures_here, ensures_moveTo, name,
    Cursor.moveTo_through (Text.cutAfter_append _ _)]
  refine ⟨paid.trans (.through (Text.cutAfter_append _ _)), ?_⟩
  rw [cursor_goto, stops, Cursor.through_through]
  rfl

/-- The arguments of a command, or all of an environment, are read to their end. -/
theorem ensures_arguments {command : Text} (forward : Forward origin trail (gain + 1)) :
    Ensures (arguments ('\\' :: command)) trail
      (fun _ => StopsAt origin gain
        (trail.cursor.through (Block.arguments command trail.cursor.rest)))
      fun _ _ => False := by
  have begins : ('\\' :: command : Text) = ("\\begin" : Text) ↔ command = ("begin" : Text) :=
    List.cons_inj_right '\\'
  rw [arguments, ensures_ite, begins, Block.arguments]
  refine ⟨fun same => ?_, fun other => ?_⟩
  · rw [if_pos same]
    exact ensures_environment (forward.mono (Nat.le_succ _))
  · rw [if_neg other]
    exact ensures_groups forward

/-- A block is copied up to where it is cut off. -/
theorem ensures_block {before : Text} (passed : trail.cursor.passed = before ++ ['\\'])
    (forward : Forward origin trail (gain + 1)) :
    Ensures (block before.byteSize) trail
      (fun text after => text = '\\' :: (Block.cut trail.cursor.rest).1 ∧
        StopsAt origin gain (trail.cursor.through (Block.cut trail.cursor.rest)) after)
      fun _ _ => False := by
  rw [block, ensures_bind]
  refine (ensures_letters forward).mono ?_ fun _ _ => id
  rintro _ named ⟨paid, stops⟩
  have command : named.cursor.since before.byteSize =
      '\\' :: trail.cursor.rest.takeWhile Char.isAlpha :=
    Cursor.since_append (by simp [stops, passed])
  rw [ensures_bind, ensures_here, command, ensures_bind]
  refine (ensures_arguments paid).mono ?_ fun _ _ => id
  rintro _ between ⟨paid, ends⟩
  rw [ensures_bind]
  refine (ensures_subscripts paid).mono ?_ fun _ _ => id
  rintro _ after ⟨paid, last⟩
  have whole : after.cursor = trail.cursor.through (Block.cut trail.cursor.rest) := by
    rw [last, ends, stops]
    simp [Block.cut]
  refine ⟨?_, paid, whole⟩
  rw [whole]
  exact Cursor.since_append (by simp [passed])

end Markup

end MatrixFormula
