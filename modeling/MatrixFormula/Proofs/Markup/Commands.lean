import MatrixFormula.Proofs.Markup.Copying
import MatrixFormula.Proofs.Markup.Enclosed

/-!
# Commands are copied whole

A command extends over the groups in braces behind its name, and over the subscripts in braces
behind these. A group ends where its braces are balanced for the first time. So a command of which
all groups are balanced is one block, wherever it stands.
-/

namespace MatrixFormula.Markup

/-- A command with its groups and its subscripts. -/
def commandText (name : Text) (groups indices : List Text) : Text :=
  '\\' :: (name ++ (groups.flatMap Latex.braced ++
    indices.flatMap fun index => '_' :: Latex.braced index))

variable {name : Text} {groups indices : List Text}

/-! ## Groups and subscripts in a row -/

section Rows

variable {write : Text → Text} {pieces : List Text} {rest : Text}

/-- A cut that takes in each of some pieces takes in all of them, when it takes in nothing of the
text behind them. -/
theorem cut_flatMap {cut : Text → Text × Text}
    (takes : ∀ piece ∈ pieces, ∀ rest,
      cut (write piece ++ rest) = (write piece ++ (cut rest).1, (cut rest).2))
    (ends : cut rest = ([], rest)) :
    cut (pieces.flatMap write ++ rest) = (pieces.flatMap write, rest) := by
  induction pieces with
  | nil => exact ends
  | cons piece pieces ih =>
      obtain ⟨here, later⟩ := List.forall_mem_cons.mp takes
      rw [List.flatMap_cons, List.append_assoc, here, ih later]

/-- Pieces that start with a mark, or the text behind them. -/
theorem head?_flatMap {mark char : Char} (starts : ∀ piece, (write piece).head? = some mark)
    (first : char ∈ (pieces.flatMap write ++ rest).head?) : char = mark ∨ char ∈ rest.head? := by
  cases pieces with
  | nil => exact .inr first
  | cons piece pieces =>
      rw [List.flatMap_cons, List.append_assoc, List.head?_append, starts] at first
      exact .inl (Option.some.inj first).symm

end Rows

/-- A command with balanced groups is one block. -/
theorem standsAlone_command (letters : name.all Char.isAlpha) (other : name ≠ "begin")
    (grouped : ∀ group ∈ groups, Balanced group) (indexed : ∀ index ∈ indices, Balanced index) :
    StandsAlone (commandText name groups indices) := by
  refine ⟨_, rfl, fun rest blank => ?_⟩
  generalize placed : (indices.flatMap fun index => '_' :: Latex.braced index) ++ rest = behind
  -- Behind the groups stands a subscript, a blank or nothing.
  have starts {char : Char} (first : char ∈ behind.head?) : char = '_' ∨ Text.isBlank char :=
    (head?_flatMap (fun _ => rfl) (placed ▸ first)).imp_right (blank char)
  have ends : behind.head? ≠ some '\x7b' := fun open_ => by
    rcases starts open_ with mark | blank
    · exact absurd mark (by decide)
    · exact absurd blank (by decide)
  have apart : ∀ char ∈ (groups.flatMap Latex.braced ++ behind).head?,
      Char.isAlpha char = false := by
    intro char first
    rcases head?_flatMap (fun _ => rfl) first with rfl | behind
    · rfl
    · rcases starts behind with rfl | blank
      · rfl
      · exact Token.not_isAlpha_of_isBlank blank
  have command := @Text.span_run Char.isAlpha name (groups.flatMap Latex.braced ++ behind)
    (List.all_eq_true.mp letters) apart
  have content : Block.groups (groups.flatMap Latex.braced ++ behind) =
      (groups.flatMap Latex.braced, behind) :=
    cut_flatMap (fun group member => groups_braced (grouped group member)) (groups_plain ends)
  have last : Block.subscripts behind = (indices.flatMap fun index => '_' :: Latex.braced index,
      rest) := placed ▸
    cut_flatMap (fun index member => subscripts_braced (indexed index member))
      (subscripts_plain (not_prefix_of_blank blank))
  rw [List.append_assoc, List.append_assoc, placed, Block.cut, command.1, command.2,
    Block.arguments, if_neg other, content]
  simp only
  rw [last, List.append_assoc]

/-! ## Where a group ends -/

/-- The groups that are open behind a text, when more of them may be closed than were opened. -/
def openings (text : Text) : Int := text.count '\x7b' - text.count '\x7d'

/-- Behind one character, a group more is open, or a group less, or as many as before. -/
theorem openings_cons (char : Char) (text : Text) :
    openings (char :: text) =
      (if char = '\x7b' then 1 else if char = '\x7d' then -1 else 0) + openings text := by
  by_cases open_ : char = '\x7b'
  · subst open_
    have apart : '\x7b' ≠ '\x7d' := by decide
    simp only [openings, List.count_cons_self, List.count_cons_of_ne apart, if_true]
    omega
  · by_cases close : char = '\x7d'
    · subst close
      simp only [openings, List.count_cons_self, List.count_cons_of_ne open_, if_neg open_, if_true]
      omega
    · simp only [openings, List.count_cons_of_ne open_, List.count_cons_of_ne close, if_neg open_,
        if_neg close, Int.zero_add]

/-- A text is scanned up to the end of the group that it starts with. Some group is open all the
way, so the counter of open groups never goes below zero. -/
structure Scanned (text passed rest : Text) : Prop where
  whole : passed ++ rest = text
  inside : ∀ before, before <+: passed → before ≠ [] → before ≠ passed → 0 < openings before
  counter : ∀ before, before <+: passed → 0 ≤ openings before
  ends : openings passed = 0 ∨ rest = []

/-- A text is scanned from inside a group, and inside `depth` groups of it. Some group is open as
long as the scan goes on. Where it ends, none is, or the text ends. -/
structure ScannedInside (depth : Nat) (passed rest : Text) : Prop where
  inside : ∀ before, before <+: passed → before ≠ passed → 0 < depth + 1 + openings before
  ends : depth + 1 + openings passed = 0 ∨ rest = [] ∧ 0 < depth + 1 + openings passed

/-- The counter behind the first character is that of the rest of the scan. -/
theorem counter_cons {depth : Nat} {char : Char} (goes : ¬ (char = '\x7d' ∧ depth = 0))
    (text : Text) :
    (depth : Int) + 1 + openings (char :: text) =
      (if char = '\x7b' then depth + 1 else if char = '\x7d' then depth - 1 else depth : Nat) + 1 +
        openings text := by
  rw [openings_cons]
  by_cases open_ : char = '\x7b'
  · rw [if_pos open_, if_pos open_]
    push_cast
    omega
  · rw [if_neg open_, if_neg open_]
    by_cases close : char = '\x7d'
    · have positive : depth ≠ 0 := fun zero => goes ⟨close, zero⟩
      rw [if_pos close, if_pos close]
      omega
    · rw [if_neg close, if_neg close]
      omega

theorem scannedInside_closeGroup (depth : Nat) (text : Text) :
    ScannedInside depth (Block.closeGroup depth text).1 (Block.closeGroup depth text).2 := by
  have empty (depth : Nat) : (0 : Int) < depth + 1 + openings [] := by
    show (0 : Int) < depth + 1 + 0
    omega
  induction text generalizing depth with
  | nil =>
      exact ⟨fun before starts differs => absurd (List.prefix_nil.mp starts) differs,
        .inr ⟨rfl, empty depth⟩⟩
  | cons char text ih =>
      rw [closeGroup_cons]
      split
      · next close =>
          obtain ⟨rfl, rfl⟩ := close
          refine ⟨fun before starts differs => ?_, .inl rfl⟩
          rcases List.prefix_cons_iff.mp starts with rfl | ⟨tail, rfl, none⟩
          · exact empty 0
          · exact absurd (by rw [List.prefix_nil.mp none]) differs
      · next goes =>
          have counter := counter_cons goes
          generalize (if char = '\x7b' then depth + 1
            else if char = '\x7d' then depth - 1 else depth) = deeper at counter ⊢
          obtain ⟨inside, ends⟩ := ih deeper
          refine ⟨fun before starts differs => ?_, by simpa only [counter] using ends⟩
          rcases List.prefix_cons_iff.mp starts with rfl | ⟨tail, rfl, later⟩
          · exact empty depth
          · rw [counter]
            exact inside tail later fun same => differs (congrArg (char :: ·) same)

/-- A group is scanned up to its end, whatever text it stands in. -/
theorem scanned_closeGroup (text : Text) :
    Scanned ('\x7b' :: text) ('\x7b' :: (Block.closeGroup 0 text).1)
      (Block.closeGroup 0 text).2 := by
  obtain ⟨inside, ends⟩ := scannedInside_closeGroup 0 text
  have counter (text : Text) : openings ('\x7b' :: text) = 1 + openings text :=
    openings_cons '\x7b' text
  have positive (before : Text) (starts : before <+: '\x7b' :: (Block.closeGroup 0 text).1)
      (some : before ≠ []) (differs : before ≠ '\x7b' :: (Block.closeGroup 0 text).1) :
      0 < openings before := by
    rcases List.prefix_cons_iff.mp starts with rfl | ⟨tail, rfl, later⟩
    · exact absurd rfl some
    · have left := inside tail later fun same => differs (congrArg ('\x7b' :: ·) same)
      rw [counter]
      omega
  have closed : 0 ≤ openings ('\x7b' :: (Block.closeGroup 0 text).1) := by
    rw [counter]
    omega
  refine ⟨congrArg ('\x7b' :: ·) (Block.closeGroup_append 0 text), positive, ?_, ?_⟩
  · intro before starts
    by_cases none : before = []
    · exact none ▸ Int.le_refl 0
    · by_cases full : before = '\x7b' :: (Block.closeGroup 0 text).1
      · exact full ▸ closed
      · exact Int.le_of_lt (positive before starts none full)
  · rw [counter]
    exact ends.imp (fun closed => by omega) fun open_ => open_.1

/-- A command with balanced groups and subscripts is copied, whatever the names in it stand for.
Balanced or not, a group is scanned up to the first place where none is open. -/
theorem command_copied (letters : name.all Char.isAlpha) (other : name ≠ "begin")
    (grouped : ∀ group ∈ groups, Balanced group) (indexed : ∀ index ∈ indices, Balanced index) :
    (∀ style, Copied style (commandText name groups indices)) ∧
      ∀ text, Scanned ('\x7b' :: text) ('\x7b' :: (Block.closeGroup 0 text).1)
        (Block.closeGroup 0 text).2 :=
  ⟨(standsAlone_command letters other grouped indexed).copied, scanned_closeGroup⟩

/-- A root of a group in a group, with two subscripts. -/
theorem command_copied_root :
    (∀ group ∈ [("\x7bx\x7d" : Text)], Balanced group) ∧
      (∀ index ∈ [(['1'] : Text), []], Balanced index) ∧
      (∀ style, Copied style "\\sqrt\x7b\x7bx\x7d\x7d_\x7b1\x7d_\x7b\x7d") ∧
      Scanned "\x7ba\x7bb\x7d" "\x7ba\x7bb\x7d" "" := by
  have grouped : ∀ group ∈ [("\x7bx\x7d" : Text)], Balanced group := by decide
  have indexed : ∀ index ∈ [(['1'] : Text), []], Balanced index := by decide
  obtain ⟨copied, scanned⟩ := @command_copied "sqrt" _ _ (by decide) (by decide) grouped indexed
  exact ⟨grouped, indexed, copied, scanned "a\x7bb\x7d"⟩

end MatrixFormula.Markup
