import MatrixFormula.Proofs.Markup.Copying
import MatrixFormula.Proofs.Markup.Enclosed

/-!
# Environments that are copied whole

In a well-nested text, each opening command has its own closing command. An environment ends with
the first closing command for its name. That is its own one exactly when no environment of the same
name stands inside. Then the environment is copied whole.
-/

namespace MatrixFormula.Markup

/-- The command that opens an environment. -/
def opening (name : Text) : Text := "\\begin" ++ Latex.braced name

/-- Whether a text can be the name in such a command, which ends at the next brace. -/
def IsEnvironmentName (name : Text) : Prop := '\\' ∉ name ∧ '\x7d' ∉ name

/-- The texts in which every command that opens an environment is closed by its own command. -/
inductive WellNested : Text → Prop where
  | nil : WellNested []
  | plain {char : Char} {rest : Text}
      (untagged : ∀ name, IsEnvironmentName name →
        ¬ opening name <+: char :: rest ∧ ¬ closing name <+: char :: rest)
      (nested : WellNested rest) : WellNested (char :: rest)
  | environment {name body rest : Text} (named : IsEnvironmentName name) (inside : WellNested body)
      (behind : WellNested rest) : WellNested (Latex.environment name body ++ rest)

/-- A text without commands is well-nested. -/
theorem WellNested.of_unmarked {text : Text} (plain : '\\' ∉ text) : WellNested text := by
  induction text with
  | nil => exact .nil
  | cons char text ih =>
      obtain ⟨other, plain⟩ := not_or.mp (mt List.mem_cons.mpr plain)
      refine .plain (fun name _ => ⟨fun starts => ?_, fun starts => ?_⟩) (ih plain)
      · exact other (List.cons_prefix_cons.mp starts).1
      · exact other (List.cons_prefix_cons.mp starts).1

/-- A block that takes a whole text stands alone. -/
theorem IsWholeBlock.standsAlone {text : Text} (whole : IsWholeBlock text) : StandsAlone text := by
  obtain ⟨run, spelled, cut⟩ := whole
  refine ⟨run, spelled, fun rest blank => ?_⟩
  rw [cut, subscripts_plain (not_prefix_of_blank blank), List.append_nil]

variable {name other body rest : Text}

/-! ## Commands with a name -/

/-- A command with a name in braces. -/
def nameTag (command name : Text) : Text := '\\' :: (command ++ Latex.braced name)

theorem opening_eq (name : Text) : opening name = nameTag "begin" name := rfl

theorem closing_eq (name : Text) : closing name = nameTag "end" name := rfl

section Tags

variable {first second : Text} (letters : first.all Char.isAlpha)
  (named : IsEnvironmentName name)

include letters in
/-- No mark stands in the name of a command. -/
theorem not_mem_of_isAlpha {char : Char} (mark : char.isAlpha = false) : char ∉ first := by
  intro member
  rw [List.all_eq_true.mp letters char member] at mark
  cases mark

include letters named in
/-- A tag has no backslash but the first. -/
theorem nameTag_marked : '\\' ∉ first ++ Latex.braced name := by
  simp [Latex.braced, not_mem_of_isAlpha letters (show '\\'.isAlpha = false from rfl), named.1]

include letters named in
/-- A text starts with at most one such command. -/
theorem nameTag_prefix_iff (also : second.all Char.isAlpha) (known : IsEnvironmentName other) :
    nameTag first name <+: nameTag second other ++ rest ↔ first = second ∧ name = other := by
  constructor
  · rintro ⟨more, same⟩
    have spelled : first ++ '\x7b' :: (name ++ '\x7d' :: more) =
        second ++ '\x7b' :: (other ++ '\x7d' :: rest) := by
      simpa [nameTag, Latex.braced] using same
    have brace : '\x7b'.isAlpha = false := rfl
    obtain ⟨words, inner⟩ := Text.append_mark_inj (not_mem_of_isAlpha letters brace)
      (not_mem_of_isAlpha also brace) spelled
    exact ⟨words, (Text.append_mark_inj named.2 known.2 inner).1⟩
  · rintro ⟨rfl, rfl⟩
    exact List.prefix_append ..

include letters named in
/-- Such a command occurs where another one stands when it is the same, or behind it. -/
theorem nameTag_infix_iff (also : second.all Char.isAlpha) (known : IsEnvironmentName other) :
    nameTag first name <:+: nameTag second other ++ rest ↔
      (first = second ∧ name = other) ∨ nameTag first name <:+: rest := by
  have inside : nameTag first name <:+: (second ++ Latex.braced other) ++ rest ↔
      nameTag first name <:+: rest :=
    Text.infix_append_iff_of_notMem (nameTag_marked also known) rest
  rw [← nameTag_prefix_iff letters named also known, ← inside]
  exact List.infix_cons_iff

/-- An environment is an opening tag, a body and an end tag. -/
theorem environment_append (name body rest : Text) :
    Latex.environment name body ++ rest =
      nameTag "begin" name ++ (body ++ (nameTag "end" name ++ rest)) := by
  rw [environment_eq, closing_eq, nameTag, nameTag]
  simp only [List.cons_append, List.append_assoc]

include letters named in
/-- Such a command occurs in a text behind an environment, in the environment, or as one of the
two commands around it. -/
theorem nameTag_infix_environment_iff (known : IsEnvironmentName other) :
    nameTag first name <:+: Latex.environment other body ++ rest ↔
      (first = "begin" ∧ name = other) ∨ nameTag first name <:+: body ∨
        (first = "end" ∧ name = other) ∨ nameTag first name <:+: rest := by
  have joint : nameTag first name <:+: body ++ (nameTag "end" other ++ rest) ↔
      nameTag first name <:+: body ∨ nameTag first name <:+: nameTag "end" other ++ rest :=
    Text.infix_append_mark_iff (nameTag_marked letters named) body _
  rw [environment_append, nameTag_infix_iff letters named (by decide) known, joint,
    nameTag_infix_iff letters named (by decide) known]

end Tags

/-- In a well-nested text, a name is opened when it is closed. -/
theorem WellNested.opening_iff_closing {text : Text} (nested : WellNested text)
    (named : IsEnvironmentName name) : opening name <:+: text ↔ closing name <:+: text := by
  induction nested with
  | nil => exact iff_of_false (by simp [opening_eq, nameTag]) (by simp [closing_eq, nameTag])
  | plain untagged _ ih =>
      obtain ⟨opened, closed⟩ := untagged name named
      rw [List.infix_cons_iff, List.infix_cons_iff, ih, or_iff_right opened, or_iff_right closed]
  | environment known _ _ inside behind =>
      rw [opening_eq, closing_eq] at inside behind ⊢
      have apart : ("begin" : Text) ≠ "end" := by decide
      rw [nameTag_infix_environment_iff (by decide) named known,
        nameTag_infix_environment_iff (by decide) named known, inside, behind]
      simp only [apart, apart.symm, true_and, false_and, false_or]
      exact or_left_comm

/-! ## Where an environment ends -/

/-- A group that is not closed in a text is open behind it. -/
theorem closeGroup_append_cases (depth : Nat) (text rest : Text) :
    (∃ more, (Block.closeGroup depth (text ++ rest)).2 = more ++ rest) ∨
      ∃ deeper, openGroups depth text = some deeper := by
  fun_induction openGroups depth text with
  | case1 depth => exact .inr ⟨depth, rfl⟩
  | case2 depth text ih => simpa [Block.closeGroup] using ih
  | case3 text notOpen => exact .inl ⟨text, by simp [Block.closeGroup]⟩
  | case4 text notOpen outer ih => simpa [Block.closeGroup] using ih
  | case5 depth char text notOpen notClose ih =>
      simpa [Block.closeGroup, notOpen, notClose] using ih

/-- Subscripts do not end right behind a text in which no group is closed. Either they end in front
of it or the last one is never closed. -/
theorem subscripts_append_cases (mark : ∀ char ∈ rest.head?, char ≠ '_' ∧ char ≠ '\x7b')
    (unclosed : ∀ depth, ∃ deeper, openGroups depth rest = some deeper) (text : Text) :
    (∃ more, (Block.subscripts (text ++ rest)).2 = more ++ rest) ∨
      (Block.subscripts (text ++ rest)).2 = [] := by
  generalize whole : text ++ rest = source
  fun_induction Block.subscripts source generalizing text with
  | case1 first second inner opens group others ih =>
      obtain ⟨rfl, rfl⟩ := opens
      rcases text with _ | ⟨_, _ | ⟨_, text⟩⟩
      · obtain rfl : rest = _ := whole
        exact absurd rfl (mark '_' rfl).1
      · obtain rfl : rest = _ := (List.cons.inj whole).2
        exact absurd rfl (mark '\x7b' rfl).2
      · obtain rfl : text ++ rest = inner := (List.cons.inj (List.cons.inj whole).2).2
        rcases closeGroup_append_cases 0 text rest with ⟨more, ended⟩ | ⟨depth, opened⟩
        · exact ih more ended.symm
        · obtain ⟨deeper, opened'⟩ := unclosed depth
          have never := closeGroup_inside ((openGroups_append opened _).trans opened') []
          rw [List.append_nil] at never
          have none : group.2 = [] := congrArg Prod.snd never
          right
          show others.2 = []
          simp only [others, none]
          rw [subscripts_plain (by simp)]
  | case2 first second inner closed => exact .inl ⟨text, whole.symm⟩
  | case3 source short => exact .inl ⟨text, whole.symm⟩

/-- No group is closed in letters, and in a closing command only the group around the name. -/
theorem openGroups_letters (letters : name.all Char.isAlpha) (depth : Nat) :
    openGroups depth name = some depth := by
  induction name with
  | nil => rfl
  | cons char name ih =>
      obtain ⟨letter, letters⟩ := Bool.and_eq_true_iff.mp letters
      have notOpen : char ≠ '\x7b' := fun same => absurd (same ▸ letter) (by decide)
      have notClose : char ≠ '\x7d' := fun same => absurd (same ▸ letter) (by decide)
      simp [openGroups, notOpen, notClose, ih letters]

/-- An end tag leaves the number of open groups alone. -/
theorem openGroups_closing (letters : name.all Char.isAlpha) (depth : Nat) (rest : Text) :
    openGroups depth (closing name ++ rest) = openGroups depth rest := by
  have front : openGroups depth ['\\', 'e', 'n', 'd', '\x7b'] = some (depth + 1) := by
    simp [openGroups]
  have spelled : closing name ++ rest =
      ['\\', 'e', 'n', 'd', '\x7b'] ++ (name ++ '\x7d' :: rest) := by
    simp [closing_eq, nameTag, Latex.braced]
  rw [spelled, openGroups_append front, openGroups_append (openGroups_letters letters _)]
  simp [openGroups]

/-- With its closing command inside, an environment does not end where it should. In front of a
blank, what stands behind the block is more than the blank. -/
theorem not_isWholeBlock_environment (letters : name.all Char.isAlpha)
    (occurs : closing name <:+: body) : ¬ IsWholeBlock (Latex.environment name body) := by
  rintro ⟨run, spelled, cut⟩
  rw [environment_eq] at spelled
  obtain rfl := (List.cons.inj spelled).2
  obtain ⟨before, after, rfl, early⟩ :=
    Text.exists_cutAfter_of_infix occurs (closing name ++ [' '])
  have behind : (Block.subscripts (after ++ (closing name ++ [' ']))).2 = [' '] := by
    have remains := congrArg Prod.snd (cut [' '])
    simp only [List.append_assoc] at remains early
    rw [cut_begin (not_mem_of_isAlpha letters rfl), early, subscripts_plain (by simp)] at remains
    exact remains
  have open_ (depth : Nat) : ∃ deeper, openGroups depth (closing name ++ [' ']) = some deeper :=
    ⟨depth, openGroups_closing letters depth [' ']⟩
  have mark : ∀ char ∈ (closing name ++ [' ']).head?, char ≠ '_' ∧ char ≠ '\x7b' := by
    simp [closing_eq, nameTag]
  rcases subscripts_append_cases mark open_ after with ⟨more, ends⟩ | ends
  · have sizes := congrArg List.length (ends.symm.trans behind)
    simp only [closing_eq, nameTag, List.length_append, List.length_cons] at sizes
    have some : 0 < ("end" : Text).length := by decide
    omega
  · cases ends.symm.trans behind

/-! ## Environments that are copied -/

/-- A well-nested environment is one block up to its own closing command, and is copied, exactly
when no environment of the same name stands inside. -/
theorem environment_copied_iff (letters : name.all Char.isAlpha) (nested : WellNested body) :
    (IsWholeBlock (Latex.environment name body) ∧
        ∀ style, Copied style (Latex.environment name body)) ↔ ¬ opening name <:+: body := by
  have named : IsEnvironmentName name :=
    ⟨not_mem_of_isAlpha letters rfl, not_mem_of_isAlpha letters rfl⟩
  rw [nested.opening_iff_closing named]
  refine ⟨fun copied occurs => not_isWholeBlock_environment letters occurs copied.1, fun free => ?_⟩
  have whole := isWholeBlock_environment named.1 named.2 free
  exact ⟨whole, whole.standsAlone.copied⟩

/-- A matrix in an array is copied with it, and an array in an array is not. -/
theorem environment_copied_iff_array :
    (IsWholeBlock (Latex.environment "array" (Latex.environment "pmatrix" "1 & 2" ++ "_n")) ∧
      ∀ style,
        Copied style (Latex.environment "array" (Latex.environment "pmatrix" "1 & 2" ++ "_n"))) ∧
      ¬ (IsWholeBlock (Latex.environment "array" (Latex.environment "array" "3" ++ "")) ∧
        ∀ style,
          Copied style (Latex.environment "array" (Latex.environment "array" "3" ++ ""))) := by
  have array : ("array" : Text).all Char.isAlpha := by decide
  have matrix : WellNested (Latex.environment "pmatrix" "1 & 2" ++ "_n") :=
    .environment ⟨by decide, by decide⟩ (.of_unmarked (by decide)) (.of_unmarked (by decide))
  have again : WellNested (Latex.environment "array" "3" ++ "") :=
    .environment ⟨by decide, by decide⟩ (.of_unmarked (by decide)) .nil
  exact ⟨(environment_copied_iff array matrix).mpr (by decide +kernel),
    fun copied => (environment_copied_iff array again).mp copied (by decide +kernel)⟩

/-- An environment in an environment of the same name ends both of them, and what is left is
displayed as a factor behind them. -/
theorem not_copied_nested :
    WellNested (Latex.environment "a" [] ++ []) ∧
      render .plain (Latex.environment "a" (Latex.environment "a" [] ++ [])) =
        .ok "\\begin\x7ba\x7d\\begin\x7ba\x7d\\end\x7ba\x7d \\cdot \\end\x7ba\x7d" ∧
      ¬ Copied .plain (Latex.environment "a" (Latex.environment "a" [] ++ [])) := by
  have shown : render .plain (Latex.environment "a" (Latex.environment "a" [] ++ [])) =
      .ok "\\begin\x7ba\x7d\\begin\x7ba\x7d\\end\x7ba\x7d \\cdot \\end\x7ba\x7d" := by
    decide +kernel
  refine ⟨.environment ⟨by decide, by decide⟩ .nil .nil, shown, fun copied => ?_⟩
  exact absurd (shown.symm.trans copied.alone) (by decide +kernel)

end MatrixFormula.Markup
