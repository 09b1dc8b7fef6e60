import MatrixFormula.Markup.Lexeme

/-!
# Cuts do not look ahead

A token and a markup block end at the first character that cannot continue them, or behind a
closing mark. So one that ends in front of a letter is cut off in the same place whatever stands
behind that letter.
-/

namespace MatrixFormula.Markup

/-- A cut that ends in front of one text, or before, is the same in front of another. -/
def Stable (cut : Text → Text × Text) (rest other : Text) : Prop :=
  ∀ text before after, cut (text ++ rest) = (before, after ++ rest) →
    cut (text ++ other) = (before, after ++ other)

/-- Cuts a text behind the run of characters of a class that it starts with. -/
def cutRun (inside : Char → Bool) (text : Text) : Text × Text :=
  (text.takeWhile inside, text.dropWhile inside)

/-- A run goes on with its first character, or ends in front of it. -/
theorem cutRun_cons (inside : Char → Bool) (char : Char) (text : Text) :
    cutRun inside (char :: text) =
      if inside char then (char :: (cutRun inside text).1, (cutRun inside text).2)
      else ([], char :: text) := by
  rw [cutRun, List.takeWhile_cons, List.dropWhile_cons]
  split <;> rfl

variable {char : Char} {rest other : Text}

/-- Where a run ends depends on one character behind it. -/
theorem stable_cutRun (inside : Char → Bool) :
    Stable (cutRun inside) (char :: rest) (char :: other) := by
  intro text
  induction text with
  | nil =>
      intro before after cut
      rw [List.nil_append, cutRun_cons] at cut ⊢
      split at cut
      · have shorter := (List.dropWhile_sublist inside (l := rest)).length_le
        obtain ⟨-, remains⟩ := Prod.mk.inj cut
        rw [show rest.dropWhile inside = _ from remains, List.length_append] at shorter
        simp only [List.length_cons] at shorter
        omega
      · obtain ⟨rfl, remains⟩ := Prod.mk.inj cut
        rw [List.self_eq_append_left.mp remains, if_neg ‹_›, List.nil_append]
  | cons first text ih =>
      intro before after cut
      rw [List.cons_append, cutRun_cons] at cut ⊢
      split at cut
      · obtain ⟨rfl, remains⟩ := Prod.mk.inj cut
        rw [if_pos ‹_›, ih _ after (Prod.ext rfl remains)]
      · obtain ⟨rfl, remains⟩ := Prod.mk.inj cut
        have whole : (first :: text) ++ char :: rest = after ++ char :: rest := remains
        rw [← List.append_cancel_right whole, if_neg ‹_›, List.cons_append]

/-- What a cut passes when a later cut ends in front of the rest. -/
theorem Stable.inner {cut : Text → Text × Text} (stable : Stable cut rest other)
    {text found remaining inside after : Text} (cuts : cut (text ++ rest) = (found, remaining))
    (keeps : inside ++ (after ++ rest) = remaining) :
    remaining = (inside ++ after) ++ rest ∧
      cut (text ++ other) = (found, (inside ++ after) ++ other) := by
  have whole : remaining = (inside ++ after) ++ rest := by rw [List.append_assoc, keeps]
  exact ⟨whole, stable _ _ _ (whole ▸ cuts)⟩

/-- A group ends at a closing brace that no brace inside it has opened. -/
theorem closeGroup_cons (depth : Nat) (char : Char) (text : Text) :
    Block.closeGroup depth (char :: text) =
      if char = '\x7d' ∧ depth = 0 then ([char], text)
      else
        let depth := if char = '\x7b' then depth + 1 else if char = '\x7d' then depth - 1 else depth
        (char :: (Block.closeGroup depth text).1, (Block.closeGroup depth text).2) := by
  cases depth with
  | zero =>
      rw [Block.closeGroup]
      split <;> split <;> simp_all
  | succ depth =>
      rw [Block.closeGroup]
      split <;> split <;> simp_all

/-- Where a group ends depends on its own text. -/
theorem stable_closeGroup (depth : Nat) :
    Stable (Block.closeGroup depth) (char :: rest) (char :: other) := by
  intro text
  induction text generalizing depth with
  | nil =>
      -- The first character always belongs to the group.
      intro before after cut
      have whole := Block.closeGroup_append depth (char :: rest)
      rw [List.nil_append] at cut
      rw [cut] at whole
      have sizes := congrArg List.length whole
      rw [closeGroup_cons] at cut
      split at cut
      all_goals
        obtain ⟨rfl, -⟩ := Prod.mk.inj cut
        simp only [List.length_append, List.length_cons] at sizes
        omega
  | cons first text ih =>
      intro before after cut
      rw [List.cons_append, closeGroup_cons] at cut ⊢
      split at cut
      · obtain ⟨rfl, remains⟩ := Prod.mk.inj cut
        rw [if_pos ‹_›, List.append_cancel_right remains]
      · obtain ⟨rfl, remains⟩ := Prod.mk.inj cut
        rw [if_neg ‹_›]
        simp only [ih _ _ after (Prod.ext rfl remains)]

/-- The groups that start with an open brace are the group that it opens and the groups behind. -/
theorem groups_open (text : Text) :
    Block.groups ('\x7b' :: text) =
      ('\x7b' :: (Block.closeGroup 0 text).1 ++ (Block.groups (Block.closeGroup 0 text).2).1,
        (Block.groups (Block.closeGroup 0 text).2).2) := by
  rw [Block.groups, if_pos rfl]

/-- Where no brace opens, there are no groups. -/
theorem groups_plain {text : Text} (plain : text.head? ≠ some '\x7b') :
    Block.groups text = ([], text) := by
  cases text with
  | nil => rw [Block.groups]
  | cons char text => rw [Block.groups, if_neg fun open_ => plain (congrArg some open_)]

/-- Groups in a row end in front of any character that opens none. -/
theorem stable_groups (plain : char ≠ '\x7b') :
    Stable Block.groups (char :: rest) (char :: other) := by
  intro text before after cut
  generalize whole : text ++ char :: rest = source at cut
  fun_induction Block.groups source generalizing text before with
  | case1 => simp at whole
  | case2 inner group others ih =>
      obtain ⟨rfl, remains⟩ := Prod.mk.inj cut
      cases text with
      | nil => exact absurd (List.cons.inj whole).1 plain
      | cons _ text =>
          obtain ⟨rfl, rfl⟩ := List.cons.inj whole
          have keeps := Block.groups_append group.2
          rw [show (Block.groups group.2).2 = _ from remains] at keeps
          obtain ⟨bound, grouped⟩ := (@stable_closeGroup char rest other 0).inner rfl keeps
          have next := ih _ _ bound.symm (Prod.ext rfl remains)
          rw [List.cons_append, groups_open]
          simp only [grouped, next]
          rfl
  | case3 first inner closed =>
      obtain ⟨rfl, remains⟩ := Prod.mk.inj cut
      obtain rfl := List.append_cancel_right (whole.trans remains)
      refine groups_plain ?_
      cases text with
      | nil => simpa using plain
      | cons _ text => simpa [(List.cons.inj whole).1] using closed

/-- The subscripts that start with a group are that group and the subscripts behind. -/
theorem subscripts_open (text : Text) :
    Block.subscripts ('_' :: '\x7b' :: text) =
      ('_' :: '\x7b' :: (Block.closeGroup 0 text).1 ++
          (Block.subscripts (Block.closeGroup 0 text).2).1,
        (Block.subscripts (Block.closeGroup 0 text).2).2) := by
  rw [Block.subscripts, if_pos ⟨rfl, rfl⟩]

/-- Where no group is subscripted, there are no subscripts. -/
theorem subscripts_plain {text : Text} (plain : ¬ ['_', '\x7b'] <+: text) :
    Block.subscripts text = ([], text) := by
  match text with
  | [] => rw [Block.subscripts]; simp
  | [_] => rw [Block.subscripts]; simp
  | mark :: char :: text =>
      rw [Block.subscripts, if_neg]
      simpa [eq_comm] using plain

/-- Subscripts in a row end in front of any character that starts none. -/
theorem stable_subscripts (plain : char ≠ '_' ∧ char ≠ '\x7b') :
    Stable Block.subscripts (char :: rest) (char :: other) := by
  -- A subscript that starts in front of the letter has its brace there too.
  have starts (text : Text) (opens : ['_', '\x7b'] <+: text ++ char :: other) :
      ['_', '\x7b'] <+: text ++ char :: rest := by
    rcases text with _ | ⟨_, _ | ⟨_, text⟩⟩
    · simp [plain.1.symm] at opens
    · simp [plain.2.symm] at opens
    · simpa using opens
  intro text before after cut
  generalize whole : text ++ char :: rest = source at cut
  fun_induction Block.subscripts source generalizing text before with
  | case1 mark second inner opens group others ih =>
      obtain ⟨rfl, remains⟩ := Prod.mk.inj cut
      obtain ⟨rfl, rfl⟩ := opens
      rcases text with _ | ⟨_, _ | ⟨_, text⟩⟩
      · exact absurd (List.cons.inj whole).1 plain.1
      · exact absurd (List.cons.inj (List.cons.inj whole).2).1 plain.2
      · obtain ⟨rfl, tail⟩ := List.cons.inj whole
        obtain ⟨rfl, rfl⟩ := List.cons.inj tail
        have keeps := Block.subscripts_append group.2
        rw [show (Block.subscripts group.2).2 = _ from remains] at keeps
        obtain ⟨bound, grouped⟩ := (@stable_closeGroup char rest other 0).inner rfl keeps
        have next := ih _ _ bound.symm (Prod.ext rfl remains)
        rw [List.cons_append, List.cons_append, subscripts_open]
        simp only [grouped, next]
        rfl
  | case2 mark second inner closed =>
      obtain ⟨rfl, remains⟩ := Prod.mk.inj cut
      obtain rfl := List.append_cancel_right (whole.trans remains)
      refine subscripts_plain fun opens => closed ?_
      simpa [whole, eq_comm] using starts text opens
  | case3 source short =>
      obtain ⟨rfl, remains⟩ := Prod.mk.inj cut
      obtain rfl := List.append_cancel_right (whole.trans remains)
      refine subscripts_plain fun opens => ?_
      obtain ⟨inner, spelled⟩ := starts text opens
      exact short _ _ _ (whole.symm.trans spelled.symm)

/-- A cut behind a tag that ends in front of a text has passed the tag by then. -/
theorem length_le_of_cutAfter {tag text before after : Text}
    (cut : Text.cutAfter tag (text ++ char :: rest) = (before, after ++ char :: rest)) :
    tag.length ≤ text.length := by
  have passed (text : Text) (short : (Text.cutAfter tag text).2 ≠ []) :
      tag.length ≤ (Text.cutAfter tag text).1.length := by
    fun_induction Text.cutAfter tag text with
    | case1 => exact absurd rfl short
    | case2 first text found =>
        have fits := (List.isPrefixOf_iff_prefix.mp found).length_le
        rw [List.length_take]
        omega
    | case3 first text missing before after cut ih =>
        rw [cut] at ih
        exact Nat.le_succ_of_le (ih short)
  have fits := passed (text ++ char :: rest) (by rw [cut]; simp)
  have sizes := congrArg List.length (Text.cutAfter_append tag (text ++ char :: rest))
  simp only [cut, List.length_append] at fits sizes
  omega

/-- Where a tag ends depends on the text up to it. -/
theorem stable_cutAfter (tag : Text) :
    Stable (Text.cutAfter tag) (char :: rest) (char :: other) := by
  intro text before after cut
  induction text generalizing before with
  | nil =>
      obtain rfl := List.length_eq_zero_iff.mp (Nat.le_zero.mp (length_le_of_cutAfter cut))
      rw [List.nil_append, Text.cutAfter] at cut ⊢
      obtain ⟨rfl, remains⟩ := Prod.mk.inj cut
      have whole : [] ++ char :: rest = after ++ char :: rest := remains
      rw [← List.append_cancel_right whole]
      rfl
  | cons first text ih =>
      -- The tag ends in front of the letter, so what stands behind it does not matter.
      have fits := length_le_of_cutAfter cut
      have found (rest : Text) : tag.isPrefixOf (first :: (text ++ rest)) =
          tag.isPrefixOf (first :: text) := by
        rw [Bool.eq_iff_iff, List.isPrefixOf_iff_prefix, List.isPrefixOf_iff_prefix]
        exact ⟨fun starts => List.prefix_of_prefix_length_le starts ⟨rest, rfl⟩ fits,
          fun starts => starts.trans ⟨rest, rfl⟩⟩
      rw [List.cons_append, Text.cutAfter, found] at cut ⊢
      split at cut
      · rw [if_pos ‹_›]
        rw [← List.cons_append, List.take_append_of_le_length fits,
          List.drop_append_of_le_length fits] at cut ⊢
        obtain ⟨rfl, remains⟩ := Prod.mk.inj cut
        rw [List.append_cancel_right remains]
      · rw [if_neg ‹_›]
        obtain ⟨rfl, remains⟩ := Prod.mk.inj cut
        rw [ih _ (Prod.ext rfl remains)]

/-- Two cuts in a row, of which the second may depend on what the first one found. -/
theorem Stable.andThen {first : Text → Text × Text} {second : Text → Text → Text × Text}
    (stable : Stable first rest other) (next : ∀ found, Stable (second found) rest other)
    (keeps : ∀ found text, (second found text).1 ++ (second found text).2 = text) :
    Stable (fun text =>
      ((first text).1 ++ (second (first text).1 (first text).2).1,
        (second (first text).1 (first text).2).2)) rest other := by
  intro text before after cut
  obtain ⟨rfl, remains⟩ := Prod.mk.inj cut
  have whole := keeps (first (text ++ rest)).1 (first (text ++ rest)).2
  rw [remains] at whole
  obtain ⟨bound, passed⟩ := stable.inner rfl whole
  have inside := next (first (text ++ rest)).1 _ _ after
    (Prod.ext rfl (bound ▸ remains))
  simp only [passed, inside, ← bound]

/-- The arguments of a command end in front of any character that opens no group. -/
theorem stable_arguments (plain : char ≠ '\x7b') (command : Text) :
    Stable (Block.arguments command) (char :: rest) (char :: other) := by
  have environment : Stable Block.environment (char :: rest) (char :: other) :=
    (stable_cutAfter ['\x7d']).andThen (fun name => stable_cutAfter ("\\end" ++ name))
      fun name => Text.cutAfter_append ("\\end" ++ name)
  intro text before after cut
  unfold Block.arguments at cut ⊢
  split at cut
  · rw [if_pos ‹_›]
    exact environment text before after cut
  · rw [if_neg ‹_›]
    exact stable_groups plain text before after cut

/-- A block ends where it does whatever stands behind the letter that ends it. -/
theorem stable_block (letter : char.isAlpha) :
    Stable Block.cut (char :: rest) (char :: other) := by
  have brace : char ≠ '\x7b' := by
    rintro rfl
    exact absurd letter (by decide)
  have mark : char ≠ '_' := by
    rintro rfl
    exact absurd letter (by decide)
  have content := (@stable_cutRun char rest other Char.isAlpha).andThen
    (fun command => stable_arguments brace command) Block.arguments_append
  exact content.andThen (fun _ => stable_subscripts ⟨mark, brace⟩) fun _ => Block.subscripts_append

end MatrixFormula.Markup
