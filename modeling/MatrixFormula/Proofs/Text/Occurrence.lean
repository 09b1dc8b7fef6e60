import MatrixFormula.Text.Basic

/-!
# Occurrences of a tag

A tag occurs in a joined text only if it occurs in one of the parts, unless it contains what
stands between them. A tag that has its first character nowhere else starts only where a text has
this character. A text is cut just behind the first tag in it.
-/

namespace MatrixFormula.Text

variable {tag left right : Text}

/-- A tag without a character occurs in front of the character or behind it. -/
theorem infix_or_of_infix_append {char : Char} (absent : char ∉ tag)
    (occurs : tag <:+: left ++ char :: right) : tag <:+: left ∨ tag <:+: right := by
  obtain ⟨before, after, spelled⟩ := occurs
  rcases List.append_eq_append_iff.mp spelled with
    ⟨between, rfl, -⟩ | ⟨between, parts, rest⟩
  · exact .inl ⟨before, between, rfl⟩
  · rcases List.append_eq_append_iff.mp parts with ⟨front, rfl, rfl⟩ | ⟨front, rfl, rfl⟩
    · cases between with
      | nil => exact .inl ⟨before, [], by simp⟩
      | cons first others =>
          obtain ⟨rfl, -⟩ := List.cons.inj rest
          exact absurd (by simp) absent
    · cases front with
      | nil =>
          cases tag with
          | nil => exact .inl ⟨[], left, rfl⟩
          | cons first others =>
              obtain ⟨rfl, -⟩ := List.cons.inj rest
              exact absurd (by simp) absent
      | cons first others =>
          obtain ⟨-, rfl⟩ := List.cons.inj rest
          exact .inr ⟨others, after, rfl⟩

/-- A tag does not occur in joined pieces that do not contain it, when the separator stands
between spaces and the tag has none. -/
theorem not_infix_joined {separator : Text} {pieces : List Text} (nonempty : tag ≠ [])
    (solid : ' ' ∉ tag) (between : ¬ tag <:+: separator)
    (free : ∀ piece ∈ pieces, ¬ tag <:+: piece) :
    ¬ tag <:+: joined (' ' :: separator ++ [' ']) pieces := by
  induction pieces with
  | nil => simpa using nonempty
  | cons first others ih =>
      obtain ⟨here, later⟩ := List.forall_mem_cons.mp free
      cases others with
      | nil => simpa using here
      | cons second others =>
          have parts : joined (' ' :: separator ++ [' ']) (first :: second :: others) =
              first ++ ' ' :: (separator ++ ' ' ::
                joined (' ' :: separator ++ [' ']) (second :: others)) := by
            simp [joined_cons_cons]
          rw [parts]
          intro occurs
          rcases infix_or_of_infix_append solid occurs with inside | behind
          · exact here inside
          · exact (infix_or_of_infix_append solid behind).elim between (ih later)

/-! ## Tags with a mark in front -/

section Mark

variable {mark : Char} {others : Text}

/-- A text without the mark that starts a text in front of the mark ends in front of it too. -/
theorem prefix_append_mark_iff (once : mark ∉ others) (text rest : Text) :
    others <+: text ++ mark :: rest ↔ others <+: text := by
  refine ⟨fun starts => ?_, fun starts => starts.trans (List.prefix_append ..)⟩
  rcases List.prefix_or_prefix_of_prefix starts (List.prefix_append text _) with
    inside | ⟨more, rfl⟩
  · exact inside
  · cases more with
    | nil => simp
    | cons again more =>
        obtain ⟨rfl, -⟩ :=
          List.cons_prefix_cons.mp ((List.prefix_append_right_inj text).mp starts)
        exact absurd (by simp) once

/-- Two texts that are equal up to their first mark are equal in front of it and behind it. -/
theorem append_mark_inj {left right rest more : Text} (plain : mark ∉ left) (also : mark ∉ right)
    (same : left ++ mark :: rest = right ++ mark :: more) : left = right ∧ rest = more := by
  have front : left <+: right :=
    (prefix_append_mark_iff plain right more).mp (same ▸ List.prefix_append ..)
  have back : right <+: left :=
    (prefix_append_mark_iff also left rest).mp (same ▸ List.prefix_append ..)
  obtain rfl := front.eq_of_length_le back.length_le
  exact ⟨rfl, (List.cons.inj (List.append_cancel_left same)).2⟩

/-- A tag does not start in a text without its mark. -/
theorem infix_append_iff_of_notMem {passed : Text} (free : mark ∉ passed) (text : Text) :
    mark :: others <:+: passed ++ text ↔ mark :: others <:+: text := by
  induction passed with
  | nil => rfl
  | cons char passed ih =>
      obtain ⟨differs, free⟩ := not_or.mp (mt List.mem_cons.mpr free)
      rw [List.cons_append, List.infix_cons_iff, ih free]
      exact or_iff_right fun starts => differs (List.cons_prefix_cons.mp starts).1

/-- A tag with one mark occurs in front of a mark or from there on. -/
theorem infix_append_mark_iff (once : mark ∉ others) (text rest : Text) :
    mark :: others <:+: text ++ mark :: rest ↔
      mark :: others <:+: text ∨ mark :: others <:+: mark :: rest := by
  induction text with
  | nil => simp
  | cons char text ih =>
      rw [List.cons_append, List.infix_cons_iff, ih, ← or_assoc, @List.infix_cons_iff _ _ _ text,
        List.cons_prefix_cons, List.cons_prefix_cons, prefix_append_mark_iff once]

/-- A text is cut behind the first place where a tag stands. The first character of the tag
shows where it can start. -/
theorem cutAfter_tag {body : Text} (once : mark ∉ others) (free : ¬ mark :: others <:+: body)
    (rest : Text) :
    cutAfter (mark :: others) (body ++ (mark :: others ++ rest)) =
      (body ++ mark :: others, rest) := by
  induction body with
  | nil => simp [cutAfter]
  | cons char body ih =>
      obtain ⟨absent, later⟩ := not_or.mp (mt List.infix_cons_iff.mpr free)
      have apart : ¬ mark :: others <+: char :: (body ++ (mark :: others ++ rest)) := by
        rwa [List.cons_append, List.cons_prefix_cons, prefix_append_mark_iff once,
          ← List.cons_prefix_cons]
      rw [List.cons_append, cutAfter, if_neg (by simpa using apart), ih later]
      rfl

end Mark

/-- A text with a tag is cut inside, whatever stands behind it. -/
theorem exists_cutAfter_of_infix {body : Text} (occurs : tag <:+: body) (rest : Text) :
    ∃ before after, body = before ++ after ∧
      cutAfter tag (body ++ rest) = (before, after ++ rest) := by
  induction body with
  | nil =>
      obtain rfl := List.infix_nil.mp occurs
      exact ⟨[], [], rfl, by cases rest <;> rfl⟩
  | cons char body ih =>
      rw [List.cons_append, cutAfter]
      split
      · next found =>
          have fits := occurs.length_le
          refine ⟨_, _, (List.take_append_drop tag.length (char :: body)).symm, ?_⟩
          rw [← List.cons_append, List.take_append_of_le_length fits,
            List.drop_append_of_le_length fits]
      · next missing =>
          have later : tag <:+: body := (List.infix_cons_iff.mp occurs).resolve_left fun starts =>
            missing (List.isPrefixOf_iff_prefix.mpr (starts.trans (List.prefix_append ..)))
          obtain ⟨before, after, rfl, cut⟩ := ih later
          exact ⟨char :: before, after, rfl, by rw [cut]⟩

end MatrixFormula.Text
