import Mathlib.Data.List.TakeWhile
import MatrixFormula.Proofs.Text.Character

/-!
# Tokens of the rest of a text

Tokens are cut off a text from the left, so the last ones among the tokens of a text are the
tokens of what the first ones leave.
-/

namespace MatrixFormula.Token

variable {offset : Nat} {char : Char} {rest text : Text}

theorem listFrom_cons :
    listFrom offset (char :: rest) =
      ⟨.ofHead char, char :: rest.takeWhile (Kind.ofHead char).continuedBy,
        Span.ofText offset (char :: rest.takeWhile (Kind.ofHead char).continuedBy)⟩ ::
      listFrom (offset + Text.byteSize (char :: rest.takeWhile (Kind.ofHead char).continuedBy))
        (rest.dropWhile (Kind.ofHead char).continuedBy) := by
  rw [listFrom]

theorem listFrom_single (alone : ∀ other, (Kind.ofHead char).continuedBy other = false) :
    listFrom offset (char :: rest) =
      ⟨.ofHead char, [char], Span.ofText offset [char]⟩ ::
        listFrom (offset + Text.byteSize [char]) rest := by
  cases rest <;> simp [listFrom_cons, alone]

/-- A token consists of a character that decides its kind and of characters that continue it. -/
theorem exists_of_mem_listFrom {token : Token} (member : token ∈ listFrom offset text) :
    ∃ char run, token.lexeme = char :: run ∧ token.kind = .ofHead char ∧
      ∀ other ∈ run, token.kind.continuedBy other := by
  fun_induction listFrom offset text with
  | case1 => cases member
  | case2 offset char rest kind lexeme ih =>
      rcases List.mem_cons.mp member with rfl | later
      · exact ⟨char, _, rfl, rfl, fun _ => List.mem_takeWhile_imp⟩
      · exact ih later

/-- The tokens behind some tokens of a text are the tokens of what those leave. -/
theorem listFrom_of_append {front behind : List Token}
    (parts : listFrom offset text = front ++ behind) :
    ∃ rest, text = front.flatMap Token.lexeme ++ rest ∧
      behind = listFrom (offset + Text.byteSize (front.flatMap Token.lexeme)) rest := by
  induction front generalizing offset text with
  | nil => exact ⟨text, rfl, parts.symm⟩
  | cons token front ih =>
      cases text with
      | nil => simp [listFrom] at parts
      | cons char others =>
          rw [listFrom_cons, List.cons_append] at parts
          obtain ⟨rfl, later⟩ := List.cons.inj parts
          obtain ⟨rest, left, remaining⟩ := ih later
          refine ⟨rest, ?_, ?_⟩
          · rw [List.flatMap_cons, List.append_assoc, ← left]
            simp
          · rw [remaining, List.flatMap_cons, Text.byteSize_append, Nat.add_assoc]

/-! ## Where tokens end -/

variable {before behind : List Token} {token : Token}

/-- The text of a token stands between those of the tokens around it, and does not go on in the
text behind it. -/
theorem listFrom_of_cons (parts : listFrom offset text = before ++ token :: behind) :
    text = before.flatMap Token.lexeme ++ (token.lexeme ++ behind.flatMap Token.lexeme) ∧
      ∀ char ∈ (behind.flatMap Token.lexeme).head?, token.kind.continuedBy char = false := by
  obtain ⟨rest, spelled, remaining⟩ := listFrom_of_append parts
  cases rest with
  | nil => simp [listFrom] at remaining
  | cons char rest =>
      obtain ⟨cut, ends⟩ := Text.eq_run_append (Kind.ofHead char).continuedBy char rest
      rw [listFrom_cons] at remaining
      obtain ⟨rfl, rfl⟩ := List.cons.inj remaining
      rw [flatMap_lexeme_listFrom]
      exact ⟨spelled.trans (congrArg _ cut), ends⟩

theorem isIdentifier_lexeme (member : token ∈ listFrom offset text) (name : token.kind = .name) :
    isIdentifier token.lexeme := by
  obtain ⟨char, run, spelled, kind, inside⟩ := exists_of_mem_listFrom member
  rw [name] at kind inside
  have starts := (Kind.class_of_ofHead char).2.1 kind.symm
  have letters : run.all continuesName := List.all_eq_true.mpr inside
  simp [spelled, isIdentifier, starts, letters]

/-- No name reaches from in front of a name up to it. -/
theorem closed_name (parts : listFrom offset text = before ++ token :: behind)
    (name : token.kind = .name) :
    Text.Closed startsName continuesName (before.flatMap Token.lexeme) := by
  induction before generalizing offset text with
  | nil => exact fun front first others spelled => absurd spelled (by simp)
  | cons head before ih =>
      cases text with
      | nil => simp [listFrom] at parts
      | cons first others =>
          rw [listFrom_cons, List.cons_append] at parts
          obtain ⟨rfl, later⟩ := List.cons.inj parts
          refine (ih later).append fun start member starts => ?_
          have kind := Kind.ofHead_of_mem_startsName
            (List.all_eq_true.mp List.all_takeWhile) member starts
          obtain ⟨-, ends⟩ := Text.eq_run_append (Kind.ofHead first).continuedBy first others
          obtain ⟨rest, left, remaining⟩ := listFrom_of_append later
          rw [left, kind] at ends
          cases between : before.flatMap Token.lexeme with
          | cons next _ => exact ⟨next, by simp, ends next (by rw [between]; rfl)⟩
          | nil =>
              -- The name would go on in the one that follows.
              cases rest with
              | nil => simp [listFrom] at remaining
              | cons next _ =>
                  rw [listFrom_cons] at remaining
                  have kind : token.kind = .ofHead next := by rw [(List.cons.inj remaining).1]
                  have starts := (Kind.class_of_ofHead next).2.1 (kind ▸ name)
                  have stops := ends next (by rw [between]; rfl)
                  simp [Kind.continuedBy, continuesName, starts] at stops

/-- Only a caret that is the last token but for blanks has nothing but blanks behind it. -/
theorem closed_caret (parts : listFrom offset text = before ++ behind)
    (last : (before.filter fun token => token.kind != .blank).getLast?.map kind ≠ some .caret) :
    Text.Closed (· == '^') Text.isBlank (before.flatMap Token.lexeme) := by
  induction before generalizing offset text with
  | nil => exact fun front first others spelled => absurd spelled (by simp)
  | cons head before ih =>
      cases text with
      | nil => simp [listFrom] at parts
      | cons first others =>
          rw [listFrom_cons, List.cons_append] at parts
          obtain ⟨rfl, later⟩ := List.cons.inj parts
          have closed : Text.Closed (· == '^') Text.isBlank (before.flatMap Token.lexeme) := by
            refine ih later fun caret => last ?_
            obtain ⟨token, found, mark⟩ := Option.map_eq_some_iff.mp caret
            rw [List.filter_cons]
            split
            · rw [List.getLast?_cons, found]
              exact congrArg some mark
            · exact caret
          refine closed.append fun mark member caret => ?_
          obtain rfl : mark = '^' := eq_of_beq caret
          obtain rfl := eq_of_mem_caret (List.all_eq_true.mp List.all_takeWhile) member
          refine Decidable.byContradiction fun blank => last ?_
          have blanks : before.filter (fun token => token.kind != .blank) = [] := by
            refine List.filter_eq_nil_iff.mpr fun token inside => ?_
            obtain ⟨head, run, spelled, kind, -⟩ :=
              exists_of_mem_listFrom (later ▸ List.mem_append_left behind inside)
            have shown : Text.isBlank head := by
              refine Bool.not_eq_false _ ▸ fun shown => blank ⟨head, ?_, shown⟩
              exact List.mem_flatMap.mpr ⟨token, inside, spelled ▸ List.mem_cons_self⟩
            rw [kind, Kind.ofHead_of_isBlank shown]
            decide
          rw [List.filter_cons_of_pos (by rfl), blanks]
          rfl

end MatrixFormula.Token
