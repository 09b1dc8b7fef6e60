import MatrixFormula.Proofs.Text.Token

/-!
# Blanks between tokens

Blanks separate tokens, and no other token goes on with a blank. So a text in which blanks between
tokens are replaced by other blanks, or are added, has the same tokens apart from blanks. What is
seen of tokens without regard to a blank in front is the same behind any blanks.
-/

namespace MatrixFormula.Token

variable {offset place : Nat} {char : Char} {rest text other : Text} {token : Token}
  {tokens : List Token}

/-- The tokens that are not blank, without their places. -/
def solid (tokens : List Token) : List Token :=
  (tokens.filter fun token => token.kind != .blank).map fun token => { token with span := .point 0 }

/-- The text has the tokens with other blanks: every blank run may be any other one, and blanks may
stand anywhere between two tokens, or at either end. -/
inductive Respaced : List Token → Text → Prop where
  | nil : Respaced [] []
  | kept {token : Token} {tokens : List Token} {other : Text} (later : Respaced tokens other) :
      Respaced (token :: tokens) (token.lexeme ++ other)
  | replaced {token : Token} {tokens : List Token} {blanks other : Text}
      (kind : token.kind = .blank) (nonempty : blanks ≠ [])
      (blank : ∀ char ∈ blanks, Text.isBlank char) (later : Respaced tokens other) :
      Respaced (token :: tokens) (blanks ++ other)
  | inserted {tokens : List Token} {char : Char} {other : Text} (blank : Text.isBlank char)
      (later : Respaced tokens other) : Respaced tokens (char :: other)

/-! ## Views that skip blanks -/

/-- What is seen of tokens depends neither on their places nor on a blank in front. -/
structure SkipsBlanks {β : Sort*} (view : List Token → β) : Prop where
  places : ∀ (text : Text) (offset place : Nat),
    view (listFrom offset text) = view (listFrom place text)
  blank : ∀ {token : Token} {tokens : List Token}, token.kind = .blank →
    view (token :: tokens) = view tokens

namespace SkipsBlanks

variable {β : Sort*} {view : List Token → β} (skips : SkipsBlanks view)

include skips

/-- A blank in front of a text does not change what is seen of its tokens. -/
theorem listFrom_blank (blank : Text.isBlank char) (offset place : Nat) :
    view (listFrom offset (char :: rest)) = view (listFrom place rest) := by
  have run {char : Char} (blank : Text.isBlank char) (offset : Nat) (rest : Text) :
      view (listFrom offset (char :: rest)) =
        view (listFrom place (rest.dropWhile Text.isBlank)) := by
    have kind := Kind.ofHead_of_isBlank blank
    rw [listFrom_cons, skips.blank kind, kind]
    exact skips.places _ _ _
  rw [run blank]
  cases rest with
  | nil => rfl
  | cons next others =>
      by_cases again : Text.isBlank next
      · rw [run again, List.dropWhile_cons_of_pos again]
      · rw [List.dropWhile_cons_of_neg again]

/-- Blanks in front of a text do not change what is seen of its tokens. -/
theorem listFrom_blanks {blanks : Text} (blank : ∀ char ∈ blanks, Text.isBlank char)
    (offset place : Nat) :
    view (listFrom offset (blanks ++ rest)) = view (listFrom place rest) := by
  induction blanks with
  | nil => exact skips.places rest offset place
  | cons char blanks ih =>
      obtain ⟨first, others⟩ := List.forall_mem_cons.mp blank
      rw [List.cons_append, skips.listFrom_blank first offset offset]
      exact ih others

/-- Dropping the blanks at the start of a text does not change what is seen of its tokens. -/
theorem list_trimStart (text : Text) :
    view (list (text.dropWhile Text.isBlank)) = view (list text) := by
  have blanks : view (list (text.takeWhile Text.isBlank ++ text.dropWhile Text.isBlank)) =
      view (list (text.dropWhile Text.isBlank)) :=
    skips.listFrom_blanks (fun _ => List.mem_takeWhile_imp) 0 0
  rw [List.takeWhile_append_dropWhile] at blanks
  exact blanks.symm

theorem list_blank (blank : Text.isBlank char) (rest : Text) :
    view (list (char :: rest)) = view (list (rest.dropWhile Text.isBlank)) :=
  (skips.listFrom_blank blank 0 0).trans (skips.list_trimStart rest).symm

end SkipsBlanks

/-! ## Solid tokens -/

theorem solid_cons_of_blank (blank : token.kind = .blank) :
    solid (token :: tokens) = solid tokens := by
  rw [solid, List.filter_cons_of_neg (by simp [blank]), solid]

theorem solid_cons_of_shown (shown : token.kind ≠ .blank) :
    solid (token :: tokens) = { token with span := .point 0 } :: solid tokens := by
  rw [solid, List.filter_cons_of_pos (by simpa using shown), List.map_cons, solid]

/-- Solid tokens do not depend on where a text stands. -/
theorem skipsBlanks_solid : SkipsBlanks solid where
  places text offset place := by
    fun_induction listFrom offset text generalizing place with
    | case1 => rw [listFrom]
    | case2 offset char rest kind lexeme ih =>
        rw [listFrom_cons]
        by_cases blank : Kind.ofHead char = .blank
        · exact (solid_cons_of_blank blank).trans ((ih _).trans (solid_cons_of_blank blank).symm)
        · refine (solid_cons_of_shown blank).trans (.trans ?_ (solid_cons_of_shown blank).symm)
          exact congrArg _ (ih _)
  blank := solid_cons_of_blank

/-- The first solid token of a text that does not start with a blank. -/
theorem solid_list_cons (shown : Kind.ofHead char ≠ .blank) (rest : Text) :
    solid (list (char :: rest)) =
      ⟨.ofHead char, char :: rest.takeWhile (Kind.ofHead char).continuedBy, .point 0⟩ ::
        solid (list (rest.dropWhile (Kind.ofHead char).continuedBy)) := by
  rw [list, listFrom_cons, solid_cons_of_shown shown]
  exact congrArg _ (skipsBlanks_solid.places _ _ _)

/-- A token is the first one wherever nothing behind it continues it. -/
theorem listFrom_run {run : Text} (inside : ∀ other ∈ run, (Kind.ofHead char).continuedBy other)
    (ends : ∀ other ∈ rest.head?, (Kind.ofHead char).continuedBy other = false) (offset : Nat) :
    listFrom offset (char :: run ++ rest) =
      ⟨.ofHead char, char :: run, .ofText offset (char :: run)⟩ ::
        listFrom (offset + Text.byteSize (char :: run)) rest := by
  have span := Text.span_run inside ends
  rw [List.cons_append, listFrom_cons, span.1, span.2]

/-- Blanks continue nothing but blanks. -/
theorem continuedBy_of_isBlank {kind : Kind} (shown : kind ≠ .blank) (blank : Text.isBlank char) :
    kind.continuedBy char = false := by
  refine Bool.eq_false_iff.mpr fun continued => ?_
  cases kind with
  | blank => exact shown rfl
  | name =>
      rw [not_isBlank_of_continuesName continued] at blank
      cases blank
  | number =>
      rw [not_isBlank_of_inNumber continued] at blank
      cases blank
  | _ => cases continued

/-- Induction on a text with other blanks. What follows a solid token starts with a blank or as
before, and does not continue the token. Blanks may be kept in place of others. -/
theorem Respaced.text_induction_on {motive : Text → Text → Prop}
    (respaced : Respaced (listFrom offset text) other) (nil : motive [] [])
    (inserted : ∀ {text other : Text} {char : Char}, Text.isBlank char → motive text other →
      motive text (char :: other))
    (blank : ∀ {rest blanks other : Text} {first : Char}, Text.isBlank first →
      (∀ char ∈ blanks, Text.isBlank char) → motive (rest.dropWhile Text.isBlank) other →
        motive (first :: rest) (blanks ++ other))
    (shown : ∀ {rest other : Text} {first : Char}, Kind.ofHead first ≠ .blank →
      (∀ char ∈ other.head?, (Kind.ofHead first).continuedBy char = false) →
      (∀ char ∈ other.head?, Text.isBlank char ∨
        char ∈ (rest.dropWhile (Kind.ofHead first).continuedBy).head?) →
      motive (rest.dropWhile (Kind.ofHead first).continuedBy) other →
        motive (first :: rest) (first :: rest.takeWhile (Kind.ofHead first).continuedBy ++ other)) :
    motive text other := by
  suffices both : (∀ char ∈ other.head?, Text.isBlank char ∨ char ∈ text.head?) ∧
      motive text other from both.2
  generalize same : listFrom offset text = tokens at respaced
  induction respaced generalizing offset text with
  | nil =>
      cases text with
      | nil => exact ⟨nofun, nil⟩
      | cons first rest => simp [listFrom] at same
  | inserted white later ih =>
      refine ⟨fun char start => .inl ?_, inserted white (ih same).2⟩
      obtain rfl := Option.some.inj start
      exact white
  | @replaced token tokens blanks other kind nonempty white later ih =>
      cases text with
      | nil => simp [listFrom] at same
      | cons first rest =>
          rw [listFrom_cons] at same
          obtain ⟨rfl, behind⟩ := List.cons.inj same
          have starts : Kind.ofHead first = .blank := kind
          have after := (ih behind).2
          rw [starts] at after
          obtain ⟨head, others, rfl⟩ := List.exists_cons_of_ne_nil nonempty
          refine ⟨fun char start => .inl ?_,
            blank ((Kind.class_of_ofHead first).1 starts) white after⟩
          obtain rfl := Option.some.inj start
          exact white head List.mem_cons_self
  | @kept token tokens other later ih =>
      cases text with
      | nil => simp [listFrom] at same
      | cons first rest =>
          rw [listFrom_cons] at same
          obtain ⟨rfl, behind⟩ := List.cons.inj same
          obtain ⟨head, after⟩ := ih behind
          refine ⟨fun char start => .inr start, ?_⟩
          by_cases kind : Kind.ofHead first = .blank
          · rw [kind] at after
            have starts := (Kind.class_of_ofHead first).1 kind
            refine blank starts (List.forall_mem_cons.mpr ⟨starts, fun char member => ?_⟩) after
            rw [kind] at member
            exact List.mem_takeWhile_imp member
          · refine shown kind (fun char start => ?_) head after
            rcases head char start with white | before
            · exact continuedBy_of_isBlank kind white
            · exact (Text.eq_run_append _ first rest).2 char before

/-- Other blanks leave the solid tokens alone. -/
theorem Respaced.solid_eq (respaced : Respaced (list text) other) :
    solid (list other) = solid (list text) := by
  have skips := skipsBlanks_solid
  refine respaced.text_induction_on
    (motive := fun text other => solid (list other) = solid (list text))
    rfl ?inserted ?blank ?shown
  case inserted => exact fun white ih => (skips.listFrom_blank white 0 0).trans ih
  case blank =>
    intro rest blanks other first starts white ih
    rw [skips.list_blank starts, ← ih]
    exact skips.listFrom_blanks white 0 0
  case shown =>
    intro rest other first shown ends _ ih
    rw [solid_list_cons shown, ← ih, list, listFrom_run (fun _ => List.mem_takeWhile_imp) ends,
      solid_cons_of_shown shown]
    exact congrArg _ (skips.places _ _ _)

/-- Only blanks are new in a text with other blanks. -/
theorem Respaced.isBlank_or_mem (respaced : Respaced (listFrom offset text) other) :
    ∀ char ∈ other, Text.isBlank char ∨ char ∈ text := by
  rw [← flatMap_lexeme_listFrom offset text]
  generalize listFrom offset text = tokens at respaced
  induction respaced with
  | nil => exact nofun
  | inserted blank later ih => exact List.forall_mem_cons.mpr ⟨.inl blank, ih⟩
  | replaced kind nonempty blank later ih =>
      refine List.forall_mem_append.mpr ⟨fun char member => .inl (blank char member), ?_⟩
      exact fun char member => (ih char member).imp_right fun inside => by simp [inside]
  | kept later ih =>
      refine List.forall_mem_append.mpr ⟨fun char member => .inr (by simp [member]), ?_⟩
      exact fun char member => (ih char member).imp_right fun inside => by simp [inside]

end MatrixFormula.Token
