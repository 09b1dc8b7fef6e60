import MatrixFormula.Workspace
import MatrixFormula.Proofs.Text.LongestMatch
import MatrixFormula.Proofs.Text.Spacing

/-!
# Requests for a declaration

An input asks for the declaration of a variable exactly when it is an identifier, blanks or none,
and one equals sign. The source of declarations is then asked for that name, once, and otherwise
it is not asked at all.
-/

namespace MatrixFormula

/-- The input is the name, which is an identifier, possibly blanks, and an equals sign. -/
def Requests (input name : Text) : Prop :=
  Token.isIdentifier name ∧
    ∃ blanks : Text, (∀ char ∈ blanks, Text.isBlank char) ∧ input = name ++ blanks ++ ['=']

namespace Workspace

variable {input name : Text}

/-! ## Requests and their tokens -/

/-- The pattern of equals signs matches one text. -/
theorem eq_of_admits_equals {text : Text} (admitted : Token.Kind.equals.admits text) :
    text = ['='] := by
  cases text with
  | nil => cases admitted
  | cons char rest =>
      cases rest with
      | nil => simpa [Token.Kind.admits, Token.Kind.marks] using admitted
      | cons _ _ => cases admitted

/-- Tokens that are a name, blanks and an equals sign spell a request. -/
theorem requests_of_tokens {first last : Token} {middle : List Token}
    (tokens : Token.list input = first :: middle ++ [last]) (named : first.kind = .name)
    (blank : ∀ token ∈ middle, token.kind = .blank) (sign : last.kind = .equals) :
    Requests input first.lexeme := by
  have admits : ∀ token ∈ first :: middle ++ [last], token.kind.admits token.lexeme := by
    rw [← tokens]
    exact fun token member => (Token.scanned_listFrom [] input token member).admitted
  have spelled := Token.flatMap_lexeme_listFrom 0 input
  rw [← Token.list, tokens] at spelled
  refine ⟨?_, middle.flatMap Token.lexeme, fun char inside => ?_, ?_⟩
  · have admitted := admits first (by simp)
    rwa [named] at admitted
  · obtain ⟨token, member, within⟩ := List.mem_flatMap.mp inside
    have admitted := admits token (by simp [member])
    rw [blank token member] at admitted
    simp only [Token.Kind.admits, Bool.and_eq_true, List.all_eq_true] at admitted
    exact admitted.2 char within
  · have admitted := admits last (by simp)
    rw [sign] at admitted
    rw [← spelled, ← eq_of_admits_equals admitted]
    simp

/-- Where a name is found, the input requests its declaration. -/
theorem requests_of_declaredName? (asked : declaredName? input = some name) :
    Requests input name := by
  unfold declaredName? at asked
  split at asked
  · next first last tokens =>
      split at asked
      · next kinds =>
          cases asked
          exact @requests_of_tokens _ _ _ [] tokens kinds.1 (by simp) kinds.2
      · cases asked
  · next first middle last tokens =>
      split at asked
      · next kinds =>
          cases asked
          exact @requests_of_tokens _ _ _ [middle] tokens kinds.1 (by simp [kinds.2.1]) kinds.2.2
      · cases asked
  · cases asked

/-- A request has the tokens of an identifier, of blanks if there are any, and of the sign. -/
theorem declaredName?_of_requests (requests : Requests input name) :
    declaredName? input = some name := by
  obtain ⟨identifier, blanks, blank, rfl⟩ := requests
  obtain ⟨first, run, rfl, starts, inside⟩ := Token.exists_of_isIdentifier identifier
  have named := Token.Kind.ofHead_of_startsName starts
  have sign (offset : Nat) : Token.listFrom offset ['='] =
      [⟨.equals, ['='], Span.ofText offset ['=']⟩] :=
    (Token.listFrom_single fun _ => rfl).trans (by rw [Token.listFrom]; rfl)
  have ends : ∀ other ∈ (blanks ++ ['=']).head?, Token.continuesName other = false := by
    cases blanks with
    | nil =>
        rintro other ⟨⟩
        rfl
    | cons char _ =>
        intro other head
        obtain rfl : char = other := by simpa using head
        exact @Token.continuedBy_of_isBlank char .name (by simp) (blank char (by simp))
  have tokens := @Token.listFrom_run first (blanks ++ ['=']) run (by rwa [named])
    (by rwa [named]) 0
  rw [List.append_assoc, declaredName?, Token.list, tokens, named]
  cases blanks with
  | nil => simp [sign]
  | cons char blanks =>
      have white := Token.Kind.ofHead_of_isBlank (blank char (by simp))
      have tokens := @Token.listFrom_run char ['='] blanks
        (by rw [white]; exact fun other member => blank other (by simp [member]))
        (by rw [white]; rintro other ⟨⟩; rfl) (0 + Text.byteSize (first :: run))
      rw [tokens, white, sign]
      simp

/-- A name is found exactly where the input requests its declaration. -/
theorem declaredName?_eq_some_iff : declaredName? input = some name ↔ Requests input name :=
  ⟨requests_of_declaredName?, declaredName?_of_requests⟩

/-- No name is found exactly where the input requests no declaration. -/
theorem declaredName?_eq_none_iff : declaredName? input = none ↔ ∀ name, ¬ Requests input name := by
  simp [Option.eq_none_iff_forall_ne_some, declaredName?_eq_some_iff]

/-! ## What the source is asked -/

variable (workspace : Workspace) {source other : Text → Option Declaration}

/-- Only a name whose declaration is requested is asked for, and only once. -/
theorem asked_assign (source : Text → Option Declaration) (input : Text) :
    (workspace.assign source input).asked = (declaredName? input).toList := by
  unfold assign
  split
  · next quiet => simp [quiet]
  · next name asked =>
      rw [asked]
      split
      · rfl
      · split <;> rfl

/-- The declaration for the requested name is all that matters about a source. -/
theorem assign_congr (same : ∀ name, Requests input name → other name = source name) :
    workspace.assign other input = workspace.assign source input := by
  unfold assign
  split
  · rfl
  · next name asked => rw [same name (requests_of_declaredName? asked)]

/-- Something is shown when a declaration is requested and given. -/
theorem isSome_outcome_assign (source : Text → Option Declaration) (input : Text) :
    (workspace.assign source input).outcome?.isSome ↔
      ∃ name declaration, Requests input name ∧ source name = some declaration := by
  unfold assign
  split
  · next quiet => simp [declaredName?_eq_none_iff.mp quiet]
  · next name asked =>
      have only (other : Text) : Requests input other ↔ name = other := by
        rw [← declaredName?_eq_some_iff, asked, Option.some.injEq]
      split
      · next cancelled => simp [only, cancelled]
      · next declaration given => split <;> simp [only, given]

/-- The name that an input asks to declare is the one whose declaration it requests. The source of
declarations is asked for that name, once, and asked nothing when there is none. -/
theorem declaration_requested_iff (input : Text) :
    (∀ name, declaredName? input = some name ↔ Requests input name) ∧
    ∀ (workspace : Workspace) (source : Text → Option Declaration),
      (∀ name, (workspace.assign source input).asked = [name] ↔ Requests input name) ∧
      ((workspace.assign source input).asked = [] ↔ ∀ name, ¬ Requests input name) ∧
      ((workspace.assign source input).outcome?.isSome ↔
        ∃ name declaration, Requests input name ∧ source name = some declaration) ∧
      ∀ other : Text → Option Declaration,
        (∀ name, Requests input name → other name = source name) →
          workspace.assign other input = workspace.assign source input := by
  refine ⟨fun name => declaredName?_eq_some_iff, fun workspace source => ⟨fun name => ?_, ?_,
    workspace.isSome_outcome_assign source input, fun other => workspace.assign_congr⟩⟩
  · rw [asked_assign, ← declaredName?_eq_some_iff]
    cases declaredName? input <;> simp
  · rw [asked_assign, ← declaredName?_eq_none_iff]
    cases declaredName? input <;> simp

/-- A no-break space may stand in front of the sign, and the source is asked for nothing but the
name. -/
theorem declaration_requested_iff_noBreak :
    Requests "v_1\u00a0=" "v_1" ∧
      (assign {} (fun _ => none) "v_1\u00a0=").asked = ["v_1".toList] ∧
      assign {} (fun name => if name = "v_1" then none else some ⟨['1'], ['1'], []⟩) "v_1\u00a0=" =
        assign {} (fun _ => none) "v_1\u00a0=" := by
  have requested : Requests "v_1\u00a0=" "v_1" :=
    ⟨by decide, ['\u00a0'], List.forall_mem_singleton.mpr (by decide), by decide⟩
  have only (name : Text) (also : Requests "v_1\u00a0=" name) : "v_1".toList = name := by
    have first := declaredName?_of_requests requested
    rw [declaredName?_of_requests also] at first
    exact (Option.some.inj first).symm
  obtain ⟨asks, -, -, same⟩ :=
    (declaration_requested_iff "v_1\u00a0=").2 {} fun _ => none
  exact ⟨requested, (asks _).mpr requested, same _ fun name also => by simp [← only name also]⟩

end Workspace

end MatrixFormula
