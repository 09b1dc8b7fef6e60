import MatrixFormula.Token

/-!
# Classes of characters

Blanks, letters, digits and the marks of a formula lie in separate ranges of code points,
so a character of one class is in no other.
-/

namespace MatrixFormula

/-- Blanks lie below or above all letters, digits and marks of a formula. -/
theorem Text.toNat_of_isBlank {char : Char} (blank : isBlank char) :
    char.toNat ≤ 32 ∨ 133 ≤ char.toNat := by
  simp only [isBlank, blankRanges, List.any_cons, List.any_nil, Bool.or_false,
    Bool.or_eq_true, Bool.and_eq_true, decide_eq_true_eq] at blank
  omega

namespace Token

/-- Where the digits lie. -/
theorem toNat_of_isDigit {char : Char} (digit : char.isDigit) :
    48 ≤ char.toNat ∧ char.toNat ≤ 57 := by
  simp only [Char.isDigit, Bool.and_eq_true, decide_eq_true_eq, ge_iff_le,
    UInt32.le_iff_toNat_le] at digit
  exact digit

/-- Where the letters lie. -/
theorem toNat_of_isAlpha {char : Char} (letter : char.isAlpha) :
    65 ≤ char.toNat ∧ char.toNat ≤ 90 ∨ 97 ≤ char.toNat ∧ char.toNat ≤ 122 := by
  have ranges : decide (65 ≤ char.val ∧ char.val ≤ 90) ||
      decide (97 ≤ char.val) && decide (char.val ≤ 122) := letter
  simp only [Bool.or_eq_true, Bool.and_eq_true, decide_eq_true_eq,
    UInt32.le_iff_toNat_le] at ranges
  exact ranges

/-- Where the characters lie that may start a name. -/
theorem toNat_of_startsName {char : Char} (starts : startsName char) :
    65 ≤ char.toNat ∧ char.toNat ≤ 122 := by
  simp only [startsName, Bool.or_eq_true, beq_iff_eq] at starts
  rcases starts with letter | rfl
  · have := toNat_of_isAlpha letter
    omega
  · decide

/-- Where the characters lie that may stand in a name. -/
theorem toNat_of_continuesName {char : Char} (inside : continuesName char) :
    48 ≤ char.toNat ∧ char.toNat ≤ 122 := by
  simp only [continuesName, Bool.or_eq_true] at inside
  rcases inside with starts | digit
  · have := toNat_of_startsName starts
    omega
  · have := toNat_of_isDigit digit
    omega

/-- Where the digits and the point lie. -/
theorem toNat_of_inNumber {char : Char} (inside : inNumber char) :
    46 ≤ char.toNat ∧ char.toNat ≤ 57 := by
  simp only [inNumber, Bool.or_eq_true, beq_iff_eq] at inside
  rcases inside with digit | rfl
  · have := toNat_of_isDigit digit
    omega
  · decide

/-- No blank stands in a name. -/
theorem not_isBlank_of_continuesName {char : Char} (inside : continuesName char) :
    Text.isBlank char = false := by
  refine Bool.eq_false_iff.mpr fun blank => ?_
  have low := Text.toNat_of_isBlank blank
  have high := toNat_of_continuesName inside
  omega

/-- No blank is a letter. -/
theorem not_isAlpha_of_isBlank {char : Char} (blank : Text.isBlank char) :
    char.isAlpha = false := by
  refine Bool.eq_false_iff.mpr fun letter => ?_
  have low := Text.toNat_of_isBlank blank
  have high := toNat_of_isAlpha letter
  omega

/-- No blank stands in a number. -/
theorem not_isBlank_of_inNumber {char : Char} (inside : inNumber char) :
    Text.isBlank char = false := by
  refine Bool.eq_false_iff.mpr fun blank => ?_
  have low := Text.toNat_of_isBlank blank
  have high := toNat_of_inNumber inside
  omega

/-- No name starts with a character of a number. -/
theorem not_startsName_of_inNumber {char : Char} (inside : inNumber char) :
    startsName char = false := by
  refine Bool.eq_false_iff.mpr fun starts => ?_
  have low := toNat_of_inNumber inside
  have high := toNat_of_startsName starts
  omega

/-- Whether a text is a name. -/
def isIdentifier : Text → Bool
  | [] => false
  | char :: rest => startsName char && rest.all continuesName

/-- A name consists of a character that may start it and of characters that continue it. -/
theorem exists_of_isIdentifier {name : Text} (identifier : isIdentifier name) :
    ∃ first run, name = first :: run ∧ startsName first ∧ ∀ char ∈ run, continuesName char := by
  cases name with
  | nil => cases identifier
  | cons first run =>
      simp only [isIdentifier, Bool.and_eq_true, List.all_eq_true] at identifier
      exact ⟨first, run, rfl, identifier⟩

/-- All characters of a name may stand in one. -/
theorem continuesName_of_isIdentifier {name : Text} (identifier : isIdentifier name) :
    ∀ char ∈ name, continuesName char := by
  obtain ⟨first, run, rfl, starts, inside⟩ := exists_of_isIdentifier identifier
  exact List.forall_mem_cons.mpr ⟨by simp [continuesName, starts], inside⟩

/-- The run of letters behind one that starts a name completes the name. -/
theorem isIdentifier_run {char : Char} (starts : startsName char) (text : Text) :
    isIdentifier (char :: text.takeWhile continuesName) := by
  simp [isIdentifier, starts]

/-- All characters of a run of digits and points may stand in a number. -/
theorem inNumber_run {char : Char} (digit : inNumber char) (text : Text) :
    ∀ other ∈ char :: text.takeWhile inNumber, inNumber other :=
  List.forall_mem_cons.mpr ⟨digit, List.all_eq_true.mp List.all_takeWhile⟩

/-- A token that starts with a blank is a run of blanks. -/
theorem Kind.ofHead_of_isBlank {char : Char} (blank : Text.isBlank char) :
    ofHead char = .blank := by
  simp [ofHead, blank]

/-- A token that starts like a name is one. -/
theorem Kind.ofHead_of_startsName {char : Char} (starts : startsName char) :
    ofHead char = .name := by
  have inside : continuesName char := by simp [continuesName, starts]
  simp [ofHead, not_isBlank_of_continuesName inside, starts]

/-- A token that starts with a digit or a point is a number. -/
theorem Kind.ofHead_of_inNumber {char : Char} (digit : inNumber char) :
    ofHead char = .number := by
  simp [ofHead, not_isBlank_of_inNumber digit, not_startsName_of_inNumber digit, digit]

/-- The kind of a token tells the class of its first character. -/
theorem Kind.class_of_ofHead (char : Char) :
    (ofHead char = .blank → Text.isBlank char) ∧ (ofHead char = .name → startsName char) ∧
      (ofHead char = .number → inNumber char) ∧ (ofHead char = .caret → char = '^') := by
  unfold ofHead
  split
  · next blank => exact ⟨fun _ => blank, nofun, nofun, nofun⟩
  · split
    · next starts => exact ⟨nofun, fun _ => starts, nofun, nofun⟩
    · split
      · next digit => exact ⟨nofun, nofun, fun _ => digit, nofun⟩
      · split <;> exact ⟨nofun, nofun, nofun, by simp⟩

/-- A token that holds a character which may start a name is a name. -/
theorem Kind.ofHead_of_mem_startsName {first char : Char} {run : Text}
    (inside : ∀ char ∈ run, (ofHead first).continuedBy char) (member : char ∈ first :: run)
    (starts : startsName char) : ofHead first = .name := by
  rcases List.mem_cons.mp member with rfl | later
  · exact ofHead_of_startsName starts
  · have continued := inside char later
    have continues : continuesName char := by simp [continuesName, starts]
    cases kind : ofHead first with
    | name => rfl
    | blank =>
        rw [kind] at continued
        have shown := not_isBlank_of_continuesName continues
        exact absurd continued (by simp [continuedBy, shown])
    | number =>
        rw [kind] at continued
        exact absurd starts (by simp [not_startsName_of_inNumber continued])
    | _ =>
        rw [kind] at continued
        cases continued

/-- A caret is a token of its own, since no other token goes on with it. -/
theorem eq_of_mem_caret {first : Char} {run : Text}
    (inside : ∀ char ∈ run, (Kind.ofHead first).continuedBy char) (member : '^' ∈ first :: run) :
    '^' = first := by
  refine (List.mem_cons.mp member).resolve_right fun later => ?_
  have continued := inside _ later
  revert continued
  cases Kind.ofHead first <;> decide

end Token

/-- A run of characters of one class ends where a character of another class follows. -/
theorem Text.span_run {inside : Char → Bool} {run rest : Text} (all : ∀ char ∈ run, inside char)
    (ends : ∀ char ∈ rest.head?, inside char = false) :
    (run ++ rest).takeWhile inside = run ∧ (run ++ rest).dropWhile inside = rest := by
  rw [List.takeWhile_append_of_pos all, List.dropWhile_append_of_pos all]
  cases rest with
  | nil => simp
  | cons char rest => simp [ends char rfl]

/-- A text that starts with a run of one class goes on with another class. -/
theorem Text.eq_run_append (inside : Char → Bool) (char : Char) (rest : Text) :
    char :: rest = (char :: rest.takeWhile inside) ++ rest.dropWhile inside ∧
      ∀ other ∈ (rest.dropWhile inside).head?, inside other = false := by
  refine ⟨by simp, fun other first => ?_⟩
  have stops := List.head?_dropWhile_not inside rest
  rwa [Option.mem_def.mp first] at stops

/-- A run of one class at the start of a text ends within it when another class follows there,
or behind it. -/
theorem Text.span_append {inside : Char → Bool} {text rest : Text}
    (stops : (∃ char ∈ text, inside char = false) ∨ ∀ char ∈ rest.head?, inside char = false) :
    (text ++ rest).takeWhile inside = text.takeWhile inside ∧
      (text ++ rest).dropWhile inside = text.dropWhile inside ++ rest := by
  induction text with
  | nil =>
      have ends := stops.resolve_left (by simp)
      exact span_run (by simp) ends
  | cons char text ih =>
      cases same : inside char with
      | false => simp [same]
      | true =>
          have later : (∃ char ∈ text, inside char = false) ∨
              ∀ char ∈ rest.head?, inside char = false := by
            simpa [same] using stops
          simp [same, ih later]

/-- A text in which no run of a class reaches the end from a character that may start it. -/
def Text.Closed (starts inside : Char → Bool) (text : Text) : Prop :=
  ∀ before first behind, text = before ++ first :: behind → starts first →
    ∃ char ∈ behind, inside char = false

/-- If no run reaches the end of a text, none reaches it from a later place. -/
theorem Text.Closed.suffix {starts inside : Char → Bool} {front text : Text}
    (closed : Closed starts inside (front ++ text)) : Closed starts inside text := by
  rintro before first behind rfl start
  exact closed (front ++ before) first behind (List.append_assoc ..).symm start

/-- Text may be put in front when each run that may start there ends before the end. -/
theorem Text.Closed.append {starts inside : Char → Bool} {front text : Text}
    (closed : Closed starts inside text)
    (ends : ∀ char ∈ front, starts char → ∃ other ∈ text, inside other = false) :
    Closed starts inside (front ++ text) := by
  intro before first behind spelled start
  rcases List.append_eq_append_iff.mp spelled with ⟨between, rfl, rfl⟩ | ⟨between, front, back⟩
  · exact closed between first behind rfl start
  · cases between with
    | nil => exact closed [] first behind (by simpa using back.symm) start
    | cons _ between =>
        obtain ⟨rfl, rfl⟩ := List.cons.inj back
        obtain ⟨other, member, outside⟩ := ends first (by simp [front]) start
        exact ⟨other, List.mem_append_right _ member, outside⟩

end MatrixFormula
