import MatrixFormula.Markup.Expansion
import MatrixFormula.Proofs.Formula.Acceptance
import MatrixFormula.Proofs.Formula.Evaluation
import MatrixFormula.Proofs.Markup.Spelling
import MatrixFormula.Proofs.Markup.Verdict
import MatrixFormula.Proofs.Text.Token

/-!
# Formulas with a value can be displayed

An evaluated formula and a displayed one are read from the same text, but not from the same
words. A run of letters may be two factors in one and a single name in the other, and behind a
caret the one reads a single letter where the other reads a whole name. The two readers then
stand at different places until the name and any number behind it are read. Up to there both
are behind an operand and stay so.
-/

namespace MatrixFormula.Markup

/-- Whether a minus sign comes first among tokens, blanks aside. -/
def startsMinus (tokens : List Token) : Bool :=
  (tokens.dropWhile isBlankToken).head?.any fun token => token.kind == .minus

/-- Whether a minus sign follows a slash among tokens, blanks aside. -/
def signsDenominator : List Token → Bool
  | [] => false
  | token :: rest => (token.kind == .slash && startsMinus rest) || signsDenominator rest

/-- Tokens whose meaning in a displayed formula is the one they have in an evaluated formula. -/
structure Shared (tokens : List Token) : Prop where
  dotless : ∀ token ∈ tokens, token.kind ≠ .dot
  unsigned : signsDenominator tokens = false

variable {store : Store} {offset origin stop depth : Nat} {char : Char} {rest text : Text}

/-! ## The names that only one reader divides -/

/-- Behind an operand, a number is read as a further factor. -/
theorem accepts_behind_number (digit : Token.inNumber char)
    (accepted : Formula.accepts depth true (Formula.lexemes store offset (char :: rest))) :
    ∃ offset, Formula.accepts depth true
      (Formula.lexemes store offset (rest.dropWhile Token.inNumber)) := by
  obtain ⟨parts, ends⟩ := Text.eq_run_append Token.inNumber char rest
  rw [parts, Formula.lexemes_number (by simp) (Token.inNumber_run digit rest) ends] at accepted
  exact ⟨_, accepted⟩

/-- Behind an operand, the end of a name is read as further factors, the last of which may be a
number that goes on behind the name. -/
theorem accepts_behind_name {drift : Text} (inside : ∀ char ∈ drift, Token.continuesName char)
    (ends : ∀ char ∈ text.head?, Token.continuesName char = false)
    (accepted : Formula.accepts depth true (Formula.lexemes store offset (drift ++ text))) :
    ∃ offset, Formula.accepts depth true
      (Formula.lexemes store offset (text.dropWhile Token.inNumber)) := by
  induction size : drift.length using Nat.strongRecOn generalizing drift offset with
  | ind bound ih =>
      cases drift with
      | nil =>
          cases text with
          | nil => exact ⟨offset, accepted⟩
          | cons char rest =>
              by_cases digit : Token.inNumber char
              · rw [List.dropWhile_cons_of_pos digit]
                exact accepts_behind_number digit accepted
              · rw [List.dropWhile_cons_of_neg digit]
                exact ⟨offset, accepted⟩
      | cons char others =>
          obtain ⟨first, later⟩ := List.forall_mem_cons.mp inside
          by_cases starts : Token.startsName char
          · obtain ⟨name, behind, nonempty, parts, leads, -⟩ :=
              Formula.exists_leadingName store (List.cons_ne_nil char others)
            have identifier : Token.isIdentifier (char :: others) := by
              simpa [Token.isIdentifier, starts] using later
            rw [← parts] at identifier leads accepted inside size
            rw [Formula.lexemes_name identifier ends nonempty leads] at accepted
            have shorter : behind.length < bound := by
              have := List.length_pos_iff.mpr nonempty
              rw [← size, List.length_append]
              omega
            exact ih _ shorter (List.forall_mem_append.mp inside).2 accepted rfl
          · have digit : Token.inNumber char := by
              simp only [Token.continuesName, starts, Bool.false_or] at first
              simp [Token.inNumber, first]
            rw [List.cons_append] at accepted
            obtain ⟨offset, accepted⟩ := accepts_behind_number digit accepted
            rw [List.dropWhile_append] at accepted
            split at accepted
            · exact ⟨offset, accepted⟩
            · have fewer := (List.dropWhile_sublist Token.inNumber (l := others)).length_le
              refine ih _ (size ▸ Nat.lt_succ_of_le fewer) (fun other member => ?_) accepted rfl
              exact later other ((List.dropWhile_sublist Token.inNumber).subset member)

/-! ## What follows in one reader follows in the other -/

/-- Whether a place is behind an operand. -/
def Place.isBehind : Place → Bool
  | .operand _ => false
  | .behind => true

/-- The word of a displayed formula that has the meaning of a word of an evaluated one. -/
def shownWord? : Formula.Word → Option Word
  | .number => some .number
  | .name => some .name
  | .plus => some .plus
  | .minus => some .minus
  | .times => some .times
  | .slash => some .slash
  | .openParen => some .openParen
  | .closeParen => some .closeParen
  | .caret _ | .stray => none

/-- A word that the evaluator accepts can be displayed, and both go on alike. -/
theorem verdict_cons {opened : List Span} {place : Place} {lexeme : Formula.Lexeme}
    {later : List Formula.Lexeme} {word : Word} {text : Text} {span : Span} {words : List Lexeme}
    (accepted : Formula.accepts opened.length place.isBehind (lexeme :: later))
    (shown : shownWord? lexeme.word = some word)
    (signed : word = .minus → place ≠ .operand false)
    (next : ∀ opened place, (place = .operand false → word = .slash) →
      Formula.accepts opened.length place.isBehind later →
      verdict stop opened place words = .ok ()) :
    verdict stop opened place (⟨word, text, span⟩ :: words) = .ok () := by
  obtain ⟨found, _, _⟩ := lexeme
  cases place with
  | operand sign =>
      cases found with
      | number | name =>
          cases shown
          exact next opened .behind nofun accepted
      | openParen =>
          cases shown
          exact next (span :: opened) (.operand true) nofun accepted
      | minus =>
          cases shown
          cases sign with
          | false => exact absurd rfl (signed rfl)
          | true => exact next opened (.operand true) nofun accepted
      | _ => cases accepted
  | behind =>
      cases found with
      | number | name =>
          cases shown
          exact next opened .behind nofun accepted
      | plus | minus | times =>
          cases shown
          exact next opened (.operand true) nofun accepted
      | slash =>
          cases shown
          exact next opened (.operand false) (fun _ => rfl) accepted
      | openParen =>
          cases shown
          exact next (span :: opened) (.operand true) nofun accepted
      | closeParen =>
          cases shown
          cases opened with
          | nil => cases accepted
          | cons outer opened => exact next opened .behind nofun accepted
      | caret | stray => cases shown

/-- Both readers share the tokens behind a token. -/
theorem Shared.tail {token : Token} {tokens : List Token} (shared : Shared (token :: tokens)) :
    Shared tokens where
  dotless := (List.forall_mem_cons.mp shared.dotless).2
  unsigned := by
    have unsigned := shared.unsigned
    rw [signsDenominator, Bool.or_eq_false_iff] at unsigned
    exact unsigned.2

/-- Where the evaluator can read a text to its end, the text can be displayed to its end. -/
def Displays (store : Store) (stop : Nat) (text : Text) : Prop :=
  ∀ offset origin opened place, Shared (Token.listFrom origin text) →
    (place = .operand false → startsMinus (Token.listFrom origin text) = false) →
    Formula.accepts opened.length place.isBehind (Formula.lexemes store offset text) →
    verdict stop opened place (lexemes origin text) = .ok ()

/-- The two readers meet again behind a name. -/
theorem verdict_behind_name {opened : List Span} {drift : Text}
    (inside : ∀ char ∈ drift, Token.continuesName char)
    (ends : ∀ char ∈ text.head?, Token.continuesName char = false)
    (accepted : Formula.accepts opened.length true (Formula.lexemes store offset (drift ++ text)))
    (shared : Shared (Token.listFrom origin text))
    (displays : ∀ rest : Text, rest.length ≤ text.length → Displays store stop rest) :
    verdict stop opened .behind (lexemes origin text) = .ok () := by
  obtain ⟨offset, accepted⟩ := accepts_behind_name inside ends accepted
  cases text with
  | nil => exact displays [] (Nat.le_refl _) offset origin opened .behind shared nofun accepted
  | cons char rest =>
      by_cases digit : Token.inNumber char
      · rw [List.dropWhile_cons_of_pos digit] at accepted
        obtain ⟨parts, stops⟩ := Text.eq_run_append Token.inNumber char rest
        have digits := Token.inNumber_run digit rest
        have fewer := (List.dropWhile_sublist Token.inNumber (l := rest)).length_le
        rw [Token.listFrom_cons, Token.Kind.ofHead_of_inNumber digit] at shared
        rw [parts, lexemes_number (by simp) digits stops]
        exact displays _ (Nat.le_succ_of_le fewer) offset _ opened .behind shared.tail nofun
          accepted
      · rw [List.dropWhile_cons_of_neg digit] at accepted
        exact displays _ (Nat.le_refl _) offset origin opened .behind shared nofun accepted

/-! ## The simulation -/

/-- Both readers share the tokens behind blanks. -/
theorem Shared.skip {blanks : Text} (blank : ∀ char ∈ blanks, Text.isBlank char)
    (ends : ∀ char ∈ rest.head?, Text.isBlank char = false)
    (shared : Shared (Token.listFrom origin (blanks ++ rest))) :
    Shared (Token.listFrom (origin + blanks.byteSize) rest) := by
  cases blanks with
  | nil => exact shared
  | cons char blanks =>
      obtain ⟨first, others⟩ := List.forall_mem_cons.mp blank
      have span := Text.span_run others ends
      have continued : Token.Kind.blank.continuedBy = Text.isBlank := rfl
      rw [List.cons_append, Token.listFrom_cons, Token.Kind.ofHead_of_isBlank first, continued,
        span.1, span.2] at shared
      exact shared.tail

/-- The evaluator accepts no token without a meaning. -/
theorem accepts_stray {opened : Bool} {lexeme : Formula.Lexeme} {later : List Formula.Lexeme}
    (stray : lexeme.word = .stray) : Formula.accepts depth opened (lexeme :: later) = false := by
  cases opened <;> simp [Formula.accepts, stray]

theorem kind_of_minus {kind : Token.Kind} (minus : Word.ofKind kind = .minus) : kind = .minus := by
  cases kind <;> first | rfl | cases minus

theorem kind_of_slash {kind : Token.Kind} (slash : Word.ofKind kind = .slash) : kind = .slash := by
  cases kind <;> first | rfl | cases slash

/-- What the evaluator reads as a single sign is displayed as that sign. -/
theorem displays_sign (single : Formula.isSingle (Token.Kind.ofHead char))
    (displays : Displays store stop rest) : Displays store stop (char :: rest) := by
  intro offset origin opened place shared signed accepted
  rw [Formula.lexemes_single rfl single] at accepted
  have alone : ∀ other, (Token.Kind.ofHead char).continuedBy other = false := by
    revert single
    cases Token.Kind.ofHead char <;> first | exact fun _ _ => rfl | exact nofun
  rw [Token.listFrom_single alone] at shared signed
  have dotless := (List.forall_mem_cons.mp shared.dotless).1
  have front (minus : Token.Kind.ofHead char = .minus) : place ≠ .operand false := fun refused => by
    simpa [startsMinus, isBlankToken, minus] using signed refused
  have denominator (slash : Token.Kind.ofHead char = .slash) :
      startsMinus (Token.listFrom (origin + Text.byteSize [char]) rest) = false := by
    simpa [signsDenominator, slash] using (Bool.or_eq_false_iff.mp shared.unsigned).1
  have go (plain : isSingle (Token.Kind.ofHead char))
      (shown : shownWord? (.ofKind (Token.Kind.ofHead char)) =
        some (.ofKind (Token.Kind.ofHead char))) :
      verdict stop opened place (lexemes origin (char :: rest)) = .ok () := by
    rw [lexemes_single plain]
    exact verdict_cons accepted shown (fun minus => front (kind_of_minus minus))
      fun opened place slash accepted => displays _ _ opened place shared.tail
        (fun refused => denominator (kind_of_slash (slash refused))) accepted
  cases kind : Token.Kind.ofHead char with
  | blank | name | number | caret => simp [kind, Formula.isSingle] at single
  | dot => exact absurd kind dotless
  | equals | backslash | symbol =>
      rw [accepts_stray (by rw [kind]; rfl)] at accepted
      cases accepted
  | _ => exact go (by rw [kind]; rfl) (by rw [kind]; rfl)

/-- A run of letters is displayed as one operand, also when it is two factors. -/
theorem displays_name (starts : Token.startsName char) (displays : ∀ text : Text,
    text.length ≤ rest.length → Displays store stop text) : Displays store stop (char :: rest) := by
  intro offset origin opened place shared _ accepted
  obtain ⟨parts, ends⟩ := Text.eq_run_append Token.continuesName char rest
  have fewer := (List.dropWhile_sublist Token.continuesName (l := rest)).length_le
  have identifier := Token.isIdentifier_run starts rest
  rw [Token.listFrom_cons, Token.Kind.ofHead_of_startsName starts] at shared
  rw [parts] at accepted ⊢
  rw [lexemes_name identifier ends]
  obtain ⟨name, drift, nonempty, spelled, leads, -⟩ := Formula.exists_leadingName store
    (List.cons_ne_nil char (rest.takeWhile Token.continuesName))
  rw [← spelled] at identifier leads accepted
  have inside := Token.continuesName_of_isIdentifier identifier
  rw [Formula.lexemes_name identifier ends nonempty leads] at accepted
  have behind : Formula.accepts opened.length true (Formula.lexemes store
      (offset + Text.byteSize name) (drift ++ rest.dropWhile Token.continuesName)) := by
    cases place <;> exact accepted
  have meets := verdict_behind_name (List.forall_mem_append.mp inside).2 ends behind shared.tail
    fun text shorter => displays text (Nat.le_trans shorter fewer)
  cases place <;> exact meets

/-- The evaluator goes on behind a caret only when it stands behind an operand and is followed
by the mark of transposition. -/
theorem exists_mark_of_accepts {behind : Bool}
    (accepted : Formula.accepts depth behind (Formula.lexemes store offset ('^' :: rest))) :
    ∃ blanks mark after, (∀ char ∈ blanks, Text.isBlank char) ∧ Formula.isTransposeMark mark ∧
      rest = blanks ++ mark :: after ∧ behind = true ∧
      ∃ offset, Formula.accepts depth true (Formula.lexemes store offset after) := by
  have kind : Token.Kind.ofHead '^' = .caret := rfl
  have parts : rest = rest.takeWhile Text.isBlank ++ rest.dropWhile Text.isBlank :=
    List.takeWhile_append_dropWhile.symm
  rw [Formula.lexemes] at accepted
  simp only [kind, Formula.exponent] at accepted
  cases behind with
  | false => cases accepted
  | true =>
      split at accepted
      · cases accepted
      · next mark after spread =>
          rw [spread] at parts
          split at accepted
          · next marks =>
              exact ⟨_, mark, after, fun _ => List.mem_takeWhile_imp, marks, parts, rfl, _,
                accepted⟩
          · cases accepted

/-- Behind an operand, the mark of transposition is displayed as an exponent, together with all
letters that follow it. -/
theorem displays_caret (displays : ∀ text : Text, text.length ≤ rest.length →
    Displays store stop text) : Displays store stop ('^' :: rest) := by
  intro offset origin opened place shared _ accepted
  obtain ⟨blanks, mark, after, blank, marks, rfl, behind, offset, later⟩ :=
    exists_mark_of_accepts accepted
  obtain rfl : place = .behind := by
    cases place with
    | operand => cases behind
    | behind => rfl
  have starts : Token.startsName mark := by
    simp only [Formula.isTransposeMark, Bool.or_eq_true, beq_iff_eq] at marks
    rcases marks with rfl | rfl <;> rfl
  have named : Token.continuesName mark := by simp [Token.continuesName, starts]
  obtain ⟨parts, ends⟩ := Text.eq_run_append Token.continuesName mark after
  have identifier := Token.isIdentifier_run starts after
  have drift : ∀ char ∈ after.takeWhile Token.continuesName, Token.continuesName char :=
    fun _ => List.mem_takeWhile_imp
  rw [Token.listFrom_single fun _ => rfl] at shared
  have run := shared.tail.skip blank (by simpa using Token.not_isBlank_of_continuesName named)
  rw [Token.listFrom_cons, Token.Kind.ofHead_of_startsName starts] at run
  rw [lexemes_single (by rfl), lexer.append_blanks blank, parts, lexemes_name identifier ends]
  rw [← @List.takeWhile_append_dropWhile _ Token.continuesName after] at later
  refine verdict_behind_name drift ends later run.tail fun text shorter => displays text ?_
  have fewer := (List.dropWhile_sublist Token.continuesName (l := after)).length_le
  simp only [List.length_append, List.length_cons]
  omega

/-- A text is displayed when all shorter ones are. -/
theorem displays_cons (displays : ∀ text : Text, text.length ≤ rest.length →
    Displays store stop text) : Displays store stop (char :: rest) := by
  have classes := Token.Kind.class_of_ofHead char
  have shorter (inside : Char → Bool) : (rest.dropWhile inside).length ≤ rest.length :=
    (List.dropWhile_sublist inside).length_le
  cases kind : Token.Kind.ofHead char with
  | blank =>
      intro offset origin opened place shared signed accepted
      rw [Token.listFrom_cons, kind] at shared signed
      rw [Formula.lexemes] at accepted
      rw [lexemes]
      simp only [kind] at accepted ⊢
      exact displays _ (shorter _) _ _ opened place shared.tail signed accepted
  | name => exact displays_name (classes.2.1 kind) displays
  | number =>
      intro offset origin opened place shared _ accepted
      rw [Token.listFrom_cons, kind] at shared
      rw [Formula.lexemes] at accepted
      rw [lexemes]
      simp only [kind] at accepted ⊢
      refine verdict_cons accepted rfl (fun minus => by cases minus) ?_
      intro opened place slash accepted
      exact displays _ (shorter _) _ _ opened place shared.tail
        (fun refused => by cases slash refused) accepted
  | caret =>
      obtain rfl := classes.2.2.2 kind
      exact displays_caret displays
  | _ => exact displays_sign (by rw [kind]; rfl) (displays rest (Nat.le_refl _))

/-- Every text that the evaluator can read to its end can be displayed to its end. -/
theorem displays (store : Store) (stop : Nat) (text : Text) : Displays store stop text := by
  induction size : text.length using Nat.strongRecOn generalizing text with
  | ind bound ih =>
      cases text with
      | nil =>
          intro offset origin opened place _ _ accepted
          rw [Formula.lexemes] at accepted
          rw [lexemes]
          cases place with
          | operand => cases accepted
          | behind =>
              obtain rfl : opened = [] := by simpa [Formula.accepts, Place.isBehind] using accepted
              rfl
      | cons char rest =>
          exact displays_cons fun text shorter =>
            ih text.length (size ▸ Nat.lt_succ_of_le shorter) text rfl

/-! ## Whole formulas -/

variable (ν : Type) [Numeral ν]

/-- A formula without dots and without a minus sign behind a slash that has a value can be
displayed, whatever is known about names. -/
theorem exists_render_of_evaluate (store : Store) (source : Text)
    (dotless : ∀ token ∈ Token.list source, token.kind ≠ .dot)
    (unsigned : signsDenominator (Token.list source) = false) {grid : Grid Text}
    (done : Formula.evaluate ν store source = .ok grid) :
    (∀ style, ∃ markup, render style source = .ok markup) ∧
      ∀ palette, ∃ markup, renderColored store palette source = .ok markup := by
  have read := displays store (Text.byteSize source) source 0 0 [] (.operand true)
    ⟨dotless, unsigned⟩ nofun (Formula.accepts_of_evaluate ν done)
  have shown (style : NameStyle) : ∃ markup, render style source = .ok markup := by
    have judged := judged_render style source
    rw [read] at judged
    cases outcome : render style source with
    | ok markup => exact ⟨markup, rfl⟩
    | error => rw [outcome] at judged; cases judged
  exact ⟨shown, fun palette => shown _⟩

/-- Behind the caret the evaluator reads a single letter, and the displayed exponent is longer. -/
theorem exists_render_of_evaluate_transposed :
    (∀ token ∈ Token.list "a^Tb", token.kind ≠ .dot) ∧
      signsDenominator (Token.list "a^Tb") = false ∧
      Formula.evaluate ℚ Formula.letters "a^Tb" = .ok (.scalar "x \\cdot y") ∧
      ∃ markup, renderColored Formula.letters {} "a^Tb" = .ok markup := by
  have dotless : ∀ token ∈ Token.list "a^Tb", token.kind ≠ .dot := by decide +kernel
  have unsigned : signsDenominator (Token.list "a^Tb") = false := by decide +kernel
  have done : Formula.evaluate ℚ Formula.letters "a^Tb" = .ok (.scalar "x \\cdot y") := by
    decide +kernel
  exact ⟨dotless, unsigned, done,
    (exists_render_of_evaluate ℚ Formula.letters "a^Tb" dotless unsigned done).2 {}⟩

end MatrixFormula.Markup
