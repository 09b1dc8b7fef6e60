import Mathlib.Data.List.Chain
import Mathlib.Data.List.Infix
import MatrixFormula.Proofs.Formula.Splitting
import MatrixFormula.Proofs.Text.Spacing

/-!
# Blanks in an evaluated formula

What is heard of a formula can be told from its solid tokens, as long as every name behind a caret
is the mark of transposition and no variable is the digits that a name ends in directly in front of
a point. Behind a caret, the evaluator takes a single letter off a name. Of a run of letters and
digits, it may leave digits that are a variable to be read on, which are then joined by a point
behind the run. A blank in front of the point keeps them apart.
-/

namespace MatrixFormula

namespace Token

/-- Whether the second of two tokens is the mark of transposition if it is a name behind a caret. -/
def Marks (caret mark : Token) : Prop :=
  caret.kind = .caret → mark.kind = .name → mark.lexeme = ['T'] ∨ mark.lexeme = ['t']

instance (caret mark : Token) : Decidable (Marks caret mark) :=
  inferInstanceAs (Decidable (_ → _ → _))

/-- Whether no variable is a run of digits that the first of two neighbours ends in, if it is a name
in front of a point. -/
def Apart (store : Store) (name number : Token) : Prop :=
  name.kind = .name → number.lexeme.head? = some '.' →
    ∀ digits ∈ name.lexeme.tails, digits ≠ [] → digits.all Char.isDigit →
      store.contains digits = false

instance (store : Store) (name number : Token) : Decidable (Apart store name number) :=
  inferInstanceAs (Decidable (_ → _ → _))

/-! ## Names in front of a point -/

variable {store : Store} {offset : Nat} {char : Char} {rest text other : Text} {token : Token}

/-- The first character of what follows a token decides whether it is set apart. -/
theorem isChain_cons_listFrom :
    (token :: listFrom offset text).IsChain (Apart store) ↔
      (∀ next : Token, next.lexeme.head? = text.head? → Apart store token next) ∧
        (listFrom offset text).IsChain (Apart store) := by
  cases text with
  | nil =>
      have vacuous (next : Token) (none : next.lexeme.head? = [].head?) :
          Apart store token next := fun _ point => by
        rw [none] at point
        cases point
      simpa [listFrom] using vacuous
  | cons char rest =>
      rw [listFrom_cons, List.isChain_cons_cons]
      refine and_congr_left' ⟨fun apart next same named point => ?_, fun apart => apart _ rfl⟩
      exact apart named (same.symm.trans point)

/-- Nothing is set apart from a blank, so blanks in front do not matter. -/
theorem skipsBlanks_isChain (store : Store) :
    SkipsBlanks fun tokens => tokens.IsChain (Apart store) where
  places text offset place := by
    fun_induction listFrom offset text generalizing place with
    | case1 => rw [listFrom]
    | case2 offset char rest kind lexeme ih =>
        rw [listFrom_cons, isChain_cons_listFrom, isChain_cons_listFrom, ih]
        rfl
  blank {token tokens} blank := by
    rw [List.isChain_cons]
    refine propext (and_iff_right fun next _ named => ?_)
    rw [blank] at named
    cases named

/-- What follows the first token of a text has its neighbours set apart. -/
theorem isChain_list_dropWhile (apart : (list (char :: rest)).IsChain (Apart store)) :
    (list (rest.dropWhile (Kind.ofHead char).continuedBy)).IsChain (Apart store) := by
  rw [list, listFrom_cons] at apart
  exact (skipsBlanks_isChain store).places _ _ 0 ▸ apart.tail

/-- Other blanks bring no name and point together. -/
theorem Respaced.isChain_apart (respaced : Respaced (list text) other)
    (apart : (list text).IsChain (Apart store)) : (list other).IsChain (Apart store) := by
  have skips := skipsBlanks_isChain store
  refine respaced.text_induction_on (motive := fun text other => (list text).IsChain (Apart store) →
    (list other).IsChain (Apart store)) id ?inserted ?blank ?shown apart
  case inserted => exact fun white ih apart => (skips.listFrom_blank white 0 0).mpr (ih apart)
  case blank =>
    intro rest blanks other first starts white ih apart
    exact (skips.listFrom_blanks white 0 0).mpr (ih ((skips.list_blank starts rest).mp apart))
  case shown =>
    intro rest other first _ ends head ih apart
    have behind := ih (isChain_list_dropWhile apart)
    rw [list, listFrom_cons, isChain_cons_listFrom] at apart
    rw [list, listFrom_run (fun _ => List.mem_takeWhile_imp) ends]
    refine isChain_cons_listFrom.mpr ⟨fun next starts named point => ?_,
      (skips.places _ _ _).mp behind⟩
    rcases head '.' (starts.symm.trans point) with white | before
    · cases white
    · exact apart.1 next (point.trans before.symm) named point

end Token

namespace Formula

variable {store : Store} {offset : Nat} {char : Char} {run rest text other : Text}

/-- What is heard of solid tokens. -/
def hearTokens (store : Store) : List Token → List Lexeme
  | [] => []
  | ⟨.name, run, _⟩ :: rest => hear store run ++ hearTokens store rest
  | [⟨.caret, sign, _⟩] => [⟨.caret (.missing 0), sign, nowhere⟩]
  | ⟨.caret, sign, _⟩ :: mark :: rest =>
      if mark.lexeme = ['T'] ∨ mark.lexeme = ['t'] then
        ⟨.caret (.transpose 0), sign, nowhere⟩ :: hearTokens store rest
      else [⟨.caret (.unsupported mark.lexeme nowhere), sign, nowhere⟩]
  | ⟨kind, text, _⟩ :: rest =>
      if Word.ofKind kind = .stray then [⟨.stray, text, nowhere⟩]
      else ⟨.ofKind kind, text, nowhere⟩ :: hearTokens store rest

/-! ## Runs of letters and digits -/

/-- A run of letters is heard as the name that leads it, and then what is left of it. -/
theorem hear_name {name behind : Text} (identifier : Token.isIdentifier (name ++ behind))
    (ends : ∀ char ∈ rest.head?, Token.continuesName char = false) (nonempty : name ≠ [])
    (leads : leadingName store (name ++ behind) = name) :
    hear store (name ++ behind ++ rest) = ⟨.name, name, nowhere⟩ :: hear store (behind ++ rest) := by
  rw [← heard_lexemes store 0, lexemes_name identifier ends nonempty leads, heard, heard_lexemes]
  rfl

/-- A number is heard where no digit or point continues it. -/
theorem hear_number (nonempty : run ≠ []) (digits : ∀ char ∈ run, Token.inNumber char)
    (ends : ∀ char ∈ rest.head?, Token.inNumber char = false) :
    hear store (run ++ rest) = ⟨.number, run, nowhere⟩ :: hear store rest := by
  rw [← heard_lexemes store 0, lexemes_number nonempty digits ends, heard, heard_lexemes]
  rfl

/-- The characters that may stand both in a name and in a number are the digits. -/
theorem isDigit_of_inNumber (inside : Token.continuesName char) (number : Token.inNumber char) :
    char.isDigit := by
  rw [Token.inNumber, Bool.or_eq_true, beq_iff_eq] at number
  rcases number with digit | rfl
  · exact digit
  · cases inside

/-- A run of letters and digits of which no digits are joined by a point behind it. -/
structure Detached (store : Store) (run rest : Text) : Prop where
  inside : ∀ char ∈ run, Token.continuesName char
  ends : ∀ char ∈ rest.head?, Token.continuesName char = false
  /-- No name in the run leaves digits in front of a point. -/
  apart : rest.head? = some '.' → ∀ digits, digits <:+ run → digits ≠ [] →
    digits.all Char.isDigit → store.contains digits = false
  /-- The run itself is not digits in front of a point. -/
  letters : rest.head? = some '.' → run ≠ [] → run.all Char.isDigit = false

namespace Detached

/-- What a name leaves of a detached run is detached. -/
theorem behind_name {name behind : Text} (detached : Detached store (name ++ behind) rest)
    (known : behind ≠ [] → store.contains behind) : Detached store behind rest where
  inside char member := detached.inside char (List.mem_append_right _ member)
  ends := detached.ends
  apart point digits suffix := detached.apart point digits (suffix.trans (List.suffix_append ..))
  letters point left := Bool.eq_false_iff.mpr fun digits => by
    have unknown := detached.apart point behind (List.suffix_append ..) left digits
    rw [known left] at unknown
    cases unknown

/-- Without its first character and the digits behind it, a detached run is detached. -/
theorem behind_digits (detached : Detached store (char :: run) rest) :
    Detached store (run.dropWhile Token.inNumber) rest where
  inside other member :=
    detached.inside other (List.mem_cons_of_mem _ ((List.dropWhile_suffix _).subset member))
  ends := detached.ends
  apart point digits suffix := detached.apart point digits
    (suffix.trans ((List.dropWhile_suffix _).trans (List.suffix_cons ..)))
  letters _ left := by
    obtain ⟨next, others, behind⟩ := List.exists_cons_of_ne_nil left
    have stops := (Text.eq_run_append Token.inNumber char run).2 next (by rw [behind]; rfl)
    rw [Token.inNumber, Bool.or_eq_false_iff] at stops
    rw [behind, List.all_cons, stops.1, Bool.false_and]

/-- The digits that the run starts with are a number. -/
theorem ends_digits (detached : Detached store (char :: run) rest) (digit : char.isDigit) :
    ∀ other ∈ (run.dropWhile Token.inNumber ++ rest).head?, Token.inNumber other = false := by
  intro other head
  cases behind : run.dropWhile Token.inNumber with
  | cons next others =>
      rw [behind] at head
      obtain rfl := Option.some.inj head
      exact (Text.eq_run_append Token.inNumber char run).2 next (by rw [behind]; rfl)
  | nil =>
      rw [behind, List.nil_append] at head
      refine Bool.eq_false_iff.mpr fun number => ?_
      rw [Token.inNumber, Bool.or_eq_true, beq_iff_eq] at number
      rcases number with figure | rfl
      · have stops := detached.ends other head
        rw [Token.continuesName, figure, Bool.or_true] at stops
        cases stops
      · -- Then the run is all digits, in front of a point.
        have figures : (char :: run).all Char.isDigit := by
          refine List.all_eq_true.mpr (List.forall_mem_cons.mpr ⟨digit, fun other member => ?_⟩)
          exact isDigit_of_inNumber (detached.inside other (List.mem_cons_of_mem _ member))
            (List.dropWhile_eq_nil_iff.mp behind other member)
        rw [detached.letters head (List.cons_ne_nil _ _)] at figures
        cases figures

end Detached

/-- A run of letters and digits is read to its end, unless it leaves digits in front of a point. -/
theorem hear_run (detached : Detached store run rest) :
    hear store (run ++ rest) = hear store run ++ hear store rest := by
  induction size : run.length using Nat.strongRecOn generalizing run with
  | ind bound ih =>
      cases run with
      | nil => rw [hear]; rfl
      | cons first more =>
          obtain ⟨here, later⟩ := List.forall_mem_cons.mp detached.inside
          by_cases starts : Token.startsName first
          · have identifier : Token.isIdentifier (first :: more) := by
              simpa [Token.isIdentifier, starts] using later
            obtain ⟨name, behind, nonempty, spelled, leads, known⟩ :=
              exists_leadingName store (List.cons_ne_nil first more)
            rw [← spelled] at identifier leads size detached ⊢
            have shorter : behind.length < bound := by
              have := List.length_pos_iff.mpr nonempty
              rw [← size, List.length_append]
              omega
            have alone := @hear_name store [] _ _ identifier (by simp) nonempty leads
            rw [List.append_nil, List.append_nil] at alone
            rw [hear_name identifier detached.ends nonempty leads, alone,
              ih _ shorter (detached.behind_name known) rfl, List.cons_append]
          · have digit : first.isDigit := by simpa [Token.continuesName, starts] using here
            obtain ⟨parts, stops⟩ := Text.eq_run_append Token.inNumber first more
            have shorter := List.length_dropWhile_le Token.inNumber more
            have digits := Token.inNumber_run (by rw [Token.inNumber, digit]; rfl) more
            have alone := @hear_number store _ _ (List.cons_ne_nil _ _) digits stops
            have whole := @hear_number store _ _ (List.cons_ne_nil _ _) digits
              (detached.ends_digits digit)
            rw [← parts] at alone
            rw [parts, List.append_assoc, whole, ← parts, alone,
              ih _ (size ▸ Nat.lt_succ_of_le shorter) detached.behind_digits rfl, List.cons_append]

/-! ## All tokens -/

/-- A name is read to its end when no digits that it ends in are joined by a point. -/
theorem hear_name_token (named : Token.Kind.ofHead char = .name)
    (apart : (Token.list (char :: text)).IsChain (Token.Apart store)) :
    hear store (char :: text) = hear store (char :: text.takeWhile Token.continuesName) ++
      hear store (text.dropWhile Token.continuesName) := by
  obtain ⟨parts, ends⟩ := Text.eq_run_append Token.continuesName char text
  have starts := (Token.Kind.class_of_ofHead char).2.1 named
  have inside := Token.continuesName_of_isIdentifier (Token.isIdentifier_run starts text)
  rw [Token.list, Token.listFrom_cons, named, Token.isChain_cons_listFrom] at apart
  have detached : Detached store (char :: text.takeWhile Token.continuesName)
      (text.dropWhile Token.continuesName) := by
    refine ⟨inside, ends, fun point digits suffix => ?_, fun _ _ => ?_⟩
    · exact apart.1 ⟨.number, text.dropWhile Token.continuesName, .point 0⟩ rfl rfl point digits
        ((List.mem_tails _ _).mpr suffix)
    · refine List.all_eq_false.mpr ⟨char, List.mem_cons_self, fun digit => ?_⟩
      rw [Token.not_startsName_of_inNumber (by rw [Token.inNumber, digit]; rfl)] at starts
      cases starts
  have read := hear_run detached
  rwa [← parts] at read

/-- What is heard behind a caret depends on the solid token that follows it. -/
theorem hear_caret (marked : (Token.solid (Token.list ('^' :: rest))).IsChain Token.Marks)
    (apart : (Token.list ('^' :: rest)).IsChain (Token.Apart store))
    (later : ∀ behind : Text, behind <:+ rest →
      (Token.solid (Token.list behind)).IsChain Token.Marks →
      (Token.list behind).IsChain (Token.Apart store) →
        hear store behind = hearTokens store (Token.solid (Token.list behind))) :
    hear store ('^' :: rest) = hearTokens store (Token.solid (Token.list ('^' :: rest))) := by
  have first : Token.solid (Token.list ('^' :: rest)) =
      ⟨.caret, ['^'], .point 0⟩ :: Token.solid (Token.list (rest.dropWhile Text.isBlank)) := by
    rw [Token.skipsBlanks_solid.list_trimStart, Token.solid_list_cons (by decide)]
    cases rest <;> rfl
  have kind : Token.Kind.ofHead '^' = .caret := rfl
  have behindCaret := Token.isChain_list_dropWhile apart
  rw [List.dropWhile_eq_self_iff.mpr fun _ => by simp [kind, Token.Kind.continuedBy],
    ← (Token.skipsBlanks_isChain store).list_trimStart] at behindCaret
  rw [first] at marked ⊢
  rw [hear]
  simp only [kind]
  cases spread : rest.dropWhile Text.isBlank with
  | nil =>
      rw [Token.list, Token.listFrom]
      simp only [exponent, spread, hear]
      rfl
  | cons mark after =>
      have classes := Token.Kind.class_of_ofHead mark
      have shown : Token.Kind.ofHead mark ≠ .blank := fun blank => by
        have visible := Text.not_isBlank_of_trimStart spread
        rw [classes.1 blank] at visible
        cases visible
      rw [spread, Token.solid_list_cons shown, List.isChain_cons_cons] at marked
      rw [Token.solid_list_cons shown, hearTokens]
      have behindMark := Token.isChain_list_dropWhile (spread ▸ behindCaret)
      have behind : after <:+ rest :=
        (List.suffix_cons mark after).trans (spread ▸ List.dropWhile_suffix _)
      by_cases marks : isTransposeMark mark
      · have named : Token.Kind.ofHead mark = .name := by
          simp only [isTransposeMark, Bool.or_eq_true, beq_iff_eq] at marks
          rcases marks with rfl | rfl <;> rfl
        have alone := marked.1 rfl named
        have none : after.takeWhile (Token.Kind.ofHead mark).continuedBy = [] := by
          rcases alone with same | same <;> exact (List.cons.inj same).2
        have whole : after.dropWhile (Token.Kind.ofHead mark).continuedBy = after := by
          have parts := @List.takeWhile_append_dropWhile _ (Token.Kind.ofHead mark).continuedBy after
          rwa [none, List.nil_append] at parts
        have chains := And.intro marked.2.tail behindMark
        rw [whole] at chains ⊢
        rw [if_pos alone, ← later after behind chains.1 chains.2]
        simp only [exponent, spread, if_pos marks]
        rfl
      · have other : ¬ (mark :: after.takeWhile (Token.Kind.ofHead mark).continuedBy = ['T'] ∨
            mark :: after.takeWhile (Token.Kind.ofHead mark).continuedBy = ['t']) := by
          rintro (same | same) <;> rw [(List.cons.inj same).1] at marks <;> exact marks rfl
        rw [if_neg other]
        simp only [exponent, spread, if_neg marks, hear]
        rfl

/-- What is heard of a formula depends on its solid tokens. -/
theorem hear_eq_hearTokens (text : Text)
    (marked : (Token.solid (Token.list text)).IsChain Token.Marks)
    (apart : (Token.list text).IsChain (Token.Apart store)) :
    hear store text = hearTokens store (Token.solid (Token.list text)) := by
  induction size : text.length using Nat.strongRecOn generalizing text with
  | ind bound ih =>
      cases text with
      | nil => rw [hear, Token.list, Token.listFrom]; rfl
      | cons char rest =>
          have later (behind : Text) (suffix : behind <:+ rest)
              (marked : (Token.solid (Token.list behind)).IsChain Token.Marks)
              (apart : (Token.list behind).IsChain (Token.Apart store)) :
              hear store behind = hearTokens store (Token.solid (Token.list behind)) :=
            ih _ (size ▸ Nat.lt_succ_of_le suffix.length_le) behind marked apart rfl
          have classes := Token.Kind.class_of_ofHead char
          by_cases blank : Text.isBlank char
          · rw [Token.list, Token.skipsBlanks_solid.listFrom_blank blank 0 0] at marked ⊢
            rw [Token.list, (Token.skipsBlanks_isChain store).listFrom_blank blank 0 0] at apart
            rw [hear_blank blank]
            exact later rest (List.suffix_refl rest) marked apart
          · have shown : Token.Kind.ofHead char ≠ .blank := mt classes.1 blank
            have first := Token.solid_list_cons shown rest
            have chain := marked
            rw [first] at chain
            have tail := later _ (List.dropWhile_suffix _) chain.tail
              (Token.isChain_list_dropWhile apart)
            cases kind : Token.Kind.ofHead char with
            | blank => exact absurd kind shown
            | caret =>
                obtain rfl := classes.2.2.2 kind
                exact hear_caret marked apart later
            | name =>
                have continued : Token.Kind.name.continuedBy = Token.continuesName := rfl
                rw [kind, continued] at first tail
                rw [first, hearTokens, ← tail]
                exact hear_name_token kind apart
            | _ =>
                rw [kind] at first tail
                rw [first, hear]
                simp only [kind, hearTokens, tail]

/-- A formula with other blanks has the same value, or the same fault. -/
theorem evaluate_respaced (ν : Type) [Numeral ν] (respaced : Token.Respaced (Token.list text) other)
    (marked : (Token.solid (Token.list text)).IsChain Token.Marks)
    (apart : (Token.list text).IsChain (Token.Apart store)) :
    (evaluate ν store other).mapError Diagnostic.fault =
      (evaluate ν store text).mapError Diagnostic.fault := by
  have solid := respaced.solid_eq
  have also := respaced.isChain_apart apart
  rw [evaluate_eq_settledValue, evaluate_eq_settledValue, heard_lexemes, heard_lexemes,
    hear_eq_hearTokens text marked apart, ← solid]
  rw [← solid] at marked
  rw [hear_eq_hearTokens other marked also]

end Formula

end MatrixFormula
