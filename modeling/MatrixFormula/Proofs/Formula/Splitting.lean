import Mathlib.Data.List.TakeWhile
import MatrixFormula.Proofs.Formula.Places
import MatrixFormula.Proofs.Formula.Spelling

/-!
# Splitting a run of letters

What a formula is evaluated to depends only on the words that are heard, and the words in front
of a letter that starts a token stay the same, whatever stands behind that letter. So a run of
letters that is read as two variables can be typed as these two, with a space between them.
-/

namespace MatrixFormula.Formula

variable {store : Store} {offset place : Nat} {char : Char} {text rest other : Text}

/-! ## The value of what is heard -/

/-- The value that an outcome leads to, without the regions of its faults. -/
def settledValue (ν : Type) [Numeral ν] (store : Store)
    (outcome : Except (List Expr × Fault) Expr) : Except Fault (Grid Text) :=
  match outcome with
  | .ok expr => expr.verdict ν store
  | .error (completed, fault) => do
      discard (completed.mapM (Expr.verdict ν store))
      .error fault

/-- The verdicts on expressions are their values, places apart. -/
theorem mapM_verdict (ν : Type) [Numeral ν] (store : Store) (exprs : List Expr) :
    (exprs.map Expr.placeless).mapM (Expr.verdict ν store) =
      (exprs.mapM (Expr.value ν store)).mapError Diagnostic.fault := by
  induction exprs with
  | nil => rfl
  | cons expr exprs ih =>
      rw [List.map_cons, List.mapM_cons, List.mapM_cons, ih, verdict_placeless, Expr.verdict]
      cases expr.value ν store with
      | error => rfl
      | ok grid => cases exprs.mapM (Expr.value ν store) <;> rfl

/-- A formula is evaluated as what is heard of it is read. -/
theorem evaluate_eq_settledValue (ν : Type) [Numeral ν] (store : Store) (source : Text) :
    (evaluate ν store source).mapError Diagnostic.fault =
      settledValue ν store (outcome (read 0 [] none (heard (lexemes store 0 source)))) := by
  have read := outcome_read (Text.byteSize source) [] none (lexemes store 0 source)
  rw [List.map_nil, Option.map_none] at read
  rw [← read, evaluate, parse]
  cases Formula.read (Text.byteSize source) [] none (lexemes store 0 source) with
  | ok expr => exact (verdict_placeless ν store expr).symm
  | error stop =>
      simp only [outcome, settledValue, mapM_verdict]
      cases stop.completed.mapM (Expr.value ν store) <;> rfl

/-! ## Words do not depend on places -/

/-- The exponent behind a caret is the same wherever it stands, places apart. -/
theorem exponent_placeless (offset place : Nat) (text : Text) :
    (exponent offset text).1.placeless = (exponent place text).1.placeless ∧
      (exponent offset text).2 = (exponent place text).2 := by
  unfold exponent
  cases text.dropWhile Text.isBlank with
  | nil => exact ⟨rfl, rfl⟩
  | cons mark after =>
      by_cases marks : isTransposeMark mark
      · simp [marks, Exponent.placeless]
      · simp [marks, Exponent.placeless]

/-- What is heard of a text, wherever it stands. -/
def hear (store : Store) : Text → List Lexeme
  | [] => []
  | char :: rest =>
      let kind := Token.Kind.ofHead char
      let run : Text := char :: rest.takeWhile kind.continuedBy
      match kind with
      | .blank => hear store (rest.dropWhile kind.continuedBy)
      | .name =>
          ⟨.name, leadingName store run, nowhere⟩ ::
            hear store (rest.drop ((leadingName store run).length - 1))
      | .caret =>
          ⟨.caret (exponent 0 rest).1.placeless, [char], nowhere⟩ ::
            hear store (exponent 0 rest).2
      | kind =>
          if Word.ofKind kind = .stray then [⟨.stray, run, nowhere⟩]
          else ⟨.ofKind kind, run, nowhere⟩ :: hear store (rest.dropWhile kind.continuedBy)
termination_by text => text.length
decreasing_by
  · exact Nat.lt_succ_of_le (List.dropWhile_sublist ..).length_le
  · exact Nat.lt_succ_of_le (List.drop_sublist ..).length_le
  · exact Nat.lt_succ_of_le (length_exponent_le ..)
  · exact Nat.lt_succ_of_le (List.dropWhile_sublist ..).length_le

/-- The words of a text are heard alike wherever the text stands. -/
theorem heard_lexemes (store : Store) (offset : Nat) (text : Text) :
    heard (lexemes store offset text) = hear store text := by
  fun_induction lexemes store offset text with
  | case1 => rw [hear, heard]
  | case2 offset char rest kind run blank ih =>
      rw [hear, ih]
      simp only [kind, blank]
  | case3 offset char rest kind run named name ih =>
      rw [hear, heard, ih]
      simp only [kind, named, run, name]
      rfl
  | case4 offset char rest kind caret found ih =>
      obtain ⟨same, later⟩ := exponent_placeless (offset + char.utf8Size) 0 rest
      rw [hear, heard, ih]
      simp only [kind, caret, found, later, Lexeme.placeless, Word.placeless, same]
      rfl
  | case5 offset char rest kind run blank name caret ih =>
      rw [hear, heard, ih]
      cases known : Token.Kind.ofHead char with
      | blank => exact absurd known blank
      | name => exact absurd known name
      | caret => exact absurd known caret
      | _ => simp [kind, run, known, Word.ofKind, Lexeme.placeless, Word.placeless]

/-! ## Words in front of other words -/

/-- Blanks are not heard. -/
theorem hear_blank (blank : Text.isBlank char) : hear store (char :: rest) = hear store rest := by
  rw [← heard_lexemes store 0, (lexer store).cons_blank blank, heard_lexemes]

/-- A sign is a word of its own. -/
theorem hear_single {kind : Token.Kind} (head : Token.Kind.ofHead char = kind)
    (single : isSingle kind) (meant : Word.ofKind kind ≠ .stray) :
    hear store (char :: rest) = ⟨.ofKind kind, [char], nowhere⟩ :: hear store rest := by
  have placeless : (Word.ofKind kind).placeless = Word.ofKind kind := by cases kind <;> rfl
  rw [← heard_lexemes store 0, lexemes_single head single, heard, if_neg meant, heard_lexemes,
    Lexeme.placeless, placeless]

/-- Words with those behind them, which are heard only as long as all words in front of them have a
meaning. -/
def follow : List Lexeme → List Lexeme → List Lexeme
  | [], behind => behind
  | lexeme :: words, behind =>
      if lexeme.word.isRegular then lexeme :: follow words behind else [lexeme]

/-- No word of a text goes on in the text behind it, or the end of the text is never read. -/
def Separate (text rest : Text) : Prop :=
  '\\' ∈ text ∨
    (Text.Closed Token.startsName Token.continuesName text ∨
      ∀ char ∈ rest.head?, Token.continuesName char = false) ∧
    (∀ char ∈ rest.head?, Token.inNumber char = false) ∧
    Text.Closed (· == '^') Text.isBlank text

/-- Text without a backslash may be dropped in front. -/
theorem Separate.behind {front : Text} (separate : Separate (front ++ text) rest)
    (plain : '\\' ∉ front) : Separate text rest := by
  rcases separate with mark | ⟨name, number, caret⟩
  · exact .inl ((List.mem_append.mp mark).resolve_left plain)
  · exact .inr ⟨name.imp_left Text.Closed.suffix, number, caret.suffix⟩

/-- A run that starts a text without a backslash ends within the text. -/
theorem exists_outside {starts inside : Char → Bool} {first : Char}
    (closed : '\\' ∈ text ∨ Text.Closed starts inside (first :: text)) (start : starts first)
    (mark : inside '\\' = false) : ∃ char ∈ text, inside char = false := by
  rcases closed with member | closed
  · exact ⟨'\\', member, mark⟩
  · exact closed [] first text rfl start

/-- No token goes on with a backslash. -/
theorem continuedBy_backslash (kind : Token.Kind) : kind.continuedBy '\\' = false := by
  cases kind <;> rfl

/-- A token that is not blank does not go on in the text behind. -/
theorem Separate.stops {first : Char} (separate : Separate (first :: text) rest)
    (shown : Text.isBlank first = false) :
    (∃ other ∈ text, (Token.Kind.ofHead first).continuedBy other = false) ∨
      ∀ char ∈ rest.head?, (Token.Kind.ofHead first).continuedBy char = false := by
  have classes := Token.Kind.class_of_ofHead first
  rcases separate with mark | ⟨names, numbers, -⟩
  · rcases List.mem_cons.mp mark with rfl | member
    · exact .inr fun _ _ => rfl
    · exact .inl ⟨'\\', member, continuedBy_backslash _⟩
  · cases kind : Token.Kind.ofHead first with
    | blank =>
        rw [classes.1 kind] at shown
        cases shown
    | name => exact names.imp_left fun closed => closed [] first text rfl (classes.2.1 kind)
    | number => exact .inr numbers
    | _ => exact .inr fun _ _ => rfl

/-- No backslash stands in a run of a class that has none. -/
theorem not_mem_takeWhile {inside : Char → Bool} (mark : inside '\\' = false) (text : Text) :
    '\\' ∉ text.takeWhile inside := fun member => by
  have continued := List.mem_takeWhile_imp member
  rw [mark] at continued
  cases continued

/-- An exponent is the same whatever stands behind the text. -/
theorem Separate.exponent_append (separate : Separate ('^' :: text) rest) :
    (∃ stop behind, behind.length ≤ text.length ∧ Separate behind rest ∧
      exponent 0 text = (.transpose stop, behind) ∧
      exponent 0 (text ++ rest) = (.transpose stop, behind ++ rest)) ∨
      ∃ found span, exponent 0 text = (.unsupported found span, []) ∧
        exponent 0 (text ++ rest) = (.unsupported found span, []) := by
  have shown : ∃ other ∈ text, Text.isBlank other = false :=
    exists_outside (separate.imp (fun member => by simpa using member) fun parts => parts.2.2) rfl
      rfl
  have blanks := @Text.span_append Text.isBlank text rest (.inl shown)
  have parts : text = text.takeWhile Text.isBlank ++ text.dropWhile Text.isBlank :=
    List.takeWhile_append_dropWhile.symm
  have plain : '\\' ∉ '^' :: text.takeWhile Text.isBlank :=
    List.not_mem_cons_of_ne_of_not_mem (by decide) (not_mem_takeWhile rfl text)
  cases spread : text.dropWhile Text.isBlank with
  | nil =>
      obtain ⟨other, member, outside⟩ := shown
      rw [List.dropWhile_eq_nil_iff.mp spread other member] at outside
      cases outside
  | cons mark after =>
      have behind : Separate (mark :: after) rest := by
        rw [parts, spread, ← List.cons_append] at separate
        exact separate.behind plain
      have next : (text ++ rest).dropWhile Text.isBlank = mark :: (after ++ rest) := by
        rw [blanks.2, spread, List.cons_append]
      by_cases marks : isTransposeMark mark
      · have other : '\\' ∉ [mark] := by
          simp only [isTransposeMark, Bool.or_eq_true, beq_iff_eq] at marks
          rcases marks with rfl | rfl <;> decide
        refine .inl ⟨0 + Text.byteSize (text.takeWhile Text.isBlank) + mark.utf8Size, after, ?_,
          @Separate.behind _ _ [mark] behind other, ?_, ?_⟩
        · rw [parts, spread, List.length_append, List.length_cons]
          omega
        · simp only [exponent, spread, if_pos marks]
        · simp only [exponent, next, blanks.1, if_pos marks]
      · have run := @Text.span_append _ after rest
          (behind.stops (Text.not_isBlank_of_trimStart spread))
        let found : Text := mark :: after.takeWhile (Token.Kind.ofHead mark).continuedBy
        refine .inr ⟨found, .ofText (0 + Text.byteSize (text.takeWhile Text.isBlank)) found, ?_, ?_⟩
        · simp only [exponent, spread, if_neg marks, found]
        · simp only [exponent, next, blanks.1, if_neg marks, run.1, found]

/-- The name that leads a run of letters is a part of that run. -/
theorem exists_leadingName_parts (store : Store) (first : Char) (text : Text) :
    ∃ name behind,
      leadingName store (first :: text.takeWhile Token.continuesName) = first :: name ∧
        text = name ++ behind ∧ ∀ char ∈ name, Token.continuesName char := by
  obtain ⟨name, drift, nonempty, spelled, leads, -⟩ := exists_leadingName store
    (List.cons_ne_nil first (text.takeWhile Token.continuesName))
  obtain ⟨_, name, rfl⟩ := List.exists_cons_of_ne_nil nonempty
  obtain rfl := (List.cons.inj spelled).1
  have parts : name ++ drift = text.takeWhile Token.continuesName := (List.cons.inj spelled).2
  refine ⟨name, drift ++ text.dropWhile Token.continuesName, leads, ?_, fun char member => ?_⟩
  · rw [← List.append_assoc, parts, List.takeWhile_append_dropWhile]
  · have member : char ∈ text.takeWhile Token.continuesName :=
      parts ▸ List.mem_append_left drift member
    exact List.mem_takeWhile_imp member

/-- What is heard of a text is heard whatever stands behind the text, and unless a word has no
meaning, the words behind the text follow. -/
theorem hear_append (separate : Separate text rest) :
    hear store (text ++ rest) = follow (hear store text) (hear store rest) := by
  induction size : text.length using Nat.strongRecOn generalizing text with
  | ind bound ih =>
      cases text with
      | nil => simp only [List.nil_append, hear, follow]
      | cons first more =>
          have later {front behind : Text} (parts : more = front ++ behind)
              (apart : first ≠ '\\') (plain : '\\' ∉ front) :
              hear store (behind ++ rest) = follow (hear store behind) (hear store rest) := by
            subst parts
            refine ih _ ?_ (@Separate.behind _ _ (first :: front) separate
              (List.not_mem_cons_of_ne_of_not_mem apart.symm plain)) rfl
            rw [← size, List.length_cons, List.length_append]
            omega
          have plain {kind : Token.Kind} (head : Token.Kind.ofHead first = kind)
              (other : kind ≠ .backslash) : first ≠ '\\' := by
            rintro rfl
            exact other head.symm
          cases shown : Text.isBlank first with
          | true =>
              rw [List.cons_append, hear_blank shown, hear_blank shown]
              exact later rfl (plain (Token.Kind.ofHead_of_isBlank shown) (by decide))
                List.not_mem_nil
          | false =>
              have run := @Text.span_append _ more rest (separate.stops shown)
              rw [List.cons_append, hear, hear]
              -- Nothing is heard behind a stray word. Any other token ends within the text.
              cases kind : Token.Kind.ofHead first with
              | backslash | equals | symbol =>
                  rw [kind] at run
                  simp only [run, Word.ofKind]
                  rfl
              | name =>
                  obtain ⟨name, behind, leads, parts, letters⟩ :=
                    exists_leadingName_parts store first more
                  have next : (more ++ rest).drop name.length = behind ++ rest := by
                    rw [parts, List.append_assoc, List.drop_left]
                  have still : more.drop name.length = behind := by
                    rw [parts, List.drop_left]
                  have continued : Token.Kind.name.continuedBy = Token.continuesName := rfl
                  rw [kind, continued] at run
                  simp only [run, continued, leads, List.length_cons, Nat.add_sub_cancel, next,
                    still]
                  exact congrArg _ (later parts (plain kind (by decide)) fun member => by
                    cases letters _ member)
              | caret =>
                  obtain rfl := (Token.Kind.class_of_ofHead first).2.2.2 kind
                  rcases separate.exponent_append with
                    ⟨stop, behind, shorter, next, here, reads⟩ | ⟨found, span, here, reads⟩
                  · have same := ih _ (size ▸ Nat.lt_succ_of_le shorter) next rfl
                    simp only [here, reads, same]
                    rfl
                  · simp only [here, reads, hear]
                    rfl
              | blank =>
                  rw [(Token.Kind.class_of_ofHead first).1 kind] at shown
                  cases shown
              | _ =>
                  have tail := later List.takeWhile_append_dropWhile.symm (plain kind (by decide))
                    (not_mem_takeWhile (continuedBy_backslash (Token.Kind.ofHead first)) more)
                  rw [kind] at run tail
                  simp only [run, tail]
                  rfl

/-- A run of letters that is read as two variables is heard like the two with a space between
them. -/
theorem hear_split (keyed : Keyed store) {left right : Text}
    (identifier : Token.isIdentifier (left ++ right))
    (ends : ∀ char ∈ rest.head?, Token.continuesName char = false)
    (unknown : store.contains (left ++ right) = false)
    (halves : store.split? (left ++ right) = some (left, right)) :
    hear store (left ++ right ++ rest) = hear store (left ++ ' ' :: (right ++ rest)) := by
  obtain ⟨nonempty, -, first, second⟩ := contains_of_split? halves
  have space : ∀ char ∈ (' ' :: (right ++ rest)).head?, Token.continuesName char = false := by
    intro char head
    obtain rfl := Option.some.inj head
    rfl
  rw [← heard_lexemes store 0, ← heard_lexemes store 0,
    lexemes_name identifier ends nonempty (leadingName_of_split unknown halves),
    lexemes_whole (keyed.identifier second) ends (.inl second),
    lexemes_whole (keyed.identifier first) space (.inl first), (lexer store).cons_blank rfl,
    lexemes_whole (keyed.identifier second) ends (.inl second)]
  simp only [heard, heard_lexemes]
  rfl

end MatrixFormula.Formula
