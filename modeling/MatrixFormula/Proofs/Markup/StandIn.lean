import Mathlib.Data.List.Forall2
import MatrixFormula.Proofs.Markup.Grouping
import MatrixFormula.Proofs.Markup.Pieces

/-!
# Transposed variables stand for names

A formula with its values filled in shows each transposed variable as if a name stood in its
place whose markup is the transposed value. The name must be fresh: no name of the formula may be
displayed by asking for it. Then the two formulas have the same words, one by one, except that
one has a block where the other has a name with that markup, and reading does not tell an operand
from another.
-/

namespace MatrixFormula.Markup

/-- The names that a style is asked for when a name is displayed: the name, the letters that it
starts with, and every character of it. -/
def consulted (name : Text) : List Text :=
  name :: name.takeWhile Char.isAlpha :: name.map fun char => [char]

/-- Names that can stand for the transposed variables of a formula. -/
structure Fresh (store : Store) (source : Text) (fresh : Text → Text) : Prop where
  identifier : ∀ name ∈ store.names, Token.isIdentifier (fresh name)
  plain : ∀ name ∈ store.names, Name.isFunction (fresh name) = false
  injective : ∀ first ∈ store.names, ∀ second ∈ store.names,
    fresh first = fresh second → first = second
  /-- No name of the formula is displayed by asking for a fresh name. -/
  unasked : ∀ token ∈ Token.list source, token.kind = .name →
    ∀ name ∈ store.names, fresh name ∉ consulted token.lexeme

/-- What is asked for when a name is displayed is no longer than the name. -/
theorem length_le_of_mem_consulted {asked name : Text} (member : asked ∈ consulted name)
    (nonempty : name ≠ []) : asked.length ≤ name.length := by
  rcases List.mem_cons.mp member with rfl | member
  · exact Nat.le_refl _
  · rcases List.mem_cons.mp member with rfl | member
    · exact (List.takeWhile_sublist _).length_le
    · obtain ⟨char, -, rfl⟩ := List.mem_map.mp member
      exact List.length_pos_iff.mpr nonempty

/-- No token is longer than its source. -/
theorem length_lexeme_le {source : Text} {token : Token} (member : token ∈ Token.list source) :
    token.lexeme.length ≤ source.length := by
  have whole := Token.flatMap_lexeme_listFrom 0 source
  have member : token ∈ Token.listFrom 0 source := member
  obtain ⟨before, after, parts⟩ := List.append_of_mem member
  rw [parts, List.flatMap_append, List.flatMap_cons] at whole
  have length := congrArg List.length whole
  simp only [List.length_append] at length
  omega

/-- There are names that can stand for the transposed variables of any formula: names that are
longer than the formula. -/
theorem exists_fresh (store : Store) (source : Text) : ∃ fresh, Fresh store source fresh := by
  refine ⟨fun name => List.replicate (source.length + store.names.idxOf name + 1) 'Z', ?_⟩
  constructor
  · intro name _
    rw [List.replicate_succ]
    have letters : (List.replicate (source.length + store.names.idxOf name) 'Z').all
        Token.continuesName := by simp [Token.continuesName, Token.startsName]
    simpa [Token.isIdentifier, Token.startsName] using letters
  · intro name _
    have starts : ∀ function ∈ Name.functions, function.head? ≠ some 'z' := by decide +kernel
    rw [Name.isFunction, Bool.eq_false_iff, ne_eq, List.contains_iff_mem, List.replicate_succ]
    exact fun member => starts _ member rfl
  · intro first known second _ same
    have length := congrArg List.length same
    simp only [List.length_replicate] at length
    exact (List.idxOf_inj known).mp (by omega)
  · intro token among _ name _ asked
    have shorter := length_lexeme_le among
    have nonempty : token.lexeme ≠ [] := by
      obtain ⟨first, run, spelled, -⟩ := Token.exists_of_mem_listFrom among
      simp [spelled]
    have longer := length_le_of_mem_consulted asked nonempty
    rw [List.length_replicate] at longer
    omega

/-- The style that shows values and, for the names that stand for transposed variables, their
transposed values. -/
def NameStyle.standingIn (ν : Type) [Numeral ν] (store : Store) (fresh : Text → Text) : NameStyle :=
  fun name display =>
    match store.entries.find? fun entry => fresh entry.1 == name with
    | some (_, tensor) => some (tensor.transposedLatex ν)
    | none => NameStyle.expanded store name display

/-- The name that stands for a variable with a mark of transposition behind it. -/
def standIn (fresh : Text → Text) (typed : Text) : Text :=
  fresh (typed.takeWhile Token.continuesName)

/-- The formula with a name in place of every transposed variable. -/
def standInText (fresh : Text → Text) (pieces : List Segment) : Text :=
  writtenText (fun typed _ => standIn fresh typed) pieces

/-! ## Styles that answer alike -/

/-- Styles that answer alike what they are asked for display a name alike. -/
theorem writeName_congr {first second : NameStyle} {name : Text}
    (same : ∀ asked ∈ consulted name, first asked = second asked) :
    writeName first name = writeName second name := by
  have whole := same name (by simp [consulted])
  have run := same (name.takeWhile Char.isAlpha) (by simp [consulted])
  have character {text : Text} (inside : text ⊆ name) : letters first text = letters second text :=
    List.map_congr_left fun char member => by
      rw [same [char] (by simp [consulted, inside member])]
  have letter : letters first (name.takeWhile Char.isAlpha) =
      letters second (name.takeWhile Char.isAlpha) :=
    character (List.takeWhile_sublist _).subset
  simp only [writeName, symbol?, factors, whole, run, letter]

/-- Words that are read alike in two styles. -/
def Alike (first second : NameStyle) (word other : Word × Text) : Prop :=
  ∀ draft : Draft, draft.step first word = draft.step second other

variable {first second : NameStyle}

/-- Two operands with the same markup are alike. -/
theorem alike_of_operand {word other : Word} {text changed markup : Text}
    (shown : word.operand? first text = some markup)
    (written : other.operand? second changed = some markup) :
    Alike first second (word, text) (other, changed) := fun draft => by
  rw [Draft.step_operand shown, Draft.step_operand written]

/-- A word that both styles display in the same way is alike. -/
theorem alike_of_eq {word : Word} {text : Text}
    (same : word.operand? first text = word.operand? second text) :
    Alike first second (word, text) (word, text) := fun draft => by
  obtain ⟨stack, operand?⟩ := draft
  cases operand? <;> simp only [Draft.step, Draft.start, Draft.proceed, same]

/-- Words that are read alike, one by one, have the same outcome. -/
theorem Draft.run_congr {words others : List (Word × Text)}
    (alike : List.Forall₂ (Alike first second) words others) (draft : Draft) :
    draft.run first words = draft.run second others := by
  induction alike generalizing draft with
  | nil => rfl
  | cons same _ ih => simp only [run_cons, same draft, ih]

/-! ## Names that stand for transposed variables -/

variable {ν : Type} [Numeral ν] {store : Store} {source text : Text} {fresh : Text → Text}
  {pieces : List Segment}

theorem mem_names_of_get? {name : Text} {tensor : Tensor} (known : store.get? name = some tensor) :
    name ∈ store.names :=
  List.mem_map_of_mem (Store.mem_entries_iff.mpr known)

/-- A fresh name is displayed as the transposed value that it stands for. -/
theorem Fresh.writeName (isFresh : Fresh store source fresh) {name : Text} {tensor : Tensor}
    (known : store.get? name = some tensor) :
    Markup.writeName (.standingIn ν store fresh) (fresh name) = tensor.transposedLatex ν := by
  have member := mem_names_of_get? known
  obtain ⟨before, after, entries, others⟩ := List.lookup_eq_some_iff.mp known
  have found : store.entries.find? (fun entry => fresh entry.1 == fresh name) =
      some (name, tensor) := by
    refine List.find?_eq_some_iff_append.mpr
      ⟨by simp, before, after, entries, fun entry among => ?_⟩
    have named : entry.1 ∈ store.names :=
      List.mem_map_of_mem (by rw [entries]; exact List.mem_append_left _ among)
    have apart : entry.1 ≠ name := fun same => by simpa [same] using others entry among
    simpa using fun same => apart (isFresh.injective _ named _ member same)
  have answers (display : Text) :
      NameStyle.standingIn ν store fresh (fresh name) display =
        some (tensor.transposedLatex ν) := by
    simp only [NameStyle.standingIn, found]
  rw [Markup.writeName, if_neg (by simp [isFresh.plain name member])]
  have symbol : symbol? (.standingIn ν store fresh) (fresh name) =
      some (tensor.transposedLatex ν) := by
    unfold symbol?
    split <;> simp [answers]
  rw [symbol]

/-- A name of the formula is displayed as if there were no fresh names. -/
theorem Fresh.writeName_kept (isFresh : Fresh store source fresh) {token : Token}
    (member : token ∈ Token.list source) (named : token.kind = .name) :
    Markup.writeName (.expanded store) token.lexeme =
      Markup.writeName (.standingIn ν store fresh) token.lexeme := by
  refine writeName_congr fun asked consults => funext fun display => ?_
  have none : store.entries.find? (fun entry => fresh entry.1 == asked) = none := by
    refine List.find?_eq_none.mpr fun entry among => ?_
    have known : entry.1 ∈ store.names := List.mem_map_of_mem among
    have apart : fresh entry.1 ≠ asked := fun same =>
      isFresh.unasked token member named entry.1 known (same ▸ consults)
    simpa using apart
  simp only [NameStyle.standingIn, none]

/-- A name ends in front of its mark of transposition. -/
theorem takeWhile_typed {name mark : Text} (identifier : Token.isIdentifier name)
    (marked : IsMark mark) : (name ++ mark).takeWhile Token.continuesName = name := by
  have ends := marked.ends []
  rw [List.append_nil] at ends
  exact (Text.span_run (Token.continuesName_of_isIdentifier identifier) ends).1

/-- What stands for the transposed variables can be read. -/
theorem Segmented.readable (segmented : Segmented ν store text pieces)
    (identifier : ∀ name ∈ store.names, Token.isIdentifier (fresh name)) :
    Readable (fun typed _ => standIn fresh typed) pieces := by
  induction segmented with
  | nil => exact nofun
  | kept _ _ _ _ ih =>
      intro typed markup member
      exact ih typed markup (by simpa using member)
  | replaced named known marked _ _ ih =>
      intro typed markup member
      rcases List.mem_cons.mp member with same | later
      · obtain ⟨rfl, -⟩ := Segment.replaced.inj same
        show StandsForName (fresh _)
        rw [takeWhile_typed named marked]
        exact standsForName_of_isIdentifier (identifier _ (mem_names_of_get? known))
      · exact ih typed markup later

/-- A word that is a name starts with a character that starts names. -/
theorem ofHead_of_word? {char : Char} (named : word? char = some .name) :
    Token.Kind.ofHead char = .name := by
  unfold word? at named
  cases kind : Token.Kind.ofHead char <;> rw [kind] at named <;> first | rfl | cases named

/-- The words of a formula with its values filled in are read like those of the formula with
names in place of the transposed variables. -/
theorem Segmented.alike (segmented : Segmented ν store text pieces) (blocks : Blocks pieces)
    (identifier : ∀ name ∈ store.names, Token.isIdentifier (fresh name))
    (kept : ∀ name, .kept name ∈ pieces →
      (∀ char ∈ name.head?, Token.Kind.ofHead char = .name) →
      Markup.writeName first name = Markup.writeName second name)
    (stands : ∀ name tensor, store.get? name = some tensor →
      Markup.writeName second (fresh name) = tensor.transposedLatex ν) (offset other : Nat) :
    List.Forall₂ (Alike first second) ((lexemes offset (shownText pieces)).map Lexeme.content)
      ((lexemes other (standInText fresh pieces)).map Lexeme.content) := by
  induction segmented generalizing offset other with
  | nil =>
      show List.Forall₂ _ ((lexemes offset []).map _) ((lexemes other []).map _)
      rw [lexemes, lexemes]
      exact .nil
  | @kept char run rest others plain inside ends segmented ih =>
      have shown := lexemes_kept plain inside ends segmented blocks.tail.readable offset
      have written := lexemes_kept plain inside ends segmented (segmented.readable identifier) other
      rw [writtenText_shown, writtenText_shown] at shown
      have later := ih blocks.tail (fun name member => kept name (List.mem_cons_of_mem _ member))
        (offset + Text.byteSize (char :: run)) (other + Text.byteSize (char :: run))
      rw [shown, standInText, written, List.map_append, List.map_append]
      unfold firstWord
      cases named : word? char with
      | none => exact later
      | some word =>
          refine .cons (alike_of_eq ?_) later
          cases word with
          | name =>
              have same := kept (char :: run) (by simp) (by simpa using ofHead_of_word? named)
              simp only [Word.operand?, same]
          | _ => rfl
  | @replaced name mark rest tensor others named known marked ends segmented ih =>
      have later := ih blocks.tail (fun name member => kept name (List.mem_cons_of_mem _ member))
        (offset + Text.byteSize (tensor.transposedLatex ν)) (other + Text.byteSize (fresh name))
      have stops := segmented.ends_name blocks.tail.readable ends
      rw [writtenText_shown] at stops
      have block := lexemes_block (blocks _ _ (List.mem_cons_self ..)) stops offset
      have whole := @lexemes_name other _ _ (identifier name (mem_names_of_get? known))
        (segmented.ends_name (segmented.readable identifier) ends)
      show List.Forall₂ _
        ((lexemes offset (tensor.transposedLatex ν ++ shownText others)).map Lexeme.content)
        ((lexemes other (fresh ((name ++ mark).takeWhile Token.continuesName) ++
          standInText fresh others)).map Lexeme.content)
      rw [takeWhile_typed named marked, block, standInText, whole]
      exact .cons (alike_of_operand rfl (congrArg some (stands name tensor known))) later

/-! ## Whole formulas -/

/-- When values are filled in, transposed variables are shown as fresh names would be whose
markup is the transposed value, and there always are such names. -/
theorem renderExpanded_eq_standIn (store : Store) (enclosed : EnclosedStore store) (source : Text)
    (plain : '\\' ∉ source) :
    (∃ fresh, Fresh store source fresh) ∧ ∀ fresh, Fresh store source fresh →
      (renderExpanded Float store source).mapError Diagnostic.fault =
        (render (.standingIn Float store fresh)
          (standInText fresh (segmentsOf Float store source))).mapError Diagnostic.fault := by
  refine ⟨exists_fresh store source, fun fresh isFresh => ?_⟩
  have segmented : Segmented Float store source (segmentsOf Float store source) :=
    segmented_segments plain 0
  have kept : ∀ name, .kept name ∈ segmentsOf Float store source →
      (∀ char ∈ name.head?, Token.Kind.ofHead char = .name) →
      writeName (.expanded store) name = writeName (.standingIn Float store fresh) name := by
    intro name member starts
    obtain ⟨token, among, rfl⟩ := exists_token_of_kept member
    obtain ⟨char, run, spelled, kind, -⟩ := Token.exists_of_mem_listFrom among
    exact isFresh.writeName_kept among (kind.trans (starts char (by simp [spelled])))
  rw [mapError_renderExpanded, render_eq_run, render_eq_run]
  exact Draft.run_congr (segmented.alike (segmented.blocks not_mem_write enclosed)
    isFresh.identifier kept (fun _ _ known => isFresh.writeName known) 0 0) _

/-- The name `ZA` stands for the transposed variable, between two other factors. -/
theorem renderExpanded_eq_standIn_sized :
    EnclosedStore sized ∧ Fresh sized "2A ^T x" (fun name => 'Z' :: name) ∧
      standInText (fun name => 'Z' :: name) (segmentsOf Float sized "2A ^T x") = "2ZA x" ∧
      (renderExpanded Float sized "2A ^T x").mapError Diagnostic.fault =
        (render (.standingIn Float sized fun name => 'Z' :: name) "2ZA x").mapError
          Diagnostic.fault := by
  have enclosed : EnclosedStore sized := by decide +kernel
  have isFresh : Fresh sized "2A ^T x" fun name => 'Z' :: name :=
    ⟨by decide +kernel, by decide +kernel, by decide +kernel, by decide +kernel⟩
  have written : standInText (fun name => 'Z' :: name) (segmentsOf Float sized "2A ^T x") =
      "2ZA x" := by decide +kernel
  have same := (renderExpanded_eq_standIn sized enclosed "2A ^T x" (by decide)).2 _ isFresh
  rw [written] at same
  exact ⟨enclosed, isFresh, written, same⟩

end MatrixFormula.Markup
