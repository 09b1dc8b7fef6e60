import MatrixFormula.Proofs.Markup.Commands
import MatrixFormula.Proofs.Markup.Origins
import MatrixFormula.Proofs.Markup.Spacing

/-!
# Commands in formulas with their values filled in

The transposed variables of a formula are replaced before it is read, so they are replaced in the
groups of a command as well. A command without them is copied. A command with one is not: the
markup of a value has a backslash that was not typed, and a formula that is displayed keeps all of
its backslashes.
-/

namespace MatrixFormula.Markup

/-- Some token is a stored variable with a mark of transposition behind it. -/
def Transposes (store : Store) (tokens : List Token) : Prop :=
  ∃ before token after, tokens = before ++ token :: after ∧ token.kind = .name ∧
    store.contains token.lexeme ∧ (afterTranspose? after).isSome

variable {ν : Type} [Numeral ν] {store : Store} {style : NameStyle} {text source markup : Text}
  {token : Token} {tokens : List Token} {pieces : List Segment}

/-! ## Backslashes of a displayed formula -/

/-- The number of backslashes in the blocks among some words. -/
def backslashes : List Lexeme → Nat
  | [] => 0
  | lexeme :: words =>
      (if lexeme.word = .block then lexeme.text.count '\\' else 0) + backslashes words

/-- The backslashes of two sequences of words add up. -/
theorem backslashes_append (first second : List Lexeme) :
    backslashes (first ++ second) = backslashes first + backslashes second := by
  induction first with
  | nil => simp [backslashes]
  | cons lexeme first ih => simp [backslashes, ih, Nat.add_assoc]

/-- A backslash is in no token but its own. -/
theorem not_mem_token {first : Char} (plain : Token.Kind.ofHead first ≠ .backslash) (rest : Text) :
    '\\' ∉ first :: (cutWord first rest).1 := by
  intro member
  rcases List.mem_cons.mp member with rfl | inside
  · exact plain rfl
  · have continued : (Token.Kind.ofHead first).continuedBy '\\' := by
      unfold cutWord at inside
      split at inside
      · exact absurd ‹_› plain
      · exact List.mem_takeWhile_imp inside
    rw [Formula.continuedBy_backslash] at continued
    cases continued

/-- Only a backslash starts a block. -/
theorem word?_ne_block {first : Char} (plain : Token.Kind.ofHead first ≠ .backslash) :
    word? first ≠ some .block := by
  unfold word?
  cases kind : Token.Kind.ofHead first <;> first | exact absurd kind plain | decide

/-- The first word has the backslashes of its text. -/
theorem backslashes_firstWord (offset : Nat) (first : Char) (rest : Text) :
    backslashes (firstWord offset first (cutWord first rest).1) =
      (first :: (cutWord first rest).1).count '\\' := by
  by_cases kind : Token.Kind.ofHead first = .backslash
  · have block : word? first = some .block := by rw [word?, kind]
    simp [firstWord, block, backslashes]
  · rw [List.count_eq_zero.mpr (not_mem_token kind rest), firstWord]
    cases known : word? first with
    | none => rfl
    | some word =>
        have plain : word ≠ .block := fun block =>
          word?_ne_block kind (known.trans (congrArg some block))
        simp [backslashes, plain]

/-- Every backslash of a text is in one of its blocks. -/
theorem backslashes_lexemes (offset : Nat) (text : Text) :
    backslashes (lexemes offset text) = text.count '\\' := by
  induction text using word_induction generalizing offset with
  | nil =>
      rw [lexemes]
      rfl
  | cons first text ih =>
      have parts : first :: (cutWord first text).1 ++ (cutWord first text).2 = first :: text := by
        rw [List.cons_append, cutWord_append]
      rw [lexemes_cons, backslashes_append, backslashes_firstWord, ih, ← List.count_append, parts]

/-- What stands in braces is kept. -/
theorem sublist_braced (body : Text) : body.Sublist (Latex.braced body) :=
  (List.sublist_append_left body ['\x7d']).cons '\x7b'

/-- An operator keeps what is displayed for its operands. -/
theorem sublist_layout_operator (operator : Operator) (left right : Node) (style : NameStyle) :
    (left.layout style ++ right.layout style).Sublist
      ((operator.node left right).layout style) := by
  cases operator with
  | equation | sum | difference | product =>
      exact .append (List.sublist_append_left ..) (.refl _)
  | fraction =>
      exact .append ((sublist_braced _).trans (List.sublist_append_right ..)) (sublist_braced _)
  | power => exact .append (sublist_braced _) ((sublist_braced _).cons _)

/-- The layout of a formula has all the backslashes of its blocks. -/
theorem Derives.backslashes_le {rank : Nat} {words : List Lexeme} {node : Node}
    (derives : Derives rank words node) (style : NameStyle) :
    backslashes words ≤ (node.layout style).count '\\' := by
  induction derives with
  | number word | name word =>
      simp only [backslashes, word, reduceCtorEq, if_false]
      exact Nat.zero_le _
  | block word =>
      simp only [backslashes, word, if_true]
      exact Nat.le_refl _
  | group opens _ closes ih =>
      have kept (inner : Text) : inner.Sublist (Latex.parenthesized inner) :=
        (List.sublist_append_right ..).trans (List.sublist_append_left ..)
      simp only [List.cons_append, backslashes, backslashes_append, opens, closes, reduceCtorEq,
        if_false, Nat.zero_add]
      exact ih.trans ((kept _).count_le _)
  | negation sign _ ih =>
      simp only [backslashes, sign, reduceCtorEq, if_false, Nat.zero_add]
      exact ih.trans List.count_le_count_cons
  | @binary lexeme operator before behind left right _ writes _ first second =>
      have plain : lexeme.word ≠ .block := fun block => by
        rw [block] at writes
        cases writes
      have kept := (sublist_layout_operator operator left right style).count_le '\\'
      rw [List.count_append] at kept
      simp only [backslashes, backslashes_append, if_neg plain]
      omega
  | @juxtaposed before behind left right _ _ first second =>
      have kept := (sublist_layout_operator .product left right style).count_le '\\'
      rw [List.count_append] at kept
      rw [backslashes_append]
      exact (Nat.add_le_add first second).trans kept
  | loosen _ ih => exact ih

/-- A formula that is displayed keeps all of its backslashes. -/
theorem count_le_of_render (shown : render style source = .ok markup) :
    source.count '\\' ≤ markup.count '\\' := by
  obtain ⟨node, derives, rfl⟩ := exists_derives_of_render shown 0
  rw [← backslashes_lexemes 0 source]
  exact derives.backslashes_le style

/-! ## Pieces with and without replacements -/

/-- Something is transposed at the first token or behind it. -/
theorem transposes_cons_iff :
    Transposes store (token :: tokens) ↔
      (token.kind = .name ∧ store.contains token.lexeme ∧ (afterTranspose? tokens).isSome) ∨
        Transposes store tokens := by
  constructor
  · rintro ⟨before, found, after, parts, transposed⟩
    cases before with
    | nil =>
        obtain ⟨rfl, rfl⟩ := List.cons.inj parts
        exact .inl transposed
    | cons _ before =>
        obtain ⟨-, rfl⟩ := List.cons.inj parts
        exact .inr ⟨before, found, after, rfl, transposed⟩
  · rintro (here | ⟨before, found, after, rfl, transposed⟩)
    · exact ⟨[], token, tokens, rfl, here⟩
    · exact ⟨token :: before, found, after, rfl, transposed⟩

theorem not_transposes_nil : ¬ Transposes store [] := by
  rintro ⟨before, token, after, parts, -⟩
  simp at parts

instance decidableTransposes (store : Store) : ∀ tokens, Decidable (Transposes store tokens)
  | [] => .isFalse not_transposes_nil
  | token :: tokens =>
      have := decidableTransposes store tokens
      decidable_of_iff _ (@transposes_cons_iff store token tokens).symm

/-- A token stays as it is when it is not transposed. -/
theorem segments_cons_kept
    (kept : ¬ (token.kind = .name ∧ store.contains token.lexeme ∧
      (afterTranspose? tokens).isSome)) :
    segments ν store (token :: tokens) = .kept token.lexeme :: segments ν store tokens := by
  refine segments_kept ?_
  by_cases marked : afterTranspose? tokens = none
  · exact .inr marked
  · left
    split
    · next name =>
        refine Option.not_isSome_iff_eq_none.mp fun known => kept ⟨name, known, ?_⟩
        exact Option.isSome_iff_ne_none.mpr marked
    · rfl

/-- Without transposed variables, nothing is replaced. -/
theorem shownText_of_not_transposes (untouched : ¬ Transposes store (Token.list text)) :
    shownText (segmentsOf ν store text) = text := by
  have whole : ∀ tokens, ¬ Transposes store tokens →
      shownText (segments ν store tokens) = tokens.flatMap Token.lexeme := by
    intro tokens untouched
    induction tokens with
    | nil =>
        rw [segments]
        rfl
    | cons token tokens ih =>
        obtain ⟨kept, later⟩ := not_or.mp (mt transposes_cons_iff.mpr untouched)
        rw [segments_cons_kept kept, List.flatMap_cons, ← ih later]
        rfl
  exact (whole _ untouched).trans (Token.flatMap_lexeme_listFrom 0 text)

/-- Where something is transposed, a piece is replaced. -/
theorem exists_replaced_of_transposes (ν : Type) [Numeral ν]
    (transposed : Transposes store tokens) :
    ∃ typed markup, .replaced typed markup ∈ segments ν store tokens := by
  induction tokens with
  | nil => exact absurd transposed not_transposes_nil
  | cons token tokens ih =>
      by_cases here : token.kind = .name ∧ store.contains token.lexeme ∧
          (afterTranspose? tokens).isSome
      · obtain ⟨name, known, marked⟩ := here
        obtain ⟨tensor, known⟩ := Option.isSome_iff_exists.mp known
        obtain ⟨after, marked⟩ := Option.isSome_iff_exists.mp marked
        have stored : (if token.kind = .name then store.get? token.lexeme else none) =
            some tensor := by rw [if_pos name, known]
        obtain ⟨typed, replaced⟩ := @exists_segments_replaced ν _ _ _ _ _ _ stored marked
        exact ⟨typed, _, replaced ▸ List.mem_cons_self ..⟩
      · obtain ⟨typed, markup, member⟩ := ih ((transposes_cons_iff.mp transposed).resolve_left here)
        refine ⟨typed, markup, ?_⟩
        rw [segments_cons_kept here]
        exact List.mem_cons_of_mem _ member

/-- A transposed variable is typed without a backslash. -/
theorem not_mem_typed {name mark : Text} (identifier : Token.isIdentifier name)
    (marked : IsMark mark) : '\\' ∉ name ++ mark := by
  intro member
  rcases List.mem_append.mp member with inside | inside
  · exact absurd (Token.continuesName_of_isIdentifier identifier _ inside) (by decide)
  · obtain @⟨before, between, letter, blank, gap, letters⟩ := marked
    simp only [List.mem_append, List.mem_cons, List.not_mem_nil, or_false] at inside
    rcases inside with inside | same | inside | rfl
    · exact absurd (blank _ inside) (by decide)
    · exact absurd same (by decide)
    · exact absurd (gap _ inside) (by decide)
    · rcases letters with same | same <;> exact absurd same (by decide)

/-- Replaced pieces have backslashes that were not typed. -/
theorem count_typedText_le
    (marked : ∀ typed markup, .replaced typed markup ∈ pieces → '\\' ∉ typed ∧ '\\' ∈ markup) :
    (typedText pieces).count '\\' ≤ (shownText pieces).count '\\' ∧
      ((∃ typed markup, .replaced typed markup ∈ pieces) →
        (typedText pieces).count '\\' < (shownText pieces).count '\\') := by
  induction pieces with
  | nil => exact ⟨Nat.le_refl _, by simp⟩
  | cons piece pieces ih =>
      obtain ⟨later, more⟩ := ih fun typed markup member =>
        marked typed markup (List.mem_cons_of_mem _ member)
      have front : typedText (piece :: pieces) = piece.typed ++ typedText pieces := rfl
      have parts : shownText (piece :: pieces) = piece.shown ++ shownText pieces := rfl
      rw [front, parts, List.count_append, List.count_append]
      cases piece with
      | kept text =>
          refine ⟨Nat.add_le_add_left later _, fun replaced => Nat.add_lt_add_left (more ?_) _⟩
          simpa using replaced
      | replaced typed markup =>
          obtain ⟨unmarked, some⟩ := marked typed markup (List.mem_cons_self ..)
          have none : typed.count '\\' = 0 := List.count_eq_zero.mpr unmarked
          have one : 0 < markup.count '\\' := List.count_pos_iff.mpr some
          simp only [Segment.typed, Segment.shown]
          constructor <;> omega

/-- A formula with a transposed variable is not displayed as it is typed. -/
theorem not_transposes_of_renderExpanded (copied : renderExpanded ν store text = .ok text) :
    ¬ Transposes store (Token.list text) := by
  intro transposed
  have marked : ∀ typed markup, .replaced typed markup ∈ segmentsOf ν store text →
      '\\' ∉ typed ∧ '\\' ∈ markup := by
    intro typed markup member
    obtain ⟨name, mark, tensor, ⟨rfl, isMark, -, rfl⟩, identifier⟩ :=
      exists_identifier_of_replaced ⟨0, text, rfl⟩ typed markup member
    exact ⟨not_mem_typed identifier isMark, mem_transposedLatex tensor⟩
  have more := (count_typedText_le marked).2 (exists_replaced_of_transposes ν transposed)
  rw [typedText_segmentsOf] at more
  have shown : render (.expanded store) (shownText (segmentsOf ν store text)) = .ok text := by
    unfold renderExpanded at copied
    simp only at copied
    split at copied
    · next done => rw [done, copied]
    · cases copied
  exact absurd (count_le_of_render shown) (Nat.not_le.mpr more)

/-! ## Commands that are copied -/

/-- A command is copied, whatever is stored, exactly when its groups have no transposed
variable. -/
theorem renderExpanded_command_iff (ν : Type) [Numeral ν] (store : Store) {name : Text}
    {groups : List Text} (letters : name.all Char.isAlpha) (other : name ≠ "begin")
    (balanced : ∀ group ∈ groups, Balanced group) :
    renderExpanded ν store (commandText name groups []) = .ok (commandText name groups []) ↔
      ¬ Transposes store (Token.list (commandText name groups [])) := by
  refine ⟨not_transposes_of_renderExpanded, fun untouched => ?_⟩
  have alone : StandsAlone (commandText name groups []) :=
    standsAlone_command letters other balanced (by simp)
  unfold renderExpanded
  simp only [shownText_of_not_transposes untouched, (alone.copied (.expanded store)).alone]

/-- A fraction of a power of a variable is copied, and one of a transposed variable is not. -/
theorem renderExpanded_command_iff_fraction :
    renderExpanded Float Formula.letters (commandText "frac" ["a^2", "b"] []) =
        .ok (commandText "frac" ["a^2", "b"] []) ∧
      renderExpanded Float Formula.letters (commandText "frac" ["a ^ t", "b"] []) ≠
        .ok (commandText "frac" ["a ^ t", "b"] []) := by
  have power : ∀ group ∈ [("a^2" : Text), "b"], Balanced group := by decide
  have marked : ∀ group ∈ [("a ^ t" : Text), "b"], Balanced group := by decide
  have copied := @renderExpanded_command_iff Float _ Formula.letters "frac" _ (by decide)
    (by decide) power
  have changed := @renderExpanded_command_iff Float _ Formula.letters "frac" _ (by decide)
    (by decide) marked
  exact ⟨copied.mpr (by decide +kernel), fun same => changed.mp same (by decide +kernel)⟩

/-- The value of the transposed variable is displayed in the fraction. -/
theorem not_copied_transposed :
    Balanced "a^T" ∧ Balanced "2" ∧
      renderExpanded Float Formula.letters (commandText "frac" ["a^T", "2"] []) =
        .ok "\\frac\x7b\\begin\x7bpmatrix\x7dx\\end\x7bpmatrix\x7d\x7d\x7b2\x7d" ∧
      renderExpanded Float Formula.letters (commandText "frac" ["a^T", "2"] []) ≠
        .ok (commandText "frac" ["a^T", "2"] []) := by
  have shown : renderExpanded Float Formula.letters (commandText "frac" ["a^T", "2"] []) =
      .ok "\\frac\x7b\\begin\x7bpmatrix\x7dx\\end\x7bpmatrix\x7d\x7d\x7b2\x7d" := by
    decide +kernel
  refine ⟨by decide, by decide, shown, fun copied => ?_⟩
  exact absurd (shown.symm.trans copied) (by decide +kernel)

end MatrixFormula.Markup
