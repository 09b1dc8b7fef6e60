import MatrixFormula.Markup.Expansion
import MatrixFormula.Proofs.Markup.Enclosed
import MatrixFormula.Proofs.Markup.Spelling
import MatrixFormula.Proofs.Store
import MatrixFormula.Proofs.Text.Token

/-!
# The words of a formula with replaced pieces

Every transposed variable of a formula is one of its pieces, and all other pieces are single
tokens. When something that is read as one word is written for each transposed variable, no
piece grows together with its neighbours: the words of the text that is written are the tokens
that were kept and the words that stand in for the variables.
-/

namespace MatrixFormula.Markup

/-- A mark of transposition as it is typed, with blanks before the caret and the letter. -/
inductive IsMark : Text → Prop where
  | intro {before between : Text} {letter : Char} (blank : ∀ char ∈ before, Text.isBlank char)
      (gap : ∀ char ∈ between, Text.isBlank char) (marks : letter = 'T' ∨ letter = 't') :
      IsMark (before ++ '^' :: (between ++ [letter]))

/-- The pieces of a text: the tokens that are kept, and the variables with a mark behind them. -/
inductive Segmented (ν : Type) [Numeral ν] (store : Store) : Text → List Segment → Prop where
  | nil : Segmented ν store [] []
  | kept {char : Char} {run rest : Text} {pieces : List Segment} (plain : char ≠ '\\')
      (inside : ∀ other ∈ run, (Token.Kind.ofHead char).continuedBy other)
      (ends : ∀ other ∈ rest.head?, (Token.Kind.ofHead char).continuedBy other = false)
      (others : Segmented ν store rest pieces) :
      Segmented ν store (char :: run ++ rest) (.kept (char :: run) :: pieces)
  | replaced {name mark rest : Text} {tensor : Tensor} {pieces : List Segment}
      (identifier : Token.isIdentifier name) (known : store.get? name = some tensor)
      (marked : IsMark mark) (ends : ∀ other ∈ rest.head?, Token.continuesName other = false)
      (others : Segmented ν store rest pieces) :
      Segmented ν store (name ++ mark ++ rest)
        (.replaced (name ++ mark) (tensor.transposedLatex ν) :: pieces)

variable {ν : Type} [Numeral ν] {store : Store} {text : Text} {offset : Nat}
  {tokens after : List Token} {pieces : List Segment}

/-- A name ends where a mark of transposition starts. -/
theorem IsMark.ends {mark : Text} (marked : IsMark mark) (rest : Text) :
    ∀ other ∈ (mark ++ rest).head?, Token.continuesName other = false := by
  obtain @⟨before, between, letter, blank, gap, marks⟩ := marked
  intro other first
  cases before with
  | nil =>
      obtain rfl := Option.some.inj first
      rfl
  | cons char before =>
      obtain rfl := Option.some.inj first
      refine Bool.eq_false_iff.mpr fun inside => ?_
      have shown := Token.not_isBlank_of_continuesName inside
      rw [blank char (by simp)] at shown
      cases shown

/-! ## Formulas are cut into pieces -/

/-- Tokens start with some blank ones, which may be dropped. -/
theorem dropWhile_isBlankToken (tokens : List Token) :
    ∃ blanks, (∀ token ∈ blanks, token.kind = .blank) ∧
      tokens = blanks ++ tokens.dropWhile isBlankToken := by
  refine ⟨tokens.takeWhile isBlankToken, fun token member => ?_, ?_⟩
  · simpa [isBlankToken] using List.mem_takeWhile_imp member
  · exact List.takeWhile_append_dropWhile.symm

/-- The tokens of a mark of transposition. -/
theorem exists_of_afterTranspose? (found : afterTranspose? tokens = some after) :
    ∃ before caret between letter, tokens = before ++ caret :: between ++ letter :: after ∧
      (∀ token ∈ before, token.kind = .blank) ∧ caret.kind = .caret ∧
      (∀ token ∈ between, token.kind = .blank) ∧ letter.kind = .name ∧
      (letter.lexeme = ['T'] ∨ letter.lexeme = ['t']) := by
  unfold afterTranspose? at found
  split at found
  · cases found
  · next caret more spread =>
      split at found
      · cases found
      · next letter rest closer =>
          obtain ⟨before, blank, parts⟩ := dropWhile_isBlankToken tokens
          obtain ⟨between, gap, inner⟩ := dropWhile_isBlankToken more
          rw [spread] at parts
          rw [closer] at inner
          split at found
          · next sign =>
              cases found
              exact ⟨before, caret, between, letter, by simp [parts, ← inner], blank, sign.1, gap,
                sign.2⟩
          · cases found

/-- The tokens behind a mark of transposition are the last ones. -/
theorem suffix_of_afterTranspose? (found : afterTranspose? tokens = some after) :
    after <:+ tokens := by
  obtain ⟨before, caret, between, letter, parts, -⟩ := exists_of_afterTranspose? found
  exact ⟨before ++ caret :: between ++ [letter], by simp [parts]⟩

/-- Blank tokens spell blanks. -/
theorem isBlank_of_tokens (cut : ∀ token ∈ tokens, token ∈ Token.listFrom offset text)
    (blank : ∀ token ∈ tokens, token.kind = .blank) :
    ∀ char ∈ tokens.flatMap Token.lexeme, Text.isBlank char := by
  intro char member
  obtain ⟨token, among, inside⟩ := List.mem_flatMap.mp member
  obtain ⟨first, run, spelled, kind, all⟩ := Token.exists_of_mem_listFrom (cut token among)
  rw [blank token among] at kind all
  rw [spelled] at inside
  rcases List.mem_cons.mp inside with rfl | later
  · exact (Token.Kind.class_of_ofHead char).1 kind.symm
  · exact all char later

/-- A caret is a token by itself. -/
theorem lexeme_of_caret {token : Token} (cut : token ∈ Token.listFrom offset text)
    (caret : token.kind = .caret) : token.lexeme = ['^'] := by
  obtain ⟨first, run, spelled, kind, all⟩ := Token.exists_of_mem_listFrom cut
  rw [caret] at kind all
  have none : run = [] := List.eq_nil_iff_forall_not_mem.mpr fun other inside => by
    simpa [Token.Kind.continuedBy] using all other inside
  rw [spelled, none, (Token.Kind.class_of_ofHead first).2.2.2 kind.symm]

/-- The tokens of a mark of transposition spell one, and no name goes on behind it. -/
theorem exists_isMarkof_afterTranspose?
    (found : afterTranspose? (Token.listFrom offset text) = some after) :
    ∃ front mark rest, Token.listFrom offset text = front ++ after ∧
      front.flatMap Token.lexeme = mark ∧ IsMark mark ∧ text = mark ++ rest ∧
      (∀ other ∈ rest.head?, Token.continuesName other = false) ∧
      after = Token.listFrom (offset + Text.byteSize mark) rest := by
  obtain ⟨before, caret, between, letter, parts, blank, sign, gap, named, marks⟩ :=
    exists_of_afterTranspose? found
  have cut : ∀ token ∈ before ++ caret :: between ++ letter :: after,
      token ∈ Token.listFrom offset text := fun token member => parts ▸ member
  obtain ⟨rest, spelled, last⟩ := Token.listFrom_of_append parts
  have front : (before ++ caret :: between).flatMap Token.lexeme =
      before.flatMap Token.lexeme ++ '^' :: between.flatMap Token.lexeme := by
    rw [List.flatMap_append, List.flatMap_cons, lexeme_of_caret (cut caret (by simp)) sign]
    rfl
  cases rest with
  | nil => simp [Token.listFrom] at last
  | cons char rest =>
      rw [Token.listFrom_cons] at last
      obtain ⟨same, later⟩ := List.cons.inj last
      have kind : Token.Kind.ofHead char = .name := by rw [← named, same]
      have run : letter.lexeme = char :: rest.takeWhile Token.continuesName := by
        rw [same, kind]
        rfl
      rw [run] at marks
      obtain ⟨alone, marks⟩ :
          rest.takeWhile Token.continuesName = [] ∧ (char = 'T' ∨ char = 't') := by
        rcases marks with same | same <;> obtain ⟨rfl, none⟩ := List.cons.inj same <;> simp [none]
      have whole : rest.dropWhile Token.continuesName = rest := by
        simpa [alone] using @List.takeWhile_append_dropWhile _ Token.continuesName rest
      have ends := (Text.eq_run_append Token.continuesName char rest).2
      rw [whole] at ends
      have all : (before ++ caret :: between ++ [letter]).flatMap Token.lexeme =
          (before ++ caret :: between).flatMap Token.lexeme ++ [char] := by
        rw [List.flatMap_append, List.flatMap_singleton, run, alone]
      refine ⟨before ++ caret :: between ++ [letter], _, rest, ?_, rfl, ?_, ?_, ends, ?_⟩
      · rw [parts]
        simp
      · rw [all, front, List.append_assoc, List.cons_append]
        refine .intro (isBlank_of_tokens (fun token member => cut token ?_) blank)
          (isBlank_of_tokens (fun token member => cut token ?_) gap) marks <;> simp [member]
      · rw [all, spelled, List.append_assoc]
        rfl
      · rw [later, kind, all, Text.byteSize_append, ← Nat.add_assoc]
        show Token.listFrom (_ + Text.byteSize (char :: rest.takeWhile Token.continuesName))
          (rest.dropWhile Token.continuesName) = _
        rw [alone, whole]

/-- A variable in front of a mark of transposition is a piece of the formula. -/
theorem segmented_replaced {char : Char} {run rest : Text} {tensor : Tensor}
    (named : Token.isIdentifier (char :: run)) (known : store.get? (char :: run) = some tensor)
    (marked : afterTranspose? (Token.listFrom offset rest) = some after)
    (later : ∀ behind : Text, behind <:+ rest → ∀ offset,
      Segmented ν store behind (segments ν store (Token.listFrom offset behind))) :
    Segmented ν store (char :: run ++ rest)
      (.replaced
          (char :: run ++ ((Token.listFrom offset rest).take
            ((Token.listFrom offset rest).length - after.length)).flatMap Token.lexeme)
          (tensor.transposedLatex ν) :: segments ν store after) := by
  obtain ⟨front, mark, behind, cut, typed, isMark, spelled, stops, rfl⟩ :=
    exists_isMarkof_afterTranspose? marked
  simp only [cut, List.length_append, Nat.add_sub_cancel, List.take_left, typed]
  rw [spelled, ← List.append_assoc]
  exact .replaced named known isMark stops (later behind ⟨mark, spelled.symm⟩ _)

/-- The pieces of a formula without a backslash. -/
theorem segmented_segments (plain : '\\' ∉ text) (offset : Nat) :
    Segmented ν store text (segments ν store (Token.listFrom offset text)) := by
  induction size : text.length using Nat.strongRecOn generalizing text offset with
  | ind bound ih =>
      cases text with
      | nil =>
          rw [Token.listFrom, segments]
          exact .nil
      | cons char rest =>
          obtain ⟨head, tail⟩ := not_or.mp (mt List.mem_cons.mpr plain)
          have later {behind : Text} (suffix : behind <:+ rest) (offset : Nat) :
              Segmented ν store behind (segments ν store (Token.listFrom offset behind)) :=
            ih _ (size ▸ Nat.lt_succ_of_le suffix.length_le)
              (fun member => tail (suffix.subset member)) offset rfl
          have inside : ∀ other ∈ rest.takeWhile (Token.Kind.ofHead char).continuedBy,
              (Token.Kind.ofHead char).continuedBy other := fun _ => List.mem_takeWhile_imp
          obtain ⟨parts, ends⟩ := Text.eq_run_append (Token.Kind.ofHead char).continuedBy char rest
          have kept (offset : Nat) := Segmented.kept (Ne.symm head) inside ends
            (later (List.dropWhile_suffix _) offset)
          rw [← parts] at kept
          rw [Token.listFrom_cons, segments]
          split
          · exact kept _
          · next tensor found =>
              split
              · exact kept _
              · next after marked =>
                  obtain ⟨named, known⟩ : Token.Kind.ofHead char = .name ∧
                      store.get? (char :: rest.takeWhile (Token.Kind.ofHead char).continuedBy) =
                        some tensor := by
                    split at found
                    · exact ⟨‹_›, found⟩
                    · cases found
                  have identifier := Token.isIdentifier_run
                    ((Token.Kind.class_of_ofHead char).2.1 named) rest
                  rw [parts]
                  rw [named] at marked known ⊢
                  exact segmented_replaced identifier known marked fun behind suffix =>
                    later (suffix.trans (List.dropWhile_suffix _))

/-- A piece that is kept is a token. -/
theorem exists_token_of_kept {kept : Text} (member : .kept kept ∈ segments ν store tokens) :
    ∃ token ∈ tokens, token.lexeme = kept := by
  induction size : tokens.length using Nat.strongRecOn generalizing tokens with
  | ind bound ih =>
      cases tokens with
      | nil =>
          rw [segments] at member
          cases member
      | cons token rest =>
          have later {behind : List Token} (suffix : behind <:+ rest)
              (member : .kept kept ∈ segments ν store behind) :
              ∃ found ∈ token :: rest, found.lexeme = kept := by
            obtain ⟨found, among, same⟩ :=
              ih _ (size ▸ Nat.lt_succ_of_le suffix.length_le) member rfl
            exact ⟨found, List.mem_cons_of_mem _ (suffix.subset among), same⟩
          have first (member : .kept kept ∈ .kept token.lexeme :: segments ν store rest) :
              ∃ found ∈ token :: rest, found.lexeme = kept := by
            rcases List.mem_cons.mp member with same | member
            · exact ⟨token, by simp, (Segment.kept.inj same).symm⟩
            · exact later (List.suffix_refl rest) member
          rw [segments] at member
          split at member
          · exact first member
          · split at member
            · exact first member
            · next after found =>
                exact later (suffix_of_afterTranspose? found) (by simpa using member)

/-! ## What is written for the pieces -/

/-- The text of a piece when a text is written in place of what was replaced. -/
def Segment.written (write : Text → Text → Text) : Segment → Text
  | .kept text => text
  | .replaced typed markup => write typed markup

/-- The text of a formula when texts are written in place of its replaced pieces. -/
def writtenText (write : Text → Text → Text) (pieces : List Segment) : Text :=
  pieces.flatMap (Segment.written write)

/-- What is shown is written with the markup of each variable. -/
theorem writtenText_shown (pieces : List Segment) :
    writtenText (fun _ markup => markup) pieces = shownText pieces := by
  refine congrArg (fun text => List.flatMap text pieces) (funext fun piece => ?_)
  cases piece <;> rfl

/-- A text that can be written in place of a name: it starts a word wherever a name does, and the
word is all of it wherever the name would be all of its word. -/
def StandsForName (text : Text) : Prop :=
  ∃ first run, text = first :: run ∧ (first = '\\' ∨ Token.startsName first) ∧
    ∀ rest : Text, (∀ char ∈ rest.head?, Token.continuesName char = false) →
      cutWord first (run ++ rest) = (run, rest)

/-- A block may stand in the place of a name. -/
theorem IsBlock.standsForName (block : IsBlock text) : StandsForName text := by
  obtain ⟨run, rfl, cut⟩ := block
  exact ⟨'\\', run, rfl, .inl rfl, cut⟩

/-- A name may stand in the place of a name. -/
theorem standsForName_of_isIdentifier (identifier : Token.isIdentifier text) :
    StandsForName text := by
  obtain ⟨char, run, rfl, starts, inside⟩ := Token.exists_of_isIdentifier identifier
  refine ⟨char, run, rfl, .inr starts, fun rest ends => ?_⟩
  have span := Text.span_run inside ends
  rw [cutWord, Token.Kind.ofHead_of_startsName starts]
  exact Prod.ext span.1 span.2

/-- Whether what is written in place of every replaced piece is read as one word. -/
def Readable (write : Text → Text → Text) (pieces : List Segment) : Prop :=
  ∀ typed markup, .replaced typed markup ∈ pieces → StandsForName (write typed markup)

variable {write : Text → Text → Text}

/-- What is written starts like the formula, or with a word where a name starts. -/
theorem Segmented.head_written (segmented : Segmented ν store text pieces)
    (readable : Readable write pieces) :
    ∀ char ∈ (writtenText write pieces).head?, char ∈ text.head? ∨
      (char = '\\' ∨ Token.startsName char) ∧ ∃ other ∈ text.head?, Token.startsName other := by
  intro char first
  cases segmented with
  | nil => cases first
  | kept plain inside ends others => exact .inl first
  | @replaced name mark rest tensor pieces identifier known marked ends others =>
      obtain ⟨head, run, spelled, starts, -⟩ := readable _ _ (List.mem_cons_self ..)
      rw [writtenText, List.flatMap_cons, Segment.written, spelled] at first
      obtain rfl := Option.some.inj first
      obtain ⟨letter, name, rfl, named, -⟩ := Token.exists_of_isIdentifier identifier
      exact .inr ⟨starts, letter, rfl, named⟩

/-- A token that a letter does not continue is continued by no letter and by no backslash. -/
theorem continuedBy_of_startsName {kind : Token.Kind} {char other : Char}
    (letter : Token.startsName other) (stops : kind.continuedBy other = false)
    (starts : char = '\\' ∨ Token.startsName char) : kind.continuedBy char = false := by
  rcases starts with rfl | starts
  · cases kind <;> rfl
  · have inside : Token.continuesName char := by simp [Token.continuesName, starts]
    cases kind with
    | blank => exact Token.not_isBlank_of_continuesName inside
    | name => simp [Token.Kind.continuedBy, Token.continuesName, letter] at stops
    | number =>
        refine Bool.eq_false_iff.mpr fun digit => ?_
        rw [Token.not_startsName_of_inNumber digit] at starts
        cases starts
    | _ => rfl

/-- A token ends in front of what is written where it ends in front of the formula. -/
theorem Segmented.ends_written (segmented : Segmented ν store text pieces)
    (readable : Readable write pieces) {kind : Token.Kind}
    (ends : ∀ char ∈ text.head?, kind.continuedBy char = false) :
    ∀ char ∈ (writtenText write pieces).head?, kind.continuedBy char = false := by
  intro char first
  rcases segmented.head_written readable char first with same | ⟨starts, other, before, letter⟩
  · exact ends char same
  · exact continuedBy_of_startsName letter (ends other before) starts

/-- A name in front of the pieces ends where it did in front of the text. -/
theorem Segmented.ends_name (segmented : Segmented ν store text pieces)
    (readable : Readable write pieces)
    (ends : ∀ char ∈ text.head?, Token.continuesName char = false) :
    ∀ char ∈ (writtenText write pieces).head?, Token.continuesName char = false :=
  @Segmented.ends_written _ _ _ _ _ _ segmented readable .name ends

/-- A formula with its values filled in is displayed as the text that is shown for its pieces. -/
theorem mapError_renderExpanded (ν : Type) [Numeral ν] (store : Store) (source : Text) :
    (renderExpanded ν store source).mapError Diagnostic.fault =
      (render (.expanded store) (shownText (segmentsOf ν store source))).mapError
        Diagnostic.fault := by
  rw [renderExpanded]
  cases render (.expanded store) (shownText (segmentsOf ν store source)) <;> rfl

/-- Whether the markup of every value is delimited by its own commands and braces. -/
def EnclosedStore (store : Store) : Prop := ∀ entry ∈ store.entries, Enclosed entry.2

instance (store : Store) : Decidable (EnclosedStore store) :=
  inferInstanceAs (Decidable (∀ entry ∈ store.entries, Enclosed entry.2))

/-- A store with a matrix that has no cells. -/
def sized : Store :=
  Store.empty.insert ['A'] (.placeholder (.symbolic "n_\x7b1\x7d") (.symbolic ['m']))

/-- Whether the markup of every replaced piece is one block. -/
def Blocks (pieces : List Segment) : Prop :=
  ∀ typed markup, .replaced typed markup ∈ pieces → IsBlock markup

/-- The pieces behind others are blocks as well. -/
theorem Blocks.tail {piece : Segment} (blocks : Blocks (piece :: pieces)) : Blocks pieces :=
  fun typed markup member => blocks typed markup (List.mem_cons_of_mem _ member)

/-- Pieces that are blocks are read as operands. -/
theorem Blocks.readable (blocks : Blocks pieces) : Readable (fun _ markup => markup) pieces :=
  fun typed markup member => (blocks typed markup member).standsForName

/-- The markup that replaces a transposed variable is one block. -/
theorem Segmented.blocks (segmented : Segmented ν store text pieces)
    (unmarked : ∀ value : ν, '\\' ∉ Numeral.write value) (enclosed : EnclosedStore store) :
    Blocks pieces := by
  induction segmented with
  | nil => exact nofun
  | kept _ _ _ _ ih =>
      intro typed markup member
      exact ih typed markup (by simpa using member)
  | @replaced name mark rest tensor _ _ known _ _ _ ih =>
      intro typed markup member
      rcases List.mem_cons.mp member with same | later
      · obtain ⟨rfl, rfl⟩ := Segment.replaced.inj same
        have stored := Store.mem_entries_iff.mpr known
        exact (enclosed (name, tensor) stored).isBlock_transposedLatex unmarked
      · exact ih typed markup later

/-- A token that is kept is the first word of what is written, unless it is blank. -/
theorem lexemes_kept {char : Char} {run : Text} (plain : char ≠ '\\')
    (inside : ∀ other ∈ run, (Token.Kind.ofHead char).continuedBy other)
    (ends : ∀ other ∈ text.head?, (Token.Kind.ofHead char).continuedBy other = false)
    (others : Segmented ν store text pieces) (readable : Readable write pieces) (offset : Nat) :
    lexemes offset (writtenText write (.kept (char :: run) :: pieces)) =
      firstWord offset char run ++
        lexemes (offset + Text.byteSize (char :: run)) (writtenText write pieces) :=
  lexemes_token (fun kind => plain (eq_of_ofHead_backslash kind)) inside
    (others.ends_written readable ends)

/-- A block is the first word of what is written. -/
theorem lexemes_block {block rest : Text} (isBlock : IsBlock block)
    (ends : ∀ other ∈ rest.head?, Token.continuesName other = false) (offset : Nat) :
    lexemes offset (block ++ rest) =
      ⟨.block, block, .ofText offset block⟩ :: lexemes (offset + block.byteSize) rest := by
  obtain ⟨run, rfl, cut⟩ := isBlock
  have first : cutWord '\\' (run ++ rest) = (run, rest) := cut rest ends
  rw [List.cons_append, lexemes_cons, first]
  rfl

/-- A variable with a mark of transposition is three words. -/
theorem lexemes_transposed {name mark rest : Text} (identifier : Token.isIdentifier name)
    (marked : IsMark mark) (ends : ∀ other ∈ rest.head?, Token.continuesName other = false)
    (offset : Nat) :
    ∃ first caret last : Lexeme,
      first.word = .name ∧ caret.word = .caret ∧ last.word = .name ∧
      lexemes offset (name ++ mark ++ rest) =
        first :: caret :: last :: lexemes (offset + Text.byteSize (name ++ mark)) rest := by
  have stops := marked.ends rest
  obtain @⟨before, between, letter, blank, gap, marks⟩ := marked
  have parts : before ++ '^' :: (between ++ [letter]) ++ rest =
      before ++ '^' :: (between ++ ([letter] ++ rest)) := by simp
  have last : Token.isIdentifier [letter] := by rcases marks with rfl | rfl <;> rfl
  rw [List.append_assoc, lexemes_name identifier stops, parts, lexer.append_blanks blank,
    lexemes_single (by rfl), lexer.append_blanks gap, lexemes_name last ends]
  refine ⟨_, _, _, ?_, ?_, ?_, congrArg (_ :: _ :: _ :: lexemes · rest) ?_⟩
  · rfl
  · rfl
  · rfl
  · simp only [Text.byteSize_append, Text.byteSize_cons, Nat.add_assoc]

end MatrixFormula.Markup
