import MatrixFormula.Proofs.Text.Region
import MatrixFormula.Proofs.Text.Token

/-!
# Longest matches

Every kind of token has a pattern: blanks, names and numbers are runs, and all others are single
characters. A tokenizer takes the longest text that some pattern matches, and the pattern of any
other single character only when no other pattern matches that text. The tokens of a source are
what this rule gives, they take up the whole source, and no other list of tokens does both.
-/

namespace MatrixFormula

/-- A text is cut into two parts in one way when the size of the first part is known. -/
theorem Text.append_inj_of_byteSize {left right front back : Text}
    (same : left ++ right = front ++ back) (size : left.byteSize = front.byteSize) :
    left = front ∧ right = back := by
  rcases List.append_eq_append_iff.mp same with ⟨between, rfl, rfl⟩ | ⟨between, rfl, rfl⟩
  · obtain rfl : between = [] := by simpa using size
    simp
  · obtain rfl : between = [] := by simpa using size
    simp

namespace Token

/-- The characters that are tokens of a kind by themselves. -/
def Kind.marks : Kind → List Char
  | .plus => ['+']
  | .minus => ['-']
  | .times => ['*']
  | .dot => ['·', '⋅', '•']
  | .slash => ['/']
  | .caret => ['^']
  | .equals => ['=']
  | .openParen => ['(']
  | .closeParen => [')']
  | .backslash => ['\\']
  | .blank | .name | .number | .symbol => []

/-- Whether the pattern of a kind matches a text. That of a symbol matches every single character
but a line break. -/
def Kind.admits : Kind → Text → Bool
  | .blank, text => !text.isEmpty && text.all Text.isBlank
  | .name, text => isIdentifier text
  | .number, text => !text.isEmpty && text.all inNumber
  | .symbol, [char] => char != '\n'
  | kind, [char] => kind.marks.contains char
  | _, _ => false

/-- The token is what the source holds at its region, and the longest that any pattern matches
there. No pattern but that of a symbol matches the same text. -/
structure Scanned (source : Text) (token : Token) : Prop where
  quotes : token.span.Quotes source token.lexeme
  admitted : token.kind.admits token.lexeme
  longest : ∀ passed rest, source = passed ++ rest → passed.byteSize = token.span.start →
    ∀ (kind : Kind) (front : Text), front <+: rest → kind.admits front →
      front.length ≤ token.lexeme.length
  ranked : ∀ kind, kind.admits token.lexeme → kind = token.kind ∨ kind = .symbol

/-- The tokens take up the region from one place to another, each directly behind the one before
it, and none of them is empty. -/
def Tile (place : Nat) : List Token → Nat → Prop
  | [], last => place = last
  | token :: tokens, last =>
      token.span.start = place ∧ place < token.span.stop ∧ Tile token.span.stop tokens last

variable {char : Char} {rest text front : Text} {kind : Kind}

theorem Kind.ofHead_of_mem_marks (mark : char ∈ kind.marks) : ofHead char = kind := by
  cases kind <;> simp only [marks, List.mem_cons, List.not_mem_nil, or_false] at mark
  case dot => rcases mark with rfl | rfl | rfl <;> rfl
  all_goals subst mark; rfl

/-- The first character of a text decides which patterns may match it, and a pattern other than
that of a symbol matches what continues the token. -/
theorem Kind.of_admits (admitted : kind.admits (char :: front)) :
    (kind = ofHead char ∧ ∀ other ∈ front, kind.continuedBy other) ∨
      kind = .symbol ∧ front = [] := by
  cases kind with
  | blank =>
      simp only [admits, List.isEmpty_cons, Bool.not_false, Bool.true_and, List.all_cons,
        Bool.and_eq_true, List.all_eq_true] at admitted
      exact .inl ⟨(ofHead_of_isBlank admitted.1).symm, admitted.2⟩
  | name =>
      simp only [admits, isIdentifier, Bool.and_eq_true, List.all_eq_true] at admitted
      exact .inl ⟨(ofHead_of_startsName admitted.1).symm, admitted.2⟩
  | number =>
      simp only [admits, List.isEmpty_cons, Bool.not_false, Bool.true_and, List.all_cons,
        Bool.and_eq_true, List.all_eq_true] at admitted
      exact .inl ⟨(ofHead_of_inNumber admitted.1).symm, admitted.2⟩
  | symbol =>
      cases front with
      | nil => exact .inr ⟨rfl, rfl⟩
      | cons _ _ => cases admitted
  | _ =>
      cases front with
      | nil => exact .inl ⟨(ofHead_of_mem_marks (List.contains_iff_mem.mp admitted)).symm, by simp⟩
      | cons _ _ => cases admitted

/-- The pattern of the kind that a character starts matches the character. -/
theorem Kind.admits_ofHead (char : Char) : (ofHead char).admits [char] := by
  unfold ofHead
  split
  · next blank => simp [admits, blank]
  · next shown =>
      split
      · next starts => simp [admits, isIdentifier, starts]
      · split
        · next digit => simp [admits, digit]
        · split <;> first
            | rfl
            | exact bne_iff_ne.mpr fun lineBreak => shown (lineBreak ▸ rfl)

/-- A pattern still matches when what continues a token of the kind follows. -/
theorem Kind.admits_cons (single : kind.admits [char])
    (inside : ∀ other ∈ front, kind.continuedBy other) : kind.admits (char :: front) := by
  cases kind with
  | blank | number => simp_all [admits, continuedBy]
  | name => simp_all [admits, isIdentifier, continuedBy]
  | _ =>
      cases front with
      | nil => exact single
      | cons other front => cases inside other (by simp)

/-! ## The tokens of a source -/

/-- The tokens of a text take up the text. -/
theorem tile_listFrom (offset : Nat) (text : Text) :
    Tile offset (listFrom offset text) (offset + text.byteSize) := by
  fun_induction listFrom offset text with
  | case1 => rfl
  | case2 offset char rest kind lexeme ih =>
      have some : 0 < lexeme.byteSize :=
        Nat.pos_of_ne_zero (mt Text.byteSize_eq_zero_iff.mp (List.cons_ne_nil _ _))
      refine ⟨rfl, Nat.lt_add_of_pos_right some, ?_⟩
      rw [(Text.eq_run_append kind.continuedBy char rest).1, Text.byteSize_append, ← Nat.add_assoc]
      exact ih

/-- The token that a text starts with is what the source holds there. -/
theorem scanned_head (passed : Text) (char : Char) (rest : Text) :
    Scanned (passed ++ char :: rest)
      ⟨.ofHead char, char :: rest.takeWhile (Kind.ofHead char).continuedBy,
        .ofText passed.byteSize (char :: rest.takeWhile (Kind.ofHead char).continuedBy)⟩ where
  quotes := by
    refine ⟨passed, rest.dropWhile (Kind.ofHead char).continuedBy, ?_, rfl⟩
    rw [List.append_assoc, ← (Text.eq_run_append _ char rest).1]
  admitted := Kind.admits_cons (Kind.admits_ofHead char) fun _ => List.mem_takeWhile_imp
  longest := by
    intro other text same size kind front starts admitted
    obtain ⟨rfl, rfl⟩ := Text.append_inj_of_byteSize same size.symm
    cases front with
    | nil => exact Nat.zero_le _
    | cons first front =>
        obtain ⟨rfl, behind, rfl⟩ := List.cons_prefix_cons.mp starts
        rcases Kind.of_admits admitted with ⟨rfl, inside⟩ | ⟨-, rfl⟩
        · rw [List.takeWhile_append_of_pos inside]
          simp
        · simp
  ranked _ admitted := (Kind.of_admits admitted).imp And.left And.left

/-- The tokens of a text are what a source that ends with the text holds there. -/
theorem scanned_listFrom (passed text : Text) :
    ∀ token ∈ listFrom passed.byteSize text, token.Scanned (passed ++ text) := by
  generalize same : passed.byteSize = offset
  fun_induction listFrom offset text generalizing passed with
  | case1 => simp
  | case2 offset char rest kind lexeme ih =>
      subst same
      have parts : char :: rest = lexeme ++ rest.dropWhile kind.continuedBy :=
        (Text.eq_run_append kind.continuedBy char rest).1
      have later := ih (passed ++ lexeme) (Text.byteSize_append ..)
      rw [List.append_assoc, ← parts] at later
      exact List.forall_mem_cons.mpr ⟨scanned_head passed char rest, later⟩

variable {source : Text} {token other : Token} {tokens : List Token}

/-- The source holds only one token at a place. -/
theorem Scanned.eq_of_start (first : token.Scanned source) (second : other.Scanned source)
    (start : token.span.start = other.span.start) : token = other := by
  obtain ⟨passed, behind, whole, place⟩ := first.quotes
  obtain ⟨front, others, whole', place'⟩ := second.quotes
  have size : passed.byteSize = front.byteSize := by
    simpa [place, place', Span.ofText] using start
  rw [List.append_assoc] at whole whole'
  obtain ⟨rfl, rest⟩ := Text.append_inj_of_byteSize (whole.symm.trans whole') size
  have here : token.lexeme <+: token.lexeme ++ behind := List.prefix_append ..
  have there : other.lexeme <+: token.lexeme ++ behind := rest ▸ List.prefix_append ..
  have longest := first.longest passed _ whole (by rw [place]; rfl) _ _ there second.admitted
  have least := second.longest passed _ whole (by rw [place']; rfl) _ _ here first.admitted
  have lexeme : token.lexeme = other.lexeme :=
    (List.prefix_of_prefix_length_le here there least).eq_of_length_le longest
  have kind : token.kind = other.kind := by
    rcases first.ranked _ (lexeme ▸ second.admitted) with same | symbol
    · exact same.symm
    · exact (second.ranked _ (lexeme ▸ first.admitted)).elim id (·.trans symbol.symm)
  cases token
  cases other
  simp_all

/-- Only the tokens of a text take it up and are what a source that ends with it holds there. -/
theorem eq_listFrom_of_tile (passed : Text)
    (tile : Tile passed.byteSize tokens (passed ++ text).byteSize)
    (scanned : ∀ token ∈ tokens, token.Scanned (passed ++ text)) :
    tokens = listFrom passed.byteSize text := by
  induction tokens generalizing passed text with
  | nil =>
      have none : text.byteSize = 0 := by simpa [Tile] using tile
      obtain rfl := Text.byteSize_eq_zero_iff.mp none
      rw [listFrom]
  | cons token tokens ih =>
      obtain ⟨start, nonempty, behind⟩ := tile
      obtain ⟨here, later⟩ := List.forall_mem_cons.mp scanned
      cases text with
      | nil =>
          have bounded := here.quotes.within.bounded
          rw [List.append_nil] at bounded
          exact absurd nonempty (Nat.not_lt.mpr bounded)
      | cons char rest =>
          obtain rfl := here.eq_of_start (scanned_head passed char rest) start
          have parts := (Text.eq_run_append (Kind.ofHead char).continuedBy char rest).1
          have tail := @ih (rest.dropWhile (Kind.ofHead char).continuedBy)
            (passed ++ char :: rest.takeWhile (Kind.ofHead char).continuedBy)
          rw [List.append_assoc, ← parts, Text.byteSize_append] at tail
          rw [listFrom_cons, ← tail behind later]

/-- The tokens of a source are the one list of tokens that takes up the source and has, at each
place, the longest text that a pattern matches there. -/
theorem eq_list_iff : tokens = list source ↔
    Tile 0 tokens source.byteSize ∧ ∀ token ∈ tokens, token.Scanned source := by
  constructor
  · rintro rfl
    have tile := tile_listFrom 0 source
    rw [Nat.zero_add] at tile
    exact ⟨tile, scanned_listFrom [] source⟩
  · rintro ⟨tile, scanned⟩
    exact eq_listFrom_of_tile [] tile scanned

end Token
end MatrixFormula
