import Mathlib.Data.List.Basic
import Mathlib.Data.List.TakeWhile
import Mathlib.Tactic.SplitIfs
import MatrixFormula.Markup.Node
import MatrixFormula.Proofs.Text.Character
import MatrixFormula.Proofs.Text.Separator

/-!
# Names are told apart

A name without a meaning of its own is displayed as a product of its letters, the last of them
with an index. Without the product dots, the letters and the index are found in the markup as
they stand in the name. So two such names are displayed alike only if they have the same letters
and the same index, which may start behind an underscore in one of them.
-/

namespace MatrixFormula.Markup

/-- The letters that a name starts with. -/
def initials (name : Text) : Text := name.takeWhile Char.isAlpha

/-- What a name has behind its first letters, without one leading underscore. -/
def index (name : Text) : Text :=
  match name.dropWhile Char.isAlpha with
  | '_' :: rest => rest
  | suffix => suffix

/-- A name that is not that of a function, and that has no Greek letter in front of its index. -/
structure Unreserved (name : Text) : Prop where
  identifier : Token.isIdentifier name
  function : Name.isFunction name = false
  letter : Name.greek? (initials name) = none

/-- A text with its underscores protected. -/
def escaped (text : Text) : Text :=
  text.flatMap fun char => if char = '_' then ['\\', '_'] else [char]

/-- An index as a subscript. -/
def indexMarkup (index : Text) : Text :=
  if index = [] then [] else '_' :: Latex.braced (escaped index)

/-- The factors of a displayed name. A name without letters has an empty group to bear its
index. -/
def nameFactors (letters index : Text) : List Text :=
  let all : List Text := letters.map fun char => [char]
  all.dropLast ++ [all.getLast?.getD (Latex.braced []) ++ indexMarkup index]

/-- The sign between the two spaces of a product dot. -/
def dotSign : Text := ['\\', 'c', 'd', 'o', 't']

/-- Markup without its product dots. -/
def withoutDots (markup : Text) : Text := (Text.splitOn Latex.productDot markup).flatten

variable {name run text : Text}

/-! ## Parts of a name -/

/-- The index of a name consists of characters of a name. -/
theorem Unreserved.continuesName_of_mem_index (unreserved : Unreserved name) :
    ∀ char ∈ index name, Token.continuesName char := by
  have inside := Token.continuesName_of_isIdentifier unreserved.identifier
  have suffix : ∀ char ∈ name.dropWhile Char.isAlpha, Token.continuesName char :=
    fun char member => inside char ((List.dropWhile_sublist _).subset member)
  unfold index
  split
  · next rest behind =>
      rw [behind] at suffix
      exact (List.forall_mem_cons.mp suffix).2
  · exact suffix

/-- A name starts with letters. -/
theorem isAlpha_of_mem_initials : ∀ char ∈ initials name, char.isAlpha :=
  fun _ member => List.mem_takeWhile_imp member

/-- A spelling of a Greek letter has letters only, so no such name is one. -/
theorem Unreserved.greek?_eq_none (unreserved : Unreserved name) : Name.greek? name = none := by
  have spellings : ∀ entry ∈ Name.greekLetters, entry.1.toList.all Char.isAlpha := by
    decide +kernel
  refine Option.eq_none_iff_forall_ne_some.mpr fun letter known => ?_
  obtain ⟨entry, found, rfl⟩ := Option.map_eq_some_iff.mp known
  have same : entry.1.toList = name := by simpa using List.find?_some found
  have whole : initials name = name :=
    List.takeWhile_eq_self_iff.mpr
      (List.all_eq_true.mp (same ▸ spellings entry (List.mem_of_find?_eq_some found)))
  have reserved := unreserved.letter
  rw [whole, known] at reserved
  cases reserved

/-- The index of a name is written as a subscript with its underscores escaped. -/
theorem subscriptText_eq (name : Text) :
    subscriptText (name.dropWhile Char.isAlpha) = escaped (index name) := by
  unfold subscriptText index
  split <;> simp_all [escaped]

/-- Only the empty text is escaped to nothing. -/
theorem escaped_eq_nil_iff : escaped text = [] ↔ text = [] := by
  refine ⟨fun none => ?_, fun empty => by rw [empty, escaped, List.flatMap_nil]⟩
  refine List.eq_nil_iff_forall_not_mem.mpr fun char member => ?_
  have written := List.flatMap_eq_nil_iff.mp none char member
  split_ifs at written

/-! ## The markup of a name -/

/-- A name without letters has an empty base. -/
theorem nameFactors_nil (index : Text) :
    nameFactors [] index = [Latex.braced [] ++ indexMarkup index] := rfl

/-- The last letter of a name carries the index. -/
theorem nameFactors_concat (front : Text) (last : Char) (index : Text) :
    nameFactors (front ++ [last]) index =
      front.map (fun char => [char]) ++ [last :: indexMarkup index] := by
  simp [nameFactors]

/-- A name is displayed as the product of its factors, whether it has an index or not. -/
theorem writeName_plain (unreserved : Unreserved name) :
    writeName .plain name =
      Text.joined Latex.productDot (nameFactors (initials name) (index name)) := by
  have symbol : symbol? .plain name = none := by
    rw [symbol?, unreserved.greek?_eq_none]
    rfl
  have front : factors .plain (initials name) = letters .plain (initials name) := by
    rw [factors, symbol?, unreserved.letter]
    rfl
  by_cases bare : name.dropWhile Char.isAlpha = []
  · have plain : index name = [] := by simp [index, bare]
    have whole : nameFactors (initials name) (index name) = letters .plain (initials name) := by
      rcases List.eq_nil_or_concat' (initials name) with none | ⟨front, last, spelled⟩
      · have empty : name = [] := by
          rw [← List.takeWhile_append_dropWhile (p := Char.isAlpha) (l := name), bare, ← initials,
            none, List.append_nil]
        exact absurd unreserved.identifier (by simp [empty, Token.isIdentifier])
      · rw [spelled, nameFactors_concat, plain]
        simp [letters, NameStyle.plain, indexMarkup]
    rw [writeName, unreserved.function, symbol, whole]
    simp [bare, initials]
  · have indexed (base : Text) : (if escaped (index name) = [] then base
        else Latex.subscript base (escaped (index name))) = base ++ indexMarkup (index name) := by
      simp only [escaped_eq_nil_iff, indexMarkup]
      split_ifs
      · rw [List.append_nil]
      · rfl
    rw [writeName, unreserved.function, symbol]
    simp only [Bool.false_eq_true, if_false, bare, subscriptText_eq, indexed]
    rw [← initials, front]
    rfl

/-- A backslash in an index protects an underscore, so no command starts there. -/
theorem not_infix_escaped {others rest : Text} (plain : '\\' ∉ text)
    (free : ¬ '\\' :: 'c' :: others <:+: rest) :
    ¬ '\\' :: 'c' :: others <:+: escaped text ++ rest := by
  induction text with
  | nil => exact free
  | cons char text ih =>
      obtain ⟨other, plain⟩ := not_or.mp (mt List.mem_cons.mpr plain)
      have later := ih plain
      have parts : escaped (char :: text) ++ rest =
          (if char = '_' then ['\\', '_'] else [char]) ++ (escaped text ++ rest) := by
        simp [escaped]
      rw [parts]
      split_ifs
      · simpa [List.infix_cons_iff, List.cons_prefix_cons] using later
      · simpa [List.infix_cons_iff, List.cons_prefix_cons, other] using later

/-- No factor of a displayed name has a product dot. -/
theorem not_infix_of_mem_nameFactors {factor : Text} (plain : '\\' ∉ run) (also : '\\' ∉ text)
    (member : factor ∈ nameFactors run text) : ¬ dotSign <:+: factor := by
  have bare {base : Text} (free : '\\' ∉ base) : ¬ dotSign <:+: base :=
    fun occurs => free (occurs.subset (by simp [dotSign]))
  have indexed (base : Text) (free : '\\' ∉ base) :
      ¬ dotSign <:+: base ++ indexMarkup text := by
    have around : '\\' ∉ base ++ ['_', '\x7b'] := by simp [free]
    have inside := mt (Text.infix_append_iff_of_notMem around (escaped text ++ ['\x7d'])).mp
      (not_infix_escaped also (bare (by decide)))
    unfold indexMarkup
    split_ifs
    · rw [List.append_nil]
      exact bare free
    · simpa [Latex.braced, dotSign] using inside
  rcases List.eq_nil_or_concat' run with rfl | ⟨front, last, rfl⟩
  · rw [nameFactors_nil, List.mem_singleton] at member
    exact member ▸ indexed _ (by decide)
  · rw [nameFactors_concat] at member
    obtain ⟨frontFree, lastFree⟩ := not_or.mp (mt List.mem_append.mpr plain)
    rcases List.mem_append.mp member with single | final
    · obtain ⟨char, inside, rfl⟩ := List.mem_map.mp single
      exact bare fun same => frontFree (List.mem_singleton.mp same ▸ inside)
    · rw [List.mem_singleton.mp final]
      exact indexed [last] lastFree

/-- The factors of a name spell its letters and its index. -/
theorem flatten_nameFactors (letters index : Text) :
    (nameFactors letters index).flatten =
      (if letters = [] then Latex.braced [] else letters) ++ indexMarkup index := by
  rcases List.eq_nil_or_concat' letters with rfl | ⟨front, last, rfl⟩
  · simp [nameFactors_nil]
  · simp [nameFactors_concat, ← List.flatMap_def]

/-- Without its product dots, the markup of a name has its letters in a row, and the index as a
subscript behind them. -/
theorem withoutDots_writeName (unreserved : Unreserved name) :
    withoutDots (writeName .plain name) =
      (if initials name = [] then Latex.braced [] else initials name) ++
        indexMarkup (index name) := by
  have plain {char : Char} (inside : Token.continuesName char) : char ≠ '\\' := by
    rintro rfl
    exact absurd inside (by decide)
  have letters : '\\' ∉ initials name := fun member =>
    absurd (isAlpha_of_mem_initials _ member) (by decide)
  have behind : '\\' ∉ index name := fun member =>
    plain (unreserved.continuesName_of_mem_index _ member) rfl
  have pieces : Text.splitOn Latex.productDot (writeName .plain name) =
      nameFactors (initials name) (index name) := by
    rw [writeName_plain unreserved]
    refine Text.splitOn_joined (show ' ' ∉ dotSign by decide) (by simp [nameFactors]) ?_
    exact fun factor => not_infix_of_mem_nameFactors letters behind
  rw [withoutDots, pieces, flatten_nameFactors]

/-! ## Reading a name from its markup -/

/-- The letters of a displayed name. -/
def readInitials (markup : Text) : Text := (withoutDots markup).takeWhile Char.isAlpha

/-- The index of a displayed name, behind the sign of a subscript. -/
def readIndex (markup : Text) : Text :=
  (((withoutDots markup).dropWhile Char.isAlpha).filter Token.continuesName).drop 1

/-- What is kept of an index does not depend on the backslashes that protect it. -/
theorem filter_escaped {keep : Char → Bool} (mark : keep '\\' = false) (text : Text) :
    (escaped text).filter keep = text.filter keep := by
  induction text with
  | nil => rfl
  | cons char text ih =>
      have head :
          (if char = '_' then ['\\', '_'] else [char]).filter keep = [char].filter keep := by
        split_ifs with same
        · simp [same, List.filter_cons, mark]
        · rfl
      rw [escaped, List.flatMap_cons, List.filter_append, head, ← escaped, ih, ← List.filter_append]
      rfl

/-- Without the characters of markup, an index is what it was. -/
theorem filter_indexMarkup {keep : Char → Bool} (mark : keep '\\' = false)
    (opening : keep '\x7b' = false) (closing : keep '\x7d' = false) (index : Text) :
    (indexMarkup index).filter keep =
      (if index = [] then [] else ['_']).filter keep ++ index.filter keep := by
  unfold indexMarkup
  split_ifs with none
  · simp [none]
  · have parts : '_' :: Latex.braced (escaped index) =
        ['_'] ++ (['\x7b'] ++ (escaped index ++ ['\x7d'])) := rfl
    rw [parts, List.filter_append, List.filter_append, List.filter_append, filter_escaped mark]
    simp [opening, closing]

/-- The letters and the index of a name are found in its markup. -/
theorem read_writeName (unreserved : Unreserved name) :
    readInitials (writeName .plain name) = initials name ∧
      readIndex (writeName .plain name) = index name := by
  have kept : (index name).filter Token.continuesName = index name :=
    List.filter_eq_self.mpr unreserved.continuesName_of_mem_index
  have filtered : ((indexMarkup (index name)).filter Token.continuesName).drop 1 = index name := by
    rw [filter_indexMarkup (by decide) (by decide) (by decide), kept]
    split_ifs with none
    · rw [none]
      rfl
    · rfl
  have ends : ∀ char ∈ (indexMarkup (index name)).head?, char.isAlpha = false := by
    unfold indexMarkup
    split_ifs <;> simp
  rw [readInitials, readIndex, withoutDots_writeName unreserved]
  split_ifs with none
  · -- the empty group has no letter, and nothing that a name could have
    rw [none]
    exact ⟨rfl, filtered⟩
  · obtain ⟨front, behind⟩ := Text.span_run isAlpha_of_mem_initials ends
    rw [front, behind]
    exact ⟨rfl, filtered⟩

/-- The letters and digits in the markup of a name, product dots aside, are those of the name. -/
theorem filter_withoutDots (unreserved : Unreserved name) :
    (withoutDots (writeName .plain name)).filter Char.isAlphanum = name.filter Char.isAlphanum := by
  have suffix : (index name).filter Char.isAlphanum =
      (name.dropWhile Char.isAlpha).filter Char.isAlphanum := by
    unfold index
    split
    · next behind => rw [behind]; rfl
    · rfl
  have front : (if initials name = [] then Latex.braced [] else initials name).filter
      Char.isAlphanum = (initials name).filter Char.isAlphanum := by
    split_ifs with none
    · rw [none]
      rfl
    · rfl
  have sign : (if index name = [] then [] else ['_'] : Text).filter Char.isAlphanum = [] := by
    split_ifs <;> rfl
  rw [withoutDots_writeName unreserved, List.filter_append, front,
    filter_indexMarkup (by decide) (by decide) (by decide), sign, suffix, List.nil_append,
    ← List.filter_append, initials, List.takeWhile_append_dropWhile]

/-- Names without a meaning of their own are displayed alike exactly when they have the same
letters in front and the same index behind, up to one underscore between the two. The markup shows
every letter and digit of a name, in the order of the name. -/
theorem writeName_tells_apart :
    (∀ name other, Unreserved name → Unreserved other →
      (writeName .plain name = writeName .plain other ↔
        initials name = initials other ∧ index name = index other)) ∧
    ∀ name, Unreserved name →
      (withoutDots (writeName .plain name)).filter Char.isAlphanum =
        name.filter Char.isAlphanum := by
  refine ⟨fun name other unreserved also => ⟨fun same => ?_, fun ⟨letters, behind⟩ => ?_⟩,
    fun _ => filter_withoutDots⟩
  · obtain ⟨letters, behind⟩ := read_writeName unreserved
    obtain ⟨otherLetters, otherBehind⟩ := read_writeName also
    exact ⟨letters.symm.trans (same ▸ otherLetters), behind.symm.trans (same ▸ otherBehind)⟩
  · rw [writeName_plain unreserved, writeName_plain also, letters, behind]

/-- Of two names with the same letters and digits, one has an underscore more. -/
theorem writeName_tells_apart_underscores :
    Unreserved "ab__1" ∧ Unreserved "ab_1" ∧
      writeName .plain "ab__1" ≠ writeName .plain "ab_1" ∧
      (withoutDots (writeName .plain "ab__1")).filter Char.isAlphanum = "ab1".toList := by
  have first : Unreserved "ab__1" := ⟨by decide, by decide, by decide⟩
  have second : Unreserved "ab_1" := ⟨by decide, by decide, by decide⟩
  refine ⟨first, second, fun same => ?_, writeName_tells_apart.2 _ first⟩
  exact absurd ((writeName_tells_apart.1 _ _ first second).mp same).2 (by decide)

end MatrixFormula.Markup
