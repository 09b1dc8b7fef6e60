import MatrixFormula.Proofs.Markup.Layout
import MatrixFormula.Proofs.Markup.Outline

/-!
# Brackets in displayed formulas

The markup of a formula has two kinds of brackets: braces, and parentheses that grow with what
they enclose. Wherever the names of a formula are written with brackets that nest, those of the
whole formula do.
-/

namespace MatrixFormula.Markup

/-- The kinds of brackets. -/
inductive BracketKind where
  | brace
  | parenthesis
deriving DecidableEq, Repr

/-- A bracket in a text. -/
inductive Bracket where
  | opening (kind : BracketKind)
  | closing (kind : BracketKind)
deriving DecidableEq, Repr

/-- The brackets of a text, from left to right. -/
def brackets : Text → List Bracket
  | [] => []
  | char :: rest =>
      if char = '\x7b' then .opening .brace :: brackets rest
      else if char = '\x7d' then .closing .brace :: brackets rest
      else if List.isPrefixOf "\\left(".toList (char :: rest) then
        .opening .parenthesis :: brackets rest
      else if List.isPrefixOf "\\right)".toList (char :: rest) then
        .closing .parenthesis :: brackets rest
      else brackets rest

/-- The brackets that are left open, the one opened last in front, when some are open already.
There is no answer when a bracket closes anything but the one that was opened last. -/
def unclosed : List BracketKind → List Bracket → Option (List BracketKind)
  | opened, [] => some opened
  | opened, .opening kind :: rest => unclosed (kind :: opened) rest
  | [], .closing _ :: _ => none
  | nearest :: opened, .closing kind :: rest =>
      if kind = nearest then unclosed opened rest else none

/-- Whether each bracket closes the one that was opened last, and none is left open. -/
def Closed (list : List Bracket) : Prop := unclosed [] list = some []

/-- Whether the brackets of a text nest. -/
def Nested (text : Text) : Prop := Closed (brackets text)

instance (text : Text) : Decidable (Nested text) :=
  inferInstanceAs (Decidable (unclosed [] (brackets text) = some []))

/-- Whether a style brings in no brackets but those that nest. -/
def NameStyle.Nests (style : NameStyle) : Prop :=
  ∀ name display markup, Nested display → style name display = some markup → Nested markup

/-! ## Sequences of brackets -/

variable {list others : List Bracket} {opened left : List BracketKind}

/-- The brackets that are open behind two sequences are those that the second one leaves open behind
the first one. -/
theorem unclosed_append (opened : List BracketKind) (list others : List Bracket) :
    unclosed opened (list ++ others) = (unclosed opened list).bind (unclosed · others) := by
  fun_induction unclosed opened list with
  | case1 => rfl
  | case2 opened kind rest ih => simpa [unclosed] using ih
  | case3 => rfl
  | case4 opened kind rest ih => simpa [unclosed] using ih
  | case5 nearest opened kind rest other => simp [unclosed, other]

/-- Brackets may be open around a sequence. -/
theorem unclosed_inside (closes : unclosed opened list = some left) (outer : List BracketKind) :
    unclosed (opened ++ outer) list = some (left ++ outer) := by
  fun_induction unclosed opened list with
  | case1 => cases closes; rfl
  | case2 opened kind rest ih => exact ih closes
  | case3 => cases closes
  | case4 opened kind rest ih => simpa [unclosed] using ih closes
  | case5 => cases closes

/-- Closed sequences may be joined. -/
theorem Closed.append (first : Closed list) (second : Closed others) : Closed (list ++ others) := by
  rw [Closed, unclosed_append, first, Option.bind_some, second]

/-- A closed sequence may be put between two brackets of one kind. -/
theorem Closed.enclosed (inside : Closed list) (kind : BracketKind) :
    Closed (.opening kind :: list ++ [.closing kind]) := by
  have around : unclosed [kind] list = some [kind] := unclosed_inside inside [kind]
  rw [List.cons_append, Closed, unclosed, unclosed_append, around]
  simp [unclosed]

/-! ## The brackets of composed texts -/

variable {text rest body base index : Text}

/-- A tag does not reach into a text that starts with none of its characters. -/
theorem prefix_append_iff_of_head {tag : Text} (apart : ∀ char ∈ rest.head?, char ∉ tag)
    (text : Text) : tag <+: text ++ rest ↔ tag <+: text := by
  induction tag generalizing text with
  | nil => simp
  | cons first tag ih =>
      cases text with
      | nil =>
          cases rest with
          | nil => simp
          | cons char rest =>
              have other := List.ne_of_not_mem_cons (apart char rfl)
              simp [List.cons_prefix_cons, Ne.symm other]
      | cons char text =>
          have later := ih (fun other head member => apart other head (by simp [member])) text
          simp [List.cons_prefix_cons, later]

/-- No bracket goes on in a text that starts with a character of another kind. -/
theorem brackets_append (apart : ∀ char ∈ rest.head?, char ∉ "left(right)".toList) (text : Text) :
    brackets (text ++ rest) = brackets text ++ brackets rest := by
  induction text with
  | nil => rfl
  | cons char text ih =>
      have cut {tag tail : Text} (marked : tag = '\\' :: tail)
          (inside : tail ⊆ "left(right)".toList) :
          tag.isPrefixOf (char :: (text ++ rest)) = tag.isPrefixOf (char :: text) := by
        have same := prefix_append_iff_of_head
          (fun other head member => apart other head (inside member)) text
        rw [Bool.eq_iff_iff, List.isPrefixOf_iff_prefix, List.isPrefixOf_iff_prefix, marked,
          List.cons_prefix_cons, List.cons_prefix_cons, same]
      have opening := @cut "\\left(".toList "left(".toList (by decide) (by decide)
      have closing := @cut "\\right)".toList "right)".toList (by decide) (by decide)
      simp only [List.cons_append, brackets, opening, closing, ih]
      split_ifs <;> rfl

/-- A text without the characters that brackets end with has none. -/
theorem brackets_eq_nil (plain : ∀ char ∈ text, char ∉ "()\x7b\x7d".toList) :
    brackets text = [] := by
  induction text with
  | nil => rfl
  | cons char text ih =>
      have absent {tag : Text} {last : Char} (ends : last ∈ tag)
          (mark : last ∈ "()\x7b\x7d".toList) :
          tag.isPrefixOf (char :: text) = false := by
        refine Bool.eq_false_iff.mpr fun starts => plain last ?_ mark
        exact (List.isPrefixOf_iff_prefix.mp starts).subset ends
      have opening := @absent "\\left(".toList '(' (by decide) (by decide)
      have closing := @absent "\\right)".toList ')' (by decide) (by decide)
      obtain ⟨first, others⟩ := List.forall_mem_cons.mp plain
      have brace : char ≠ '\x7b' ∧ char ≠ '\x7d' := by
        constructor <;> rintro rfl <;> exact first (by decide)
      rw [brackets, if_neg brace.1, if_neg brace.2, opening, closing, ih others]
      rfl

/-- Braces around a text are the outer ones of its brackets. -/
theorem brackets_braced (body : Text) :
    brackets (Latex.braced body) = .opening .brace :: brackets body ++ [.closing .brace] := by
  have closes := @brackets_append ['\x7d'] (by simp) body
  simpa [Latex.braced, brackets] using closes

/-- Tall parentheses around a text are the outer ones of its brackets. -/
theorem brackets_parenthesized (body : Text) :
    brackets (Latex.parenthesized body) =
      .opening .parenthesis :: brackets body ++ [.closing .parenthesis] := by
  have parts : Latex.parenthesized body = "\\left(".toList ++ (body ++ "\\right)".toList) :=
    List.append_assoc ..
  have opens (rest : Text) : brackets ("\\left(".toList ++ rest) =
      .opening .parenthesis :: brackets rest := by
    simp [brackets]
  have closes := @brackets_append "\\right)".toList (by simp) body
  rw [parts, opens, closes]
  rfl

/-- A sign with blanks around it is no bracket, and keeps those on either side apart. -/
theorem brackets_joint {sign : Text} (joint : sign ∈ [Latex.productDot, " + ", " - ", " = "])
    (before behind : Text) :
    brackets (before ++ sign ++ behind) = brackets before ++ brackets behind := by
  have here : brackets (sign ++ behind) = brackets behind := by
    simp only [List.mem_cons, List.not_mem_nil, or_false] at joint
    rcases joint with rfl | rfl | rfl | rfl <;> simp [Latex.productDot_def, brackets]
  have apart : ∀ char ∈ (sign ++ behind).head?, char ∉ "left(right)".toList := by
    simp only [List.mem_cons, List.not_mem_nil, or_false] at joint
    rcases joint with rfl | rfl | rfl | rfl <;> simp [Latex.productDot_def]
  rw [List.append_assoc, brackets_append apart, here]

/-! ## Markup that nests -/

/-- A text without brackets nests. -/
theorem nested_of_plain (plain : ∀ char ∈ text, char ∉ "()\x7b\x7d".toList) : Nested text := by
  rw [Nested, brackets_eq_nil plain]
  rfl

/-- Braces keep the brackets inside them nested. -/
theorem Nested.braced (nested : Nested body) : Nested (Latex.braced body) := by
  rw [Nested, brackets_braced]
  exact Closed.enclosed nested .brace

/-- Parentheses keep the brackets inside them nested. -/
theorem Nested.parenthesized (nested : Nested body) : Nested (Latex.parenthesized body) := by
  rw [Nested, brackets_parenthesized]
  exact Closed.enclosed nested .parenthesis

/-- Nested texts may be joined where no command for tall parentheses comes about. -/
theorem Nested.append (first : Nested text) (second : Nested rest)
    (apart : ∀ char ∈ rest.head?, char ∉ "left(right)".toList) : Nested (text ++ rest) := by
  rw [Nested, brackets_append apart]
  exact Closed.append first second

/-- The signs between operands keep brackets nested. -/
theorem Nested.joint {sign : Text} (joint : sign ∈ [Latex.productDot, " + ", " - ", " = "])
    (first : Nested text) (second : Nested rest) : Nested (text ++ sign ++ rest) := by
  rw [Nested, brackets_joint joint]
  exact Closed.append first second

/-- A single sign in front of a text that nests. -/
theorem Nested.cons {sign : Char} (mark : sign ∈ ['-', '^', '_']) (nested : Nested text) :
    Nested (sign :: text) := by
  simp only [List.mem_cons, List.not_mem_nil, or_false] at mark
  rcases mark with rfl | rfl | rfl <;> simpa [Nested, brackets] using nested

/-- A power nests when its base and its exponent do. -/
theorem Nested.power (first : Nested base) (second : Nested index) :
    Nested (Latex.power base index) :=
  first.braced.append (.cons (by decide) second.braced) (by simp)

/-- A fraction nests when its two parts do. -/
theorem Nested.fraction (first : Nested base) (second : Nested index) :
    Nested (Latex.fraction base index) := by
  have command : Nested "\\frac" := by decide
  exact (command.append first.braced (by simp [Latex.braced])).append second.braced
    (by simp [Latex.braced])

/-- A name with a subscript nests when its two parts do. -/
theorem Nested.subscript (first : Nested base) (second : Nested index) :
    Nested (Latex.subscript base index) :=
  first.append (.cons (by decide) second.braced) (by simp)

/-- A product nests when its factors do. -/
theorem Nested.product {factors : List Text} (nested : ∀ factor ∈ factors, Nested factor) :
    Nested (Text.joined Latex.productDot factors) := by
  induction factors with
  | nil => decide
  | cons first factors ih =>
      obtain ⟨here, later⟩ := List.forall_mem_cons.mp nested
      cases factors with
      | nil => rwa [Text.joined_singleton]
      | cons second factors =>
          rw [Text.joined_cons_cons]
          exact here.joint (by simp) (ih later)

/-! ## Names and numbers -/

variable {style : NameStyle} {name : Text} {char : Char}

/-- No bracket stands in a name. -/
theorem plain_of_continuesName (inside : Token.continuesName char) :
    char ∉ "()\x7b\x7d".toList := by
  intro member
  revert inside
  simp only [String.reduceToList, List.mem_cons, List.not_mem_nil, or_false] at member
  rcases member with rfl | rfl | rfl | rfl <;> decide

/-- No bracket stands in a number. -/
theorem plain_of_inNumber (inside : Token.inNumber char) : char ∉ "()\x7b\x7d".toList := by
  intro member
  revert inside
  simp only [String.reduceToList, List.mem_cons, List.not_mem_nil, or_false] at member
  rcases member with rfl | rfl | rfl | rfl <;> decide

/-- The shortest spelling of a literal needs no new characters but a zero and a point. -/
theorem mem_tidy (member : char ∈ Decimal.tidy text) : char ∈ ['0', '.'] ∨ char ∈ text := by
  have whole : Decimal.wholeDigits text ⊆ text := (List.takeWhile_sublist _).subset
  have fraction : Decimal.fractionDigits text ⊆ text :=
    ((List.drop_sublist ..).trans (List.dropWhile_sublist _)).subset
  have front : (Decimal.wholeDigits text).dropWhile (· == '0') ⊆ text :=
    fun _ inside => whole ((List.dropWhile_sublist _).subset inside)
  have back : ((Decimal.fractionDigits text).reverse.dropWhile (· == '0')).reverse ⊆ text :=
    fun _ inside => fraction (List.mem_reverse.mp
      ((List.dropWhile_sublist _).subset (List.mem_reverse.mp inside)))
  unfold Decimal.tidy at member
  split_ifs at member
  · exact .inl (by simp_all)
  · rcases List.mem_append.mp member with before | behind
    · split_ifs at before
      · exact .inl (by simp_all)
      · exact .inr (front before)
    · split_ifs at behind
      · cases behind
      · rcases List.mem_cons.mp behind with rfl | inside
        · exact .inl (by simp)
        · exact .inr (back inside)
  · exact .inr member

/-- Numbers are written without brackets. -/
theorem nested_tidy (digits : ∀ char ∈ text, Token.inNumber char) :
    Nested (Decimal.tidy text) := by
  refine nested_of_plain fun char member => plain_of_inNumber ?_
  rcases mem_tidy member with new | old
  · simp only [List.mem_cons, List.not_mem_nil, or_false] at new
    rcases new with rfl | rfl <;> rfl
  · exact digits char old

/-- Greek letters are written without brackets. -/
theorem nested_greek {letter : Text} (greek : Name.greek? name = some letter) : Nested letter := by
  have all : ∀ entry ∈ Name.greekLetters, Nested entry.2.toList := by decide
  obtain ⟨entry, found, rfl⟩ := Option.map_eq_some_iff.mp greek
  exact all entry (List.mem_of_find?_eq_some found)

/-- Functions are written without brackets. -/
theorem nested_function (function : Name.isFunction name) :
    Nested ('\\' :: Name.lowercase name) := by
  have all : ∀ known ∈ Name.functions, Nested ('\\' :: known) := by decide
  exact all _ (List.contains_iff_mem.mp function)

/-- A style may keep the display of a name or replace it. -/
theorem NameStyle.Nests.getD (nests : style.Nests) {display : Text} (nested : Nested display) :
    Nested ((style name display).getD display) := by
  cases known : style name display with
  | none => exact nested
  | some markup => exact nests name display markup nested known

section Name

variable (nests : style.Nests) (plain : ∀ char ∈ name, char ∉ "()\x7b\x7d".toList)
include nests plain

/-- A name that is displayed as one symbol nests. -/
theorem nested_symbol {symbol : Text} (known : symbol? style name = some symbol) :
    Nested symbol := by
  unfold symbol? at known
  split at known
  · next letter greek =>
      obtain rfl := Option.some.inj known
      exact nests.getD (nested_greek greek)
  · exact nests _ _ _ (nested_of_plain plain) known

/-- A name that is displayed letter by letter nests. -/
theorem nested_letters : ∀ factor ∈ letters style name, Nested factor := by
  intro factor member
  obtain ⟨char, inside, rfl⟩ := List.mem_map.mp member
  exact nests.getD (nested_of_plain (by simpa using plain char inside))

/-- A name that is displayed as a product of variables nests. -/
theorem nested_factors : ∀ factor ∈ factors style name, Nested factor := by
  unfold factors
  split
  · next symbol known => simpa using nested_symbol nests plain known
  · exact nested_letters nests plain

omit nests in
/-- A name that is displayed with a subscript nests. -/
theorem nested_subscriptText : Nested (subscriptText name) := by
  have index {rest : Text} (inside : rest ⊆ name) :
      Nested (rest.flatMap fun char => if char = '_' then ['\\', '_'] else [char]) := by
    refine nested_of_plain fun char member => ?_
    obtain ⟨other, among, written⟩ := List.mem_flatMap.mp member
    split_ifs at written
    · simp only [List.mem_cons, List.not_mem_nil, or_false] at written
      rcases written with rfl | rfl <;> decide
    · rw [List.mem_singleton.mp written]
      exact plain other (inside among)
  unfold subscriptText
  split
  · exact index (List.subset_cons_self _ _)
  · exact index (List.Subset.refl _)

/-- Names are written with brackets that nest. -/
theorem nested_writeName : Nested (writeName style name) := by
  unfold writeName
  split
  · next function => exact nested_function function
  · split
    · next symbol known => exact nested_symbol nests plain known
    · have run : ∀ char ∈ name.takeWhile Char.isAlpha, char ∉ "()\x7b\x7d".toList :=
        fun char member => plain char ((List.takeWhile_sublist _).subset member)
      have suffix : ∀ char ∈ name.dropWhile Char.isAlpha, char ∉ "()\x7b\x7d".toList :=
        fun char member => plain char ((List.dropWhile_sublist _).subset member)
      have all := nested_factors nests run
      have index := nested_subscriptText suffix
      have base : Nested ((factors style (name.takeWhile Char.isAlpha)).getLast?.getD
          (Latex.braced [])) := by
        cases last : (factors style (name.takeWhile Char.isAlpha)).getLast? with
        | none => decide
        | some factor => exact all factor (List.mem_of_getLast? last)
      dsimp only
      split_ifs
      · exact .product (nested_letters nests run)
      all_goals
        refine .product (List.forall_mem_append.mpr
          ⟨fun factor member => all factor ((List.dropLast_sublist _).subset member), ?_⟩)
        rw [List.forall_mem_singleton]
      · exact base
      · exact base.subscript index

end Name

/-! ## Formulas -/

/-- A formula is laid out with brackets that nest when its operands are. -/
theorem Derives.nested {rank : Nat} {words : List Lexeme} {node : Node}
    (derives : Derives rank words node)
    (operands : ∀ lexeme ∈ words, ∀ markup ∈ lexeme.word.operand? style lexeme.text,
      Nested markup) : Nested (node.layout style) := by
  induction derives with
  | number word | name word | block word =>
      exact operands _ (List.mem_singleton_self _) _ (by rw [word]; rfl)
  | group _ _ _ ih =>
      exact (ih fun lexeme member => operands lexeme (by simp [member])).parenthesized
  | negation _ _ ih =>
      exact .cons (by decide) (ih fun lexeme member => operands lexeme (by simp [member]))
  | @binary _ operator _ _ _ _ _ _ _ ihLeft ihRight =>
      have left := ihLeft fun lexeme member => operands lexeme (by simp [member])
      have right := ihRight fun lexeme member => operands lexeme (by simp [member])
      cases operator with
      | equation | sum | difference | product => exact left.joint (by simp) right
      | fraction => exact left.fraction right
      | power => exact left.power right
  | juxtaposed _ _ ihLeft ihRight =>
      have left := ihLeft fun lexeme member => operands lexeme (by simp [member])
      have right := ihRight fun lexeme member => operands lexeme (by simp [member])
      exact left.joint (by simp) right
  | loosen _ ih => exact ih operands

/-- The operands of a formula without markup commands are numbers and names. -/
theorem Spelled.nested {offset : Nat} {words : List Lexeme} (spelled : Spelled offset text words)
    (nests : style.Nests) :
    ∀ lexeme ∈ words, ∀ markup ∈ lexeme.word.operand? style lexeme.text, Nested markup := by
  induction spelled with
  | nil => simp
  | blank _ _ ih => exact ih
  | number _ digits _ _ ih =>
      refine List.forall_mem_cons.mpr ⟨fun markup written => ?_, ih⟩
      obtain rfl : _ = markup := Option.some.inj written
      exact nested_tidy digits
  | name identifier _ _ ih =>
      refine List.forall_mem_cons.mpr ⟨fun markup written => ?_, ih⟩
      obtain rfl : _ = markup := Option.some.inj written
      exact nested_writeName nests fun char member =>
        plain_of_continuesName (Token.continuesName_of_isIdentifier identifier char member)
  | @sign _ char _ word _ writes _ ih =>
      refine List.forall_mem_cons.mpr ⟨?_, ih⟩
      have none : word.operand? style [char] = none := by
        unfold signWord? at writes
        split at writes <;> cases writes <;> rfl
      simp [none]

/-- A formula without markup commands is displayed with brackets that nest, wherever its names are
written with such brackets. -/
theorem nested_render (nests : style.Nests) {source markup : Text} (plain : '\\' ∉ source)
    (shown : render style source = .ok markup) : Nested markup := by
  unfold render at shown
  cases read : parse source with
  | error diagnostic =>
      rw [read] at shown
      cases shown
  | ok node =>
      rw [read] at shown
      obtain ⟨words, spelled, derives⟩ := spells_of_parse plain read
      obtain rfl : node.layout style = markup := Except.ok.inj shown
      exact derives.nested (spelled.nested nests)

/-- Colours bring in no brackets but those around them. -/
theorem NameStyle.nests_colored (store : Store) {palette : Palette}
    (matrix : Nested palette.matrix) (vector : Nested palette.vector) :
    (NameStyle.colored store palette).Nests := by
  have colored {color display : Text} (named : Nested color) (nested : Nested display) :
      Nested (Latex.colored color display) := by
    have command : Nested "\\textcolor" := by decide
    exact (command.append named.braced (by simp [Latex.braced])).append nested.braced
      (by simp [Latex.braced])
  intro name display markup nested known
  obtain ⟨tensor, -, rfl⟩ := Option.map_eq_some_iff.mp known
  split
  · exact colored matrix nested
  · exact colored vector nested
  · exact nested

/-- A vector. -/
def vector : Store := Store.empty.insert ['v'] (.placeholder (.fixed 2) (.fixed 1))

/-- Names that consist of underscores have empty bases and empty subscripts. -/
theorem nested_render_vector :
    (NameStyle.colored vector {}).Nests ∧ '\\' ∉ "(v_2^__1)/_".toList ∧
      ∃ markup, render (.colored vector {}) "(v_2^__1)/_" = .ok markup ∧ Nested markup := by
  have nests : (NameStyle.colored vector {}).Nests :=
    NameStyle.nests_colored vector (by decide) (by decide)
  have plain : '\\' ∉ "(v_2^__1)/_".toList := by decide
  have shown : render (.colored vector {}) "(v_2^__1)/_" =
      .ok ("\\frac\x7b\\left(\x7b\\textcolor\x7bpurple\x7d\x7bv\x7d_\x7b2\x7d\x7d^" ++
        "\x7b\x7b\x7d_\x7b\\_1\x7d\x7d\\right)\x7d\x7b\x7b\x7d\x7d").toList := by
    decide +kernel
  exact ⟨nests, plain, _, shown, nested_render nests plain shown⟩

end MatrixFormula.Markup
