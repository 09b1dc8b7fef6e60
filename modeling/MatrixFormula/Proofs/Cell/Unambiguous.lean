import Mathlib.Data.List.TakeWhile
import MatrixFormula.Proofs.Cell.Joining

/-!
# Terms are unambiguous

A well-formed term denotes one number under every valuation. Its operators are the ones
between blanks outside all brackets, so the last of these blanks cuts off the last operand in
the only possible way, and an operand without such a blank is read from its first character.
-/

namespace MatrixFormula.Cell

/-! ## Brackets -/

/-- How many more brackets a text opens than it closes. -/
def height : Text → Int
  | [] => 0
  | char :: rest =>
      (if char = '(' ∨ char = '\x7b' then 1 else if char = ')' ∨ char = '\x7d' then -1 else 0) +
        height rest

@[simp] theorem height_nil : height [] = 0 := rfl

/-- The heights of two texts in a row add up. -/
@[simp] theorem height_append (left right : Text) :
    height (left ++ right) = height left + height right := by
  induction left with
  | nil => simp
  | cons char rest ih => simp [height, ih, Int.add_assoc]

/-- Whether a character opens or closes a bracket. -/
def isBracket (char : Char) : Bool :=
  char == '(' || char == '\x7b' || char == ')' || char == '\x7d'

/-- Flat characters are no brackets. -/
theorem isBracket_of_isFlat {char : Char} (flat : isFlat char) : isBracket char = false := by
  simp only [isFlat, Bool.and_eq_true, bne_iff_ne] at flat
  simp [isBracket, flat]

/-- A text without brackets has no height. -/
theorem height_eq_zero {text : Text} (plain : ∀ char ∈ text, isBracket char = false) :
    height text = 0 := by
  induction text with
  | nil => rfl
  | cons char rest ih =>
      have other := plain char (by simp)
      simp only [isBracket, Bool.or_eq_false_iff, beq_eq_false_iff_ne] at other
      simp [height, other, ih fun later member => plain later (by simp [member])]

/-- Every bracket of the text that is closed was opened before, and all are closed. -/
structure Nested (text : Text) : Prop where
  closed : height text = 0
  opened : ∀ before after, text = before ++ after → 0 ≤ height before

/-- A text without brackets is nested. -/
theorem Nested.of_forall {text : Text} (plain : ∀ char ∈ text, isBracket char = false) :
    Nested text where
  closed := height_eq_zero plain
  opened before after same :=
    (height_eq_zero fun char member => plain char (by simp [same, member])).ge

theorem Nested.of_all {text : Text} (plain : text.all fun char => !isBracket char) : Nested text :=
  .of_forall fun char member => by simpa using List.all_eq_true.mp plain char member

theorem Nested.of_forall_isFlat {text : Text} (flat : ∀ char ∈ text, isFlat char) : Nested text :=
  .of_forall fun char member => isBracket_of_isFlat (flat char member)

/-- Nested texts may be joined. -/
theorem Nested.append {left right : Text} (first : Nested left) (second : Nested right) :
    Nested (left ++ right) where
  closed := by rw [height_append, first.closed, second.closed, Int.add_zero]
  opened before after same := by
    rcases List.append_eq_append_iff.mp same with ⟨more, rfl, rest⟩ | ⟨more, rest, -⟩
    · have := second.opened more after rest
      have := first.closed
      rw [height_append]
      omega
    · exact first.opened before more rest

/-- What stands in brackets is nested when it is nested inside. -/
theorem Nested.enclosed {inner : Text} {left right : Char} (nested : Nested inner)
    (opens : height [left] = 1) (closes : height [right] = -1) :
    Nested (left :: inner ++ [right]) where
  closed := by
    have := nested.closed
    rw [← List.singleton_append, height_append, height_append]
    omega
  opened before after same := by
    cases before with
    | nil => simp
    | cons char more =>
        simp only [List.cons_append, List.cons.injEq] at same
        obtain ⟨rfl, same⟩ := same
        rw [← List.singleton_append, height_append, opens]
        rcases List.append_eq_append_iff.mp same with ⟨last, rfl, rest⟩ | ⟨last, rest, -⟩
        · have := nested.closed
          rw [height_append]
          match last, rest with
          | [], _ => simp; omega
          | [_], rest => cases rest; omega
          | _ :: _ :: _, rest => simp at rest
        · have := nested.opened more last rest
          omega

variable {K : Type*} [Field K] {σ : Text → K} {level : Level} {text : Text} {x y : K}

/-- The brackets of a term are nested. -/
theorem Denotes.nested (term : Denotes .full σ level text x) : Nested text := by
  induction term with
  | symbol valid => exact .of_forall_isFlat (isFlat_of_isSymbol valid)
  | group _ ih => exact ih.enclosed rfl rfl
  | fraction _ _ above below =>
      exact ((Nested.of_all rfl).append (above.enclosed rfl rfl)).append
        (below.enclosed rfl rfl)
  | number literal => exact .of_forall_isFlat (isFlat_of_isUnsigned literal.1)
  | juxtaposed literal _ ih =>
      exact (Nested.of_forall_isFlat (isFlat_of_isUnsigned literal.1)).append ih
  | ofAtom _ ih | ofFactor _ ih | ofSigned _ ih | ofProduct _ ih | ofSummand _ ih => exact ih
  | negation _ _ ih => exact (Nested.of_all rfl : Nested ['-']).append ih
  | times _ _ first second | plus _ _ first second | minus _ _ first second =>
      exact (first.append (.of_all rfl)).append second
  | plusTimes plus | plusSigned plus => exact plus.elim

/-! ## Blanks between operands -/

/-- Every blank of the text stands in brackets. -/
def Tight (text : Text) : Prop :=
  ∀ before after, text = before ++ ' ' :: after → height before ≠ 0

/-- A text without blanks is tight. -/
theorem Tight.of_not_mem {text : Text} (absent : ' ' ∉ text) : Tight text := by
  rintro before after rfl
  simp at absent

theorem Tight.of_isUnsigned {digits : Text} (unsigned : Decimal.isUnsigned digits) :
    Tight digits :=
  .of_not_mem fun blank => absurd (Decimal.inNumber_of_isUnsigned unsigned ' ' blank) (by decide)

/-- Tight texts may be joined when the first one closes all that it opens. -/
theorem Tight.append {left right : Text} (closed : height left = 0) (first : Tight left)
    (second : Tight right) : Tight (left ++ right) := by
  intro before after same
  rcases List.append_eq_append_iff.mp same with ⟨more, rfl, rest⟩ | ⟨more, rest, behind⟩
  · have := second more after rest
    rw [height_append, closed]
    omega
  · cases more with
    | nil =>
        have := second [] after (by simpa using behind.symm)
        simp at this
    | cons char others =>
        obtain ⟨rfl, -⟩ := List.cons.inj behind
        exact first before others rest

/-- Whatever blanks a text has, they stand in the brackets around it. -/
theorem Tight.enclosed {inner : Text} {left right : Char} (nested : Nested inner)
    (opens : height [left] = 1) (shown : left ≠ ' ' ∧ right ≠ ' ') :
    Tight (left :: inner ++ [right]) := by
  intro before after same
  cases before with
  | nil => exact absurd (List.cons.inj same).1 shown.1
  | cons char more =>
      simp only [List.cons_append, List.cons.injEq] at same
      obtain ⟨rfl, same⟩ := same
      rw [← List.singleton_append, height_append, opens]
      rcases List.append_eq_append_iff.mp same with ⟨last, -, rest⟩ | ⟨last, rest, -⟩
      · match last, rest with
        | [], rest => exact absurd (List.cons.inj rest).1 shown.2
        | _ :: _, rest => simp at rest
      · have := nested.opened more last rest
        omega

/-- Atoms, factors and signed factors have no blank outside all brackets. -/
theorem Denotes.tight (term : Denotes .full σ level text x)
    (single : level = .atom ∨ level = .factor ∨ level = .signed) : Tight text := by
  induction term with
  | symbol valid =>
      refine .of_not_mem fun blank => ?_
      exact absurd (forall_continuesName_or_backslash valid ' ' blank) (by decide)
  | group inner => exact .enclosed inner.nested rfl (by decide)
  | @fraction numerator denominator _ _ above below =>
      have command : Tight "\\frac" := .of_not_mem (by decide)
      have first : Tight (Latex.braced numerator) := .enclosed above.nested rfl (by decide)
      have second : Tight (Latex.braced denominator) := .enclosed below.nested rfl (by decide)
      have closed : height (Latex.braced numerator) = 0 := (above.nested.enclosed rfl rfl).closed
      exact .append (by rw [height_append, closed]; rfl) (command.append rfl first) second
  | number literal => exact .of_isUnsigned literal.1
  | juxtaposed literal _ ih =>
      exact .append (height_eq_zero fun char member =>
        isBracket_of_isFlat (isFlat_of_isUnsigned literal.1 char member))
        (.of_isUnsigned literal.1) (ih (.inl rfl))
  | ofAtom _ ih => exact ih (.inl rfl)
  | ofFactor _ ih => exact ih (.inr (.inl rfl))
  | negation _ _ ih =>
      have sign : Tight ['-'] := .of_not_mem (by decide)
      exact sign.append rfl (ih (.inr (.inr rfl)))
  | plusTimes plus => exact plus.elim
  | ofSigned | ofProduct | ofSummand | times | plus | minus | plusSigned => simp at single

/-- Two ways to cut a text at a character are one when neither of them can come first. -/
theorem append_cons_inj {left right otherLeft otherRight : Text} {char : Char}
    (early : ∀ more, otherLeft = left ++ char :: more → right = more ++ char :: otherRight → False)
    (late : ∀ more, left = otherLeft ++ char :: more → otherRight = more ++ char :: right → False)
    (same : left ++ char :: right = otherLeft ++ char :: otherRight) :
    left = otherLeft ∧ right = otherRight := by
  rcases List.append_eq_append_iff.mp same with ⟨more, spelled, rest⟩ | ⟨more, spelled, rest⟩
  · cases more with
    | nil => exact ⟨by simpa using spelled.symm, (List.cons.inj rest).2⟩
    | cons first others =>
        obtain ⟨rfl, behind⟩ := List.cons.inj rest
        exact (early others spelled behind).elim
  · cases more with
    | nil => exact ⟨by simpa using spelled, (List.cons.inj rest).2.symm⟩
    | cons first others =>
        obtain ⟨rfl, behind⟩ := List.cons.inj rest
        exact (late others spelled behind).elim

/-- The last blank outside all brackets cuts a text in only one way. -/
theorem Tight.append_inj {left right otherLeft otherRight : Text} (tight : Tight right)
    (otherTight : Tight otherRight) (closed : height left = 0) (otherClosed : height otherLeft = 0)
    (same : left ++ ' ' :: right = otherLeft ++ ' ' :: otherRight) :
    left = otherLeft ∧ right = otherRight := by
  have inside {left right otherLeft otherRight more : Text} (tight : Tight right)
      (closed : height left = 0) (otherClosed : height otherLeft = 0)
      (spelled : otherLeft = left ++ ' ' :: more) (rest : right = more ++ ' ' :: otherRight) :
      False := by
    have outside := tight more otherRight rest
    have blank : height (' ' :: more) = height more := by simp [height]
    rw [spelled, height_append, blank] at otherClosed
    omega
  exact append_cons_inj (fun _ => inside tight closed otherClosed)
    (fun _ => inside otherTight otherClosed closed) same

/-! ## Operands -/

/-- What may stand in the place of an atom, by its first character. -/
theorem Denotes.atom_cases (term : Denotes .full σ .atom text x) :
    isSymbol text ∧ x = σ text ∨
      (∃ inner, text = '(' :: inner ++ [')'] ∧ Denotes .full σ .sum inner x) ∨
      ∃ above below y z, text = Latex.fraction above below ∧ Denotes .full σ .sum above y ∧
        Denotes .full σ .sum below z ∧ x = y / z := by
  cases term with
  | symbol valid => exact .inl ⟨valid, rfl⟩
  | group term => exact .inr (.inl ⟨_, rfl, term⟩)
  | fraction above below => exact .inr (.inr ⟨_, _, _, _, rfl, above, below, rfl⟩)
  | plusTimes plus => exact plus.elim

/-- The first of two nested texts in braces ends where its brace is closed. -/
theorem Nested.braced_inj {inner rest otherInner otherRest : Text} (nested : Nested inner)
    (otherNested : Nested otherInner)
    (same : Latex.braced inner ++ rest = Latex.braced otherInner ++ otherRest) :
    inner = otherInner ∧ rest = otherRest := by
  have closes {inner otherInner more : Text} (nested : Nested inner)
      (otherNested : Nested otherInner) (spelled : otherInner = inner ++ '\x7d' :: more) :
      False := by
    have closing := otherNested.opened (inner ++ ['\x7d']) more (by simp [spelled])
    rw [height_append, nested.closed] at closing
    exact absurd closing (by decide)
  exact append_cons_inj (fun _ spelled _ => closes nested otherNested spelled)
    (fun _ spelled _ => closes otherNested nested spelled) (by simpa [Latex.braced] using same)

/-- Whether the shorter sums denote one number each. -/
def UniqueBelow (σ : Text → K) (text : Text) : Prop :=
  ∀ inner x y, inner.length < text.length → Denotes .full σ .sum inner x →
    Denotes .full σ .sum inner y → x = y

/-- An atom denotes one number if the sums inside it do. -/
theorem Denotes.unique_atom (unique : UniqueBelow σ text) (term : Denotes .full σ .atom text x)
    (other : Denotes .full σ .atom text y) : x = y := by
  have bare {bracket : Char} (valid : isSymbol text) (member : bracket ∈ text) :
      isFlat bracket :=
    isFlat_of_isSymbol valid bracket member
  rcases term.atom_cases with ⟨valid, rfl⟩ | ⟨inner, spelled, term⟩ |
    ⟨above, below, u, v, spelled, numerator, denominator, rfl⟩
  · rcases other.atom_cases with ⟨-, rfl⟩ | ⟨inner, spelled, -⟩ | ⟨above, below, _, _, spelled, -⟩
    · rfl
    · exact absurd (bare valid (by simp [spelled] : '(' ∈ text)) (by decide)
    · exact absurd (bare valid (by simp [spelled, Latex.fraction_def, Latex.braced] : '\x7b' ∈ text))
        (by decide)
  · rcases other.atom_cases with ⟨valid, -⟩ | ⟨others, same, other⟩ | ⟨_, _, _, _, same, -⟩
    · exact absurd (bare valid (by simp [spelled] : '(' ∈ text)) (by decide)
    · have same : inner = others := by simpa [spelled] using same
      subst same
      have shorter : inner.length < text.length := by
        simp only [spelled, List.length_cons, List.length_append, List.length_nil]
        omega
      exact unique inner x y shorter term other
    · simp [spelled, Latex.fraction_def] at same
  · rcases other.atom_cases with ⟨valid, -⟩ | ⟨_, same, -⟩ | ⟨others, rest, z, w, same, left, right, rfl⟩
    · exact absurd (bare valid (by simp [spelled, Latex.fraction_def, Latex.braced] : '\x7b' ∈ text))
        (by decide)
    · simp [spelled, Latex.fraction_def] at same
    · have both : Latex.braced above ++ Latex.braced below =
          Latex.braced others ++ Latex.braced rest := by
        simpa [spelled, Latex.fraction_def] using same
      obtain ⟨rfl, last⟩ := numerator.nested.braced_inj left.nested both
      have same : below = rest := by simpa [Latex.braced] using last
      subst same
      have shorter : above.length < text.length ∧ below.length < text.length := by
        simp [spelled, Latex.fraction_def, Latex.braced]
        omega
      rw [unique above u z shorter.1 numerator left, unique below v w shorter.2 denominator right]

/-- No atom starts with a digit or a point. -/
theorem Denotes.number_of_atom (term : Denotes .full σ .atom text x) :
    text.takeWhile Token.inNumber = [] ∧ text.dropWhile Token.inNumber = text := by
  have first : ∃ char rest, text = char :: rest ∧ Token.inNumber char = false := by
    rcases term.atom_cases with ⟨valid, -⟩ | ⟨inner, rfl, -⟩ | ⟨above, below, _, _, rfl, -⟩
    · obtain ⟨char, rest, rfl, starts | rfl⟩ := head?_of_isSymbol valid
      · refine ⟨char, rest, rfl, Bool.eq_false_iff.mpr fun digit => ?_⟩
        exact absurd starts (by simp [Token.not_startsName_of_inNumber digit])
      · exact ⟨_, _, rfl, rfl⟩
    · exact ⟨_, _, rfl, rfl⟩
    · exact ⟨_, _, rfl, rfl⟩
  obtain ⟨char, rest, rfl, other⟩ := first
  simp [other]

/-- The number in front of a factor, which is one when nothing is written. -/
def coefficient (K : Type*) [Field K] (text : Text) : K :=
  if text.takeWhile Token.inNumber = [] then 1
  else Decimal.literal K (text.takeWhile Token.inNumber)

/-- A factor is a number, or an atom behind all the digits and points that it starts with. -/
theorem Denotes.factor_cases (term : Denotes .full σ .factor text x) :
    text.dropWhile Token.inNumber = [] ∧ x = Decimal.literal K text ∨
      ∃ y, Denotes .full σ .atom (text.dropWhile Token.inNumber) y ∧ x = coefficient K text * y := by
  cases term with
  | ofAtom term =>
      obtain ⟨none, all⟩ := term.number_of_atom
      exact .inr ⟨x, by rwa [all], by simp [coefficient, none]⟩
  | number literal =>
      have inside := Decimal.inNumber_of_isUnsigned literal.1
      exact .inl ⟨List.dropWhile_eq_nil_iff.mpr inside, rfl⟩
  | @juxtaposed digits atom y literal term =>
      obtain ⟨none, all⟩ := term.number_of_atom
      have inside := Decimal.inNumber_of_isUnsigned literal.1
      have number : (digits ++ atom).takeWhile Token.inNumber = digits := by
        rw [List.takeWhile_append_of_pos inside, none, List.append_nil]
      refine .inr ⟨y, by rwa [List.dropWhile_append_of_pos inside, all], ?_⟩
      rw [coefficient, number, if_neg (Decimal.ne_nil_of_isUnsigned literal.1)]

/-- A factor denotes one number if the sums inside it do. -/
theorem Denotes.unique_factor (unique : UniqueBelow σ text) (term : Denotes .full σ .factor text x)
    (other : Denotes .full σ .factor text y) : x = y := by
  rcases term.factor_cases with ⟨none, rfl⟩ | ⟨u, atom, rfl⟩
  · rcases other.factor_cases with ⟨-, rfl⟩ | ⟨v, otherAtom, -⟩
    · rfl
    · exact absurd none otherAtom.solid.nonempty
  · rcases other.factor_cases with ⟨none, -⟩ | ⟨v, otherAtom, rfl⟩
    · exact absurd none atom.solid.nonempty
    · have short := (List.dropWhile_sublist Token.inNumber (l := text)).length_le
      have below : UniqueBelow σ (text.dropWhile Token.inNumber) := fun inner y z shorter =>
        unique inner y z (Nat.lt_of_lt_of_le shorter short)
      rw [atom.unique_atom below otherAtom]

/-- A factor with signs denotes one number if the sums inside it do. -/
theorem Denotes.unique_signed (unique : UniqueBelow σ text) (term : Denotes .full σ .signed text x)
    (other : Denotes .full σ .signed text y) : x = y := by
  generalize same : Level.signed = level at term
  induction term generalizing y with
  | ofFactor term =>
      cases other with
      | ofFactor other => exact term.unique_factor unique other
      | negation => exact absurd rfl term.head?_ne_minus
  | negation term _ ih =>
      cases other with
      | ofFactor other => exact absurd rfl other.head?_ne_minus
      | negation other =>
          have below : UniqueBelow σ _ := fun inner u v shorter =>
            unique inner u v (Nat.lt_succ_of_lt shorter)
          rw [ih below other rfl]
  | _ => cases same

/-! ## Operators -/

/-- The operators between the operands of a sum. -/
inductive Joint where
  | times
  | plus
  | minus

namespace Joint

/-- The operator with the blank before it. -/
def spelling : Joint → Text
  | times => " \\cdot"
  | plus => " +"
  | minus => " -"

theorem spelling_times : spelling times = " \\cdot" := rfl

theorem spelling_plus : spelling plus = " +" := rfl

theorem spelling_minus : spelling minus = " -" := rfl

/-- What one more operand makes of a sum that is read as the sum of all that is complete and
the last product. -/
def apply : Joint → K × K → K → K × K
  | times, (total, last), x => (total, last * x)
  | plus, (total, last), x => (total + last, x)
  | minus, (total, last), x => (total + last, -x)

theorem closed (joint : Joint) : height joint.spelling = 0 := by cases joint <;> rfl

/-- The last character of an operator tells which one it is. -/
theorem append_inj {joint other : Joint} {left right : Text}
    (same : left ++ joint.spelling = right ++ other.spelling) : joint = other ∧ left = right := by
  have kinds : joint = other := by
    have ends := congrArg List.getLast? same
    cases joint <;> cases other <;> first
      | rfl
      | simp [spelling_times, spelling_plus, spelling_minus] at ends
  subst kinds
  exact ⟨rfl, List.append_cancel_right same⟩

end Joint

/-- A sum read operand by operand. -/
inductive Run (σ : Text → K) : Text → K × K → Prop where
  | single {word : Text} {x : K} (operand : Denotes .full σ .signed word x) : Run σ word (0, x)
  | step {before word : Text} {read : K × K} {x : K} (joint : Joint) (run : Run σ before read)
      (operand : Denotes .full σ .signed word x) :
      Run σ (before ++ joint.spelling ++ ' ' :: word) (joint.apply read x)

/-- A product behind a complete sum goes on with its factors. -/
theorem Denotes.run_product (term : Denotes .full σ .product text x) (operator : Text)
    (total sign : K)
    (first : ∀ {word : Text} {x : K}, Denotes .full σ .signed word x →
      Run σ (operator ++ word) (total, sign * x)) :
    Run σ (operator ++ text) (total, sign * x) := by
  generalize same : Level.product = level at term
  induction term with
  | ofSigned term => exact first term
  | times _ second ih =>
      rw [← mul_assoc]
      simpa [Joint.spelling_times, Joint.apply, Latex.productDot_def] using
        Run.step .times (ih rfl) second
  | _ => cases same

/-- Every sum can be read operand by operand. -/
theorem Denotes.exists_run (term : Denotes .full σ .sum text x) :
    ∃ total last, Run σ text (total, last) ∧ x = total + last := by
  generalize same : Level.sum = level at term
  have product {summand : Text} {x : K} (term : Denotes .full σ .summand summand x) :
      Denotes .full σ .product summand x := by
    cases term with
    | ofProduct term => exact term
    | plusSigned plus => exact plus.elim
  induction term with
  | ofSummand term =>
      have run := (product term).run_product [] 0 1 fun operand => by
        simpa using Run.single operand
      exact ⟨0, _, by simpa using run, by simp⟩
  | @plus before _ _ _ _ second ih =>
      obtain ⟨total, last, run, rfl⟩ := ih rfl
      have next := (product second).run_product (before ++ " + ") (total + last) 1 fun operand => by
        simpa [Joint.spelling_plus, Joint.apply] using Run.step .plus run operand
      exact ⟨_, _, next, by ring⟩
  | @minus before _ _ _ _ second ih =>
      obtain ⟨total, last, run, rfl⟩ := ih rfl
      have next := second.run_product (before ++ " - ") (total + last) (-1) fun operand => by
        simpa [Joint.spelling_minus, Joint.apply] using Run.step .minus run operand
      exact ⟨_, _, next, by ring⟩
  | _ => cases same

/-- A sum closes all brackets that it opens. -/
theorem Run.closed {read : K × K} (run : Run σ text read) : height text = 0 := by
  induction run with
  | single operand => exact operand.nested.closed
  | step joint _ operand ih =>
      rw [height_append, height_append, ih, joint.closed, ← List.singleton_append, height_append,
        operand.nested.closed]
      rfl

/-- A sum that has been read is one operand, or ends with an operator and an operand. -/
theorem Run.eq_single_or_step {read : K × K} (run : Run σ text read) :
    (∃ x, Denotes .full σ .signed text x ∧ read = (0, x)) ∨
      ∃ before joint word previous x, text = before ++ Joint.spelling joint ++ ' ' :: word ∧
        Run σ before previous ∧ Denotes .full σ .signed word x ∧ read = joint.apply previous x := by
  cases run with
  | single operand => exact .inl ⟨_, operand, rfl⟩
  | step joint run operand => exact .inr ⟨_, joint, _, _, _, rfl, run, operand, rfl⟩

/-- No bracket is open behind an operator of a sum. -/
theorem Run.closed_before {before : Text} {read : K × K} (run : Run σ before read) (joint : Joint) :
    height (before ++ joint.spelling) = 0 := by
  rw [height_append, run.closed, joint.closed, Int.add_zero]

/-- There is only one way to read a sum operand by operand. -/
theorem Run.unique {read other : K × K} (unique : UniqueBelow σ text) (run : Run σ text read)
    (another : Run σ text other) : read = other := by
  induction run generalizing other with
  | single operand =>
      rcases another.eq_single_or_step with ⟨y, second, rfl⟩ | ⟨before, joint, word, _, _, same, run, -⟩
      · rw [operand.unique_signed unique second]
      · exact absurd (run.closed_before joint) (operand.tight (.inr (.inr rfl)) _ _ same)
  | @step before word previous x joint run operand ih =>
      rcases another.eq_single_or_step with ⟨y, second, -⟩ |
        ⟨others, otherJoint, last, before', y, same, otherRun, second, rfl⟩
      · exact absurd (run.closed_before joint) (second.tight (.inr (.inr rfl)) _ _ rfl)
      · obtain ⟨front, rfl⟩ := (operand.tight (.inr (.inr rfl))).append_inj
          (second.tight (.inr (.inr rfl))) (run.closed_before joint)
          (otherRun.closed_before otherJoint) same
        obtain ⟨rfl, rfl⟩ := Joint.append_inj front
        have inBefore : UniqueBelow σ before := fun inner u v shorter =>
          unique inner u v (by simp; omega)
        have inWord : UniqueBelow σ word := fun inner u v shorter =>
          unique inner u v (by simp; omega)
        rw [ih inBefore otherRun, operand.unique_signed inWord second]

/-- A well-formed term denotes only one number under a valuation. -/
theorem Denotes.unique (term : Denotes .full σ .sum text x) (other : Denotes .full σ .sum text y) :
    x = y := by
  induction size : text.length using Nat.strong_induction_on generalizing text x y with
  | _ size ih =>
      have below : UniqueBelow σ text := fun inner x y shorter first second =>
        ih inner.length (size ▸ shorter) first second rfl
      obtain ⟨total, last, run, rfl⟩ := term.exists_run
      obtain ⟨otherTotal, otherLast, another, rfl⟩ := other.exists_run
      cases run.unique below another
      rfl

end MatrixFormula.Cell
