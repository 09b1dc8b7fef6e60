import MatrixFormula.Proofs.Markup.Divergence

/-!
# Splitting a name of two variables

A name that is displayed as the product of two other names can be written as these two names
without a change, except next to a fraction bar and in front of an exponent. There the whole
product is taken in when it is one name, and a single factor of it when it is two.
-/

namespace MatrixFormula.Markup

variable {style : NameStyle}

theorem Draft.run_append (draft : Draft) (before after : List (Word × Text)) :
    draft.run style (before ++ after) =
      (before.foldlM (Draft.step style) draft >>= fun next => next.run style after) := by
  simp [run, List.foldlM_append, bind_assoc]

/-- Whether a factor stands next to something that binds more tightly than a product: a
fraction bar on either side, or an exponent behind it. -/
def Bound (before after : List (Word × Text)) : Prop :=
  before.getLast?.map Prod.fst = some .slash ∨
    after.head?.map Prod.fst = some .slash ∨ after.head?.map Prod.fst = some .caret

instance (before after : List (Word × Text)) : Decidable (Bound before after) :=
  inferInstanceAs (Decidable (_ ∨ _))

theorem Agree.refl {ε α : Type} {relation : α → α → Prop} (same : ∀ value, relation value value)
    (outcome : Except ε α) : Agree relation outcome outcome := by
  cases outcome with
  | ok value => exact .ok (same value)
  | error fault => exact .error fault

theorem Agree.mono {ε α β : Type} {relation wider : α → β → Prop} {first : Except ε α}
    {second : Except ε β} (agree : Agree relation first second)
    (weaken : ∀ a b, relation a b → wider a b) : Agree wider first second := by
  cases agree with
  | ok related => exact .ok (weaken _ _ related)
  | error fault => exact .error fault

variable {stack below : List Outline} {lead first second : Text}

/-- In a denominator, a product in one name has both factors and one in two names only the
first of them. -/
theorem diverged_of_bar {numerator : Text} (leads : Leads stack lead below) :
    Diverged ⟨⟨5, numerator⟩ :: stack, some (first ++ Latex.productDot ++ second)⟩
      ⟨Joint.product.await first (⟨5, numerator⟩ :: stack), some second⟩ := by
  have waits : Joint.product.await first (⟨5, numerator⟩ :: stack) =
      ⟨3, lead ++ (numerator ++ first ++ ['\x7d']) ++ Latex.productDot⟩ :: below := by
    simp only [Joint.await, Pending.await, Joint.product]
    rw [settle_fraction 3 (by decide), leads.product]
    rfl
  have dot : (lead ++ (numerator ++ first ++ ['\x7d']) ++ Latex.productDot).getLast? =
      some ' ' := by
    rw [List.getLast?_append]
    rfl
  rw [waits]
  refine .operand (.denominator numerator leads ?_ ?_) ?_
  · intro empty
    rw [empty] at dot
    cases dot
  · rw [dot]
    decide
  · exact ⟨first ++ Latex.productDot, [], second, rfl, rfl, by simp⟩

/-- In front of a fraction bar or an exponent, a product in one name is taken in as a whole. -/
theorem diverged_of_tight (leads : Leads stack lead below) {word : Word} {joint : Joint}
    (sign : word.joint? = some joint) (tight : word = .slash ∨ word = .caret) :
    Diverged ⟨joint.await (first ++ Latex.productDot ++ second) stack, none⟩
      ⟨joint.await second (secondFactor lead first below), none⟩ := by
  obtain ⟨before, starts, high, bracket⟩ : ∃ before, joint.before = before ++ ['\x7b'] ∧
      5 ≤ joint.least ∧ 0 < joint.rank := by
    rcases tight with rfl | rfl
    · cases sign
      exact ⟨"\\frac", rfl, by decide, by decide⟩
    · cases sign
      exact ⟨[], rfl, by decide, by decide⟩
  have stays : Pending.settle joint.least second (secondFactor lead first below) =
      (second, secondFactor lead first below) :=
    Pending.settle_loose (show 3 < joint.least by omega) second _
  refine .wait bracket (leads.tighter _ high _) stays (.led _ leads) ?_ none
  refine ⟨joint.before ++ first ++ " \\cdot", before, ' ' :: (second ++ joint.after),
    '\x7b' :: (second ++ joint.after), ?_, ?_, rfl, fun same => ?_⟩
  · have dot : Latex.productDot = " \\cdot" ++ [' '] := rfl
    rw [dot]
    simp only [List.append_assoc, List.cons_append, List.nil_append]
  · rw [starts, List.append_assoc, List.append_assoc]
    rfl
  · cases (List.cons.inj same).1

/-- Behind anything but an exponent mark, a product in one name leads to the same markup as its
factors in a row exactly when nothing next to it binds more tightly. -/
theorem agree_run_product {bar : Prop} {words : List (Word × Text)} (orderly : Orderly stack)
    (tops : ∀ top ∈ stack.head?, top.rank ≤ 5 ∧ (top.rank = 5 ↔ bar)) (waits : bar → stack ≠ []) :
    Agree (fun whole parts => parts = whole ↔
        ¬ (bar ∨ words.head?.map Prod.fst = some .slash ∨ words.head?.map Prod.fst = some .caret))
      (Draft.run style ⟨stack, some (first ++ Latex.productDot ++ second)⟩ words)
      (Draft.run style ⟨Joint.product.await first stack, some second⟩ words) := by
  by_cases behind : bar
  · obtain ⟨top, rest, rfl⟩ := List.exists_cons_of_ne_nil (waits behind)
    obtain ⟨next, lower⟩ := orderly_cons.mp orderly
    obtain ⟨rank, numerator⟩ := top
    obtain rfl : rank = 5 := (tops _ rfl).2.mpr behind
    obtain ⟨lead, below, leads⟩ := lower.exists_leads fun other head =>
      (next other head).resolve_right (by simp)
    refine (diverged_of_bar leads).run words |>.mono fun whole parts differ => ?_
    simp [behind, differ.symm]
  · obtain ⟨lead, below, leads⟩ := orderly.exists_leads fun top head => by
      obtain ⟨low, fraction⟩ := tops top head
      exact Nat.lt_of_le_of_ne low (mt fraction.mp behind)
    rw [leads.await_product]
    by_cases tight : words.head?.map Prod.fst = some .slash ∨ words.head?.map Prod.fst = some .caret
    · obtain ⟨⟨word, text⟩, rest, rfl⟩ : ∃ lexeme rest, words = lexeme :: rest := by
        cases words with
        | nil => simp at tight
        | cons lexeme rest => exact ⟨lexeme, rest, rfl⟩
      have tight : word = .slash ∨ word = .caret := by simpa using tight
      obtain ⟨joint, sign⟩ : ∃ joint, word.joint? = some joint := by
        rcases tight with rfl | rfl <;> exact ⟨_, rfl⟩
      have step (stack : List Outline) (operand : Text) :
          Draft.run style ⟨stack, some operand⟩ ((word, text) :: rest) =
            Draft.run style ⟨joint.await operand stack, none⟩ rest := by
        rw [Draft.run_cons]
        simp only [Draft.step, Draft.proceed, sign]
        rfl
      rw [step, step]
      refine ((diverged_of_tight leads sign tight).run rest).mono fun whole parts differ => ?_
      simp [behind, tight, differ.symm]
    · have loose : ∀ lexeme ∈ words.head?, lexeme.1 ≠ .caret ∧ lexeme.1 ≠ .slash := by
        intro lexeme head
        have head : words.head? = some lexeme := head
        simpa [head, and_comm] using tight
      rw [leads.run_product loose]
      have free := not_or.mpr ⟨behind, tight⟩
      exact .refl (fun _ => ⟨fun _ => free, fun _ => rfl⟩) _

/-- A name that is displayed as a product is displayed like its two factors in a row exactly
when nothing next to it binds more tightly than a product. -/
theorem agree_run_split {name left right : Text} {before after : List (Word × Text)}
    (product : writeName style name =
      writeName style left ++ Latex.productDot ++ writeName style right)
    (caret : before.getLast?.map Prod.fst ≠ some .caret) :
    Agree (fun whole parts => parts = whole ↔ ¬ Bound before after)
      (Draft.run style ⟨[], none⟩ (before ++ (.name, name) :: after))
      (Draft.run style ⟨[], none⟩ (before ++ (.name, left) :: (.name, right) :: after)) := by
  rw [Draft.run_append, Draft.run_append]
  cases reached : before.foldlM (Draft.step style) ⟨[], none⟩ with
  | error fault => exact .error fault
  | ok draft =>
      have follows := Draft.follows_nil.foldlM reached
      rw [Option.or_none] at follows
      obtain ⟨orderly, tops, bar⟩ := follows.factorStack caret
      show Agree _ (Draft.run ..) (Draft.run ..)
      have whole : draft.run style ((.name, name) :: after) =
          Draft.run style ⟨draft.factorStack,
            some (writeName style left ++ Latex.productDot ++ writeName style right)⟩ after := by
        rw [Draft.run_cons, Draft.step_operand rfl, product]
        rfl
      have parts : draft.run style ((.name, left) :: (.name, right) :: after) =
          Draft.run style ⟨Joint.product.await (writeName style left) draft.factorStack,
            some (writeName style right)⟩ after := by
        rw [Draft.run_cons, Draft.step_operand rfl]
        show Draft.run .. = _
        rw [Draft.run_cons, Draft.step_operand rfl]
        rfl
      rw [whole, parts]
      exact agree_run_product orderly tops bar

end MatrixFormula.Markup
