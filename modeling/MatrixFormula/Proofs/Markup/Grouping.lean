import Mathlib.Data.List.Chain
import MatrixFormula.Proofs.Markup.Outline
import MatrixFormula.Proofs.Outcome

/-!
# How a displayed formula groups its factors

Next to a factor the stack has a run of products and minus signs, which only write in front
of the factor. So a factor that is a product itself is displayed like its two factors in a row,
as long as nothing binds more tightly than a product on either side: neither a fraction bar in
front of it, nor a fraction bar or an exponent behind it.
-/

namespace MatrixFormula.Markup

variable {style : NameStyle} {stack : List Outline}

/-- Denominators and exponents start with an operand or an open parenthesis: whatever waits
above a frame that binds so tightly is a parenthesis or an exponent. -/
def Orderly (stack : List Outline) : Prop :=
  stack.IsChain fun upper lower => lower.rank < 5 ∨ upper.rank = 0 ∨ upper.rank = 6

/-- A frame may stand on an orderly stack when it does not bind tightly in the place of an operand.
-/
theorem orderly_cons {top : Outline} :
    Orderly (top :: stack) ↔
      (∀ next ∈ stack.head?, next.rank < 5 ∨ top.rank = 0 ∨ top.rank = 6) ∧ Orderly stack :=
  List.isChain_cons

/-- Settling an operand keeps the stack in order. -/
theorem Orderly.settle (orderly : Orderly stack) (least : Nat) (operand : Text) :
    Orderly (Pending.settle least operand stack).2 :=
  List.IsChain.suffix orderly (Pending.settle_suffix least operand stack)

/-- An operator keeps the stack in order when it takes in all fractions and powers, or is an
exponent. -/
theorem Orderly.await (orderly : Orderly stack) {joint : Joint} (operand : Text)
    (takes : joint.least ≤ 5 ∨ joint.rank = 6) : Orderly (joint.await operand stack) := by
  refine orderly_cons.mpr ⟨fun next head => ?_, orderly.settle joint.least operand⟩
  have loose : next.rank < joint.least := Pending.rank_head_settle head
  rcases takes with loosely | exponent
  · exact .inl (by omega)
  · exact .inr (.inr exponent)

/-- Exponent marks and fraction bars are known by their ranks. -/
theorem Word.rank_joint? {word : Word} {joint : Joint} (sign : word.joint? = some joint) :
    (joint.least ≤ 5 ∨ joint.rank = 6) ∧ (5 < joint.rank → word = .caret) ∧
      (joint.rank = 5 ↔ word = .slash) := by
  cases word <;> cases sign <;> decide

/-! ## Drafts that words lead to -/

namespace Draft

/-- What holds when some words were read, of which the last one is given. A formula that ends
with a fraction bar or an exponent mark waits for an operand of it. -/
structure Follows (last? : Option Word) (draft : Draft) : Prop where
  orderly : Orderly draft.stack
  caret : draft.operand? = none → ∀ top ∈ draft.stack.head?, 5 < top.rank → last? = some .caret
  slash : draft.operand? = none → ∀ top ∈ draft.stack.head?, top.rank = 5 → last? = some .slash
  bar : last? = some .slash → draft.operand? = none ∧ ∃ top ∈ draft.stack.head?, top.rank = 5

/-- No draft is begun without words. -/
theorem follows_nil : Follows none ⟨[], none⟩ where
  orderly := .nil
  caret := by simp
  slash := by simp
  bar := by simp

/-- A draft with an operand does not wait for one. -/
theorem Follows.of_operand {word : Word} {operand : Text} (orderly : Orderly stack)
    (other : word ≠ .slash) : Follows (some word) ⟨stack, some operand⟩ where
  orderly := orderly
  caret := by simp
  slash := by simp
  bar same := absurd (Option.some.inj same) other

/-- A draft waits for an operand of the frame that its last word put on the stack. -/
theorem Follows.of_frame {word : Word} {top : Outline} (orderly : Orderly (top :: stack))
    (caret : 5 < top.rank → word = .caret) (slash : top.rank = 5 ↔ word = .slash) :
    Follows (some word) ⟨top :: stack, none⟩ where
  orderly := orderly
  caret := by simpa using caret
  slash := by simpa using slash.mp
  bar same := ⟨rfl, top, rfl, slash.mpr (Option.some.inj same)⟩

/-- A fraction bar is no operand. -/
theorem Word.ne_slash_of_operand? {word : Word} {text operand : Text}
    (factor : word.operand? style text = some operand) : word ≠ .slash := by
  rintro rfl
  cases factor

/-- A word that starts an operand leads to a draft that follows it. -/
theorem Follows.start {word : Word} {text : Text} {next : Draft} (orderly : Orderly stack)
    (read : Draft.start style stack word text = .ok next) : Follows (some word) next := by
  unfold Draft.start at read
  split at read
  · next operand factor =>
      cases read
      exact .of_operand orderly (Word.ne_slash_of_operand? factor)
  · split at read
    · cases read
      exact .of_frame (orderly_cons.mpr ⟨by simp, orderly⟩) (by simp) (by simp)
    · split at read
      · next admits =>
          cases read
          refine .of_frame (orderly_cons.mpr ⟨fun next head => .inl ?_, orderly⟩) (by simp)
            (by simp)
          have head : stack.head? = some next := head
          simpa [head] using admits
      · cases read
    · cases read

/-- A word behind an operand leads to a draft that follows it. -/
theorem Follows.proceed {word : Word} {operand text : Text} {next : Draft} (orderly : Orderly stack)
    (read : Draft.proceed style stack operand word text = .ok next) : Follows (some word) next := by
  have product : Orderly (Joint.product.await operand stack) := orderly.await operand (by decide)
  unfold Draft.proceed at read
  split at read
  · next joint sign =>
      cases read
      obtain ⟨takes, caret, slash⟩ := Word.rank_joint? sign
      exact .of_frame (orderly.await operand takes) caret slash
  · split at read
    · next factor =>
        cases read
        exact .of_operand product (Word.ne_slash_of_operand? factor)
    · split at read
      · cases read
        exact .of_frame (orderly_cons.mpr ⟨by simp, product⟩) (by simp) (by simp)
      · next settled _ _ =>
          cases read
          have lower := orderly.settle 1 operand
          rw [settled] at lower
          exact .of_operand (orderly_cons.mp lower).2 (by simp)
      · cases read
      · cases read

/-- Reading a word gives a draft that ends with the word. -/
theorem Follows.step {last? : Option Word} {draft next : Draft} {lexeme : Word × Text}
    (follows : Follows last? draft) (read : draft.step style lexeme = .ok next) :
    Follows (some lexeme.1) next := by
  unfold Draft.step at read
  split at read
  · exact .start follows.orderly read
  · exact .proceed follows.orderly read

/-- Reading words gives a draft that ends with the last of them. -/
theorem Follows.foldlM {draft next : Draft} {words : List (Word × Text)} {last? : Option Word}
    (follows : Follows last? draft) (read : words.foldlM (Draft.step style) draft = .ok next) :
    Follows ((words.getLast?.map Prod.fst).or last?) next := by
  induction words generalizing draft last? with
  | nil =>
      cases read
      exact follows
  | cons lexeme rest ih =>
      rw [List.foldlM_cons] at read
      obtain ⟨between, first, read⟩ := exists_of_bind_eq_ok read
      have later := ih (follows.step first) read
      cases rest with
      | nil => simpa using later
      | cons second others =>
          rw [List.getLast?_cons_cons]
          cases last : (second :: others).getLast? with
          | none => simp at last
          | some lexeme => simpa [last] using later

/-- The stack on which the next factor is put. -/
def factorStack (draft : Draft) : List Outline :=
  match draft.operand? with
  | none => draft.stack
  | some operand => Joint.product.await operand draft.stack

/-- An operand behind a draft is the next factor, or the operand that was missing. -/
theorem step_operand {draft : Draft} {word : Word} {text operand : Text}
    (factor : word.operand? style text = some operand) :
    draft.step style (word, text) = .ok ⟨draft.factorStack, some operand⟩ := by
  have plain : word.joint? = none := by
    cases word <;> first | rfl | cases factor
  obtain ⟨stack, operand?⟩ := draft
  cases operand? with
  | none => simp [step, start, factor, factorStack]
  | some operand => simp [step, proceed, plain, factor, factorStack]

/-- The next factor stands behind a fraction bar or an exponent mark only if these came last. -/
theorem Follows.factorStack {last? : Option Word} {draft : Draft} (follows : Follows last? draft)
    (caret : last? ≠ some .caret) :
    Orderly draft.factorStack ∧
      (∀ top ∈ draft.factorStack.head?, top.rank ≤ 5 ∧ (top.rank = 5 ↔ last? = some .slash)) ∧
      (last? = some .slash → draft.factorStack ≠ []) := by
  obtain ⟨stack, operand?⟩ := draft
  cases operand? with
  | none =>
      refine ⟨follows.orderly, fun top head => ⟨?_, follows.slash rfl top head, ?_⟩, ?_⟩
      · exact Nat.not_lt.mp fun exponent => caret (follows.caret rfl top head exponent)
      · intro last
        obtain ⟨-, other, same, rank⟩ := follows.bar last
        cases Option.mem_unique same head
        exact rank
      · rintro last rfl
        obtain ⟨-, other, same, -⟩ := follows.bar last
        cases same
  | some operand =>
      have other : last? ≠ some .slash := fun last => nomatch (follows.bar last).1
      refine ⟨follows.orderly.await operand (by decide), fun top head => ?_, ?_⟩
      · cases head
        simpa [Joint.product, Joint.outline] using other
      · exact fun last => absurd last other

end Draft

/-! ## Products in a row -/

/-- Settled as a product or more loosely, an operand gets the lead in front of it and nothing
behind it. -/
structure Leads (stack : List Outline) (lead : Text) (below : List Outline) : Prop where
  product : ∀ operand, Pending.settle 3 operand stack = (lead ++ operand, below)
  looser : ∀ least ≤ 3, ∀ operand,
    Pending.settle least operand stack = Pending.settle least (lead ++ operand) below
  tighter : ∀ least, 5 ≤ least → ∀ operand, Pending.settle least operand stack = (operand, stack)

/-- Behind anything but a fraction bar or an exponent mark, a factor only gets a lead. -/
theorem Orderly.exists_leads (orderly : Orderly stack) (loose : ∀ top ∈ stack.head?, top.rank < 5) :
    ∃ lead below, Leads stack lead below := by
  induction stack with
  | nil => exact ⟨[], [], fun _ => rfl, fun _ _ _ => rfl, fun _ _ _ => rfl⟩
  | cons top stack ih =>
      have top_lt : top.rank < 5 := loose top rfl
      have tighter (least : Nat) (high : 5 ≤ least) (operand : Text) :
          Pending.settle least operand (top :: stack) = (operand, top :: stack) :=
        Pending.settle_loose (show top.rank < least by omega) operand _
      by_cases tight : 3 ≤ top.rank
      · obtain ⟨next, lower⟩ := orderly_cons.mp orderly
        obtain ⟨lead, below, leads⟩ := ih lower fun other head =>
          (next other head).resolve_right (by omega)
        have filled (operand : Text) : Pending.fill top operand = top.opening ++ operand := by
          simp [Pending.fill, Outline.closing, show ¬ 5 ≤ top.rank by omega]
        refine ⟨lead ++ top.opening, below, fun operand => ?_, fun least low operand => ?_, tighter⟩
        · rw [Pending.settle_tight tight, filled, leads.product, List.append_assoc]
        · rw [Pending.settle_tight (low.trans tight), filled, leads.looser least low,
            List.append_assoc]
      · refine ⟨[], top :: stack, fun operand => ?_, fun _ _ _ => rfl, tighter⟩
        rw [Pending.settle_loose (Nat.lt_of_not_le tight)]
        rfl

section

variable {lead first second : Text} {below : List Outline}

/-- What waits for the second factor of a product. -/
def secondFactor (lead first : Text) (below : List Outline) : List Outline :=
  Joint.product.outline (lead ++ first) :: below

/-- A product behind two factors waits on what is below them. -/
theorem Leads.await_product (leads : Leads stack lead below) :
    Joint.product.await first stack = secondFactor lead first below := by
  simp only [Joint.await, Pending.await, Joint.product, leads.product]
  rfl

/-- As a summand or in parentheses, a product of two factors is the same in one and in two. -/
theorem Leads.settle_product (leads : Leads stack lead below) {least : Nat} (low : least ≤ 3) :
    Pending.settle least (first ++ Latex.productDot ++ second) stack =
      Pending.settle least second (secondFactor lead first below) := by
  have passes : least ≤ (Joint.product.outline (lead ++ first)).rank := low
  rw [leads.looser least low, secondFactor, Pending.settle_tight passes]
  simp [Pending.fill, Joint.outline, Joint.product, Outline.closing]

/-- Words that bind no more tightly than a product read the same behind both. -/
theorem proceed_congr {other : List Outline} {operand changed : Text}
    (same : ∀ least ≤ 3, Pending.settle least operand stack = Pending.settle least changed other)
    {word : Word} (caret : word ≠ .caret) (slash : word ≠ .slash) (text : Text) :
    Draft.proceed style stack operand word text = Draft.proceed style other changed word text := by
  have waits {joint : Joint} (low : joint.least ≤ 3) :
      joint.await operand stack = joint.await changed other := by
    rw [Joint.await, Joint.await, Pending.await, Pending.await, same joint.least low]
  unfold Draft.proceed
  rw [same 1 (by decide), @waits .product (by decide)]
  cases sign : word.joint? with
  | none => rfl
  | some joint =>
      have low : joint.least ≤ 3 := by
        cases word <;>
          first | exact absurd rfl caret | exact absurd rfl slash | (cases sign <;> decide)
      simp only [waits low]

/-- A product in one factor is displayed like two factors unless a fraction bar or an exponent
follows. -/
theorem Leads.run_product (leads : Leads stack lead below) {words : List (Word × Text)}
    (loose : ∀ word ∈ words.head?, word.1 ≠ .caret ∧ word.1 ≠ .slash) :
    Draft.run style ⟨stack, some (first ++ Latex.productDot ++ second)⟩ words =
      Draft.run style ⟨secondFactor lead first below, some second⟩ words := by
  cases words with
  | nil =>
      simp only [Draft.run, List.foldlM_nil, pure_bind, Draft.finish]
      rw [leads.settle_product (by decide)]
  | cons lexeme words =>
      obtain ⟨caret, slash⟩ := loose lexeme rfl
      have same := @proceed_congr style stack (secondFactor lead first below) _ second
        (fun _ low => leads.settle_product low) _ caret slash lexeme.2
      rw [Draft.run_cons, Draft.run_cons]
      show (Draft.proceed .. >>= _) = (Draft.proceed .. >>= _)
      rw [same]

end

end MatrixFormula.Markup
