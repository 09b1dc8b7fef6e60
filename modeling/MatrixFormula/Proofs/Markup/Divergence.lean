import MatrixFormula.Proofs.Markup.Grouping

/-!
# Formulas that are grouped differently

Once a product in one factor has been cut off by a fraction bar or an exponent, its markup
differs from that of the two factors in a row at a fixed distance from the end, and nothing
that is read later can make up for it: what is written around the two markups in front may
differ, but what is written behind them is the same.
-/

namespace MatrixFormula.Markup

/-! ## Texts that differ near their ends -/

/-- Two texts that differ at the same distance from their ends. -/
def Apart (left right : Text) : Prop :=
  ∃ before other first second, left = before ++ first ∧ right = other ++ second ∧
    first.length = second.length ∧ first ≠ second

/-- Texts that differ at the same distance from their ends are different. -/
theorem Apart.ne {left right : Text} (apart : Apart left right) : left ≠ right := by
  rintro rfl
  obtain ⟨before, other, first, second, spelled, same, lengths, differ⟩ := apart
  exact differ (List.append_inj' (spelled.symm.trans same) lengths).2

/-- Whatever is written in front of the texts, they stay apart if the same is written behind
them. -/
theorem Apart.around {left right : Text} (apart : Apart left right) (before other behind : Text) :
    Apart (before ++ left ++ behind) (other ++ right ++ behind) := by
  obtain ⟨u, v, first, second, rfl, rfl, lengths, differ⟩ := apart
  refine ⟨before ++ u, other ++ v, first ++ behind, second ++ behind, by simp, by simp,
    by simp [lengths], ?_⟩
  exact fun same => differ (List.append_cancel_right same)

/-- The second text ends as the first one does, behind anything but a closing brace. -/
def Trails (left right : Text) : Prop :=
  ∃ before other last, left = before ++ last ∧ right = other ++ last ∧ other.getLast? ≠ some '\x7d'

/-- Text on both sides keeps the difference, unless it ends with a closing brace in front. -/
theorem Trails.around {left right before : Text} (trails : Trails left right)
    (open_ : before.getLast? ≠ some '\x7d') (behind : Text) :
    Trails (before ++ left ++ behind) (before ++ right ++ behind) := by
  obtain ⟨u, v, last, rfl, rfl, apart⟩ := trails
  refine ⟨before ++ u, before ++ v, last ++ behind, by simp, by simp, ?_⟩
  rw [List.getLast?_append]
  cases found : v.getLast? with
  | none => simpa using open_
  | some char => simpa [found] using apart

/-- A run of characters is shifted only onto itself. -/
theorem eq_of_append_singleton_eq_cons {run : Text} {first last : Char}
    (shifted : run ++ [last] = first :: run) : last = first := by
  induction run generalizing first with
  | nil => simpa using shifted
  | cons char rest ih =>
      obtain ⟨rfl, later⟩ := List.cons.inj shifted
      exact ih later

/-- A closing brace behind the first text sets the two apart. -/
theorem Trails.apart {left right : Text} (trails : Trails left right) (before behind : Text)
    {front : Text} (nonempty : front ≠ []) (open_ : front.getLast? ≠ some '\x7d') :
    Apart (before ++ left ++ '\x7d' :: behind) (front ++ right ++ behind) := by
  obtain ⟨u, v, last, rfl, rfl, apart⟩ := trails
  obtain ⟨start, char, ends⟩ : ∃ start char, front ++ v = start ++ [char] :=
    ⟨_, _, (List.dropLast_concat_getLast (l := front ++ v) (by simp [nonempty])).symm⟩
  have other : char ≠ '\x7d' := by
    rintro rfl
    have final : (front ++ v).getLast? = some '\x7d' := by simp [ends]
    rw [List.getLast?_append] at final
    cases found : v.getLast? with
    | none => simp [found, open_] at final
    | some char => simp_all
  refine ⟨before ++ u, start, last ++ '\x7d' :: behind, char :: (last ++ behind), by simp, ?_, ?_,
    fun same => ?_⟩
  · rw [← List.append_assoc, ends]
    simp
  · simp only [List.length_append, List.length_cons]
    omega
  · have shifted : (last ++ ['\x7d']) ++ behind = (char :: last) ++ behind := by simpa using same
    exact other (eq_of_append_singleton_eq_cons (List.append_cancel_right shifted)).symm

/-! ## Drafts that lead to different markup -/

/-- How two texts differ. -/
inductive Gap where
  | apart
  | trails
deriving DecidableEq

/-- The two texts differ in the given way. -/
def Gap.Holds : Gap → Text → Text → Prop
  | .apart => Apart
  | .trails => Trails

/-- Text on both sides keeps a difference of either kind. -/
theorem Gap.Holds.around {gap : Gap} {left right before : Text} (differ : gap.Holds left right)
    (open_ : before.getLast? ≠ some '}') (behind : Text) :
    gap.Holds (before ++ left ++ behind) (before ++ right ++ behind) := by
  cases gap with
  | apart => exact Apart.around differ before before behind
  | trails => exact Trails.around differ open_ behind

/-- Two stacks under texts that differ: the same one, or one that only writes a lead where the
other one has a product. The second text may still have a denominator to be cut off from. -/
inductive Under : Gap → List Outline → List Outline → Prop where
  | same (stack : List Outline) : Under .apart stack stack
  | led {stack below : List Outline} {lead : Text} (opening : Text)
      (leads : Leads stack lead below) : Under .apart stack (⟨3, opening⟩ :: below)
  | denominator {stack below : List Outline} {lead opening : Text} (numerator : Text)
      (leads : Leads stack lead below) (nonempty : opening ≠ [])
      (open_ : opening.getLast? ≠ some '}') :
      Under .trails (⟨5, numerator⟩ :: stack) (⟨3, opening⟩ :: below)

/-- Two drafts that differ in their operands or in one frame of their stacks. -/
inductive Diverged : Draft → Draft → Prop where
  | operand {gap : Gap} {stack other : List Outline} {left right : Text}
      (under : Under gap stack other) (differ : gap.Holds left right) :
      Diverged ⟨stack, some left⟩ ⟨other, some right⟩
  | frame {gap : Gap} {stack other : List Outline} {rank : Nat} {left right : Text}
      (above : List Outline) (operand? : Option Text) (under : Under gap stack other)
      (differ : gap.Holds left right) (bracket : 0 < rank) :
      Diverged ⟨above ++ ⟨rank, left⟩ :: stack, operand?⟩
        ⟨above ++ ⟨rank, right⟩ :: other, operand?⟩

section

variable {gap : Gap} {stack other : List Outline} {left right : Text}

/-- Texts that are apart stay so when the same stack takes them in. -/
theorem Apart.settle (apart : Apart left right) (least : Nat) (stack : List Outline) :
    Apart (Pending.settle least left stack).1 (Pending.settle least right stack).1 ∧
      (Pending.settle least left stack).2 = (Pending.settle least right stack).2 := by
  induction stack generalizing left right with
  | nil => exact ⟨apart, rfl⟩
  | cons top stack ih =>
      rw [Pending.settle_cons, Pending.settle_cons]
      split
      · exact ih (apart.around top.opening top.opening top.closing)
      · exact ⟨apart, rfl⟩

/-- A product waits in front of its operand without any markup behind it. -/
theorem settle_product (least : Nat) (low : least ≤ 3) (opening operand : Text)
    (below : List Outline) :
    Pending.settle least operand (⟨3, opening⟩ :: below) =
      Pending.settle least (opening ++ operand) below := by
  rw [Pending.settle_tight low]
  simp [Pending.fill, Outline.closing]

/-- A fraction closes its denominator with a brace. -/
theorem settle_fraction (least : Nat) (low : least ≤ 5) (numerator operand : Text)
    (below : List Outline) :
    Pending.settle least operand (⟨5, numerator⟩ :: below) =
      Pending.settle least (numerator ++ operand ++ ['}']) below := by
  rw [Pending.settle_tight low]
  simp [Pending.fill, Outline.closing]

/-- Settled as summands, different operands stay different and leave the same stack. -/
theorem Under.settle (under : Under gap stack other) (differ : gap.Holds left right) {least : Nat}
    (low : least ≤ 3) :
    Apart (Pending.settle least left stack).1 (Pending.settle least right other).1 ∧
      (Pending.settle least left stack).2 = (Pending.settle least right other).2 := by
  cases under with
  | same => exact Apart.settle differ least stack
  | @led _ below lead opening leads =>
      rw [leads.looser least low, settle_product least low]
      have apart := Apart.around differ lead opening []
      rw [List.append_nil, List.append_nil] at apart
      exact apart.settle least below
  | @denominator stack below lead opening numerator leads nonempty open_ =>
      rw [settle_fraction least (by omega), leads.looser least low, settle_product least low]
      have apart : Apart (lead ++ (numerator ++ left ++ ['\x7d'])) (opening ++ right) := by
        simpa using Trails.apart differ (lead ++ numerator) [] nonempty open_
      exact apart.settle least below

/-- Operators whose left operands differ wait on stacks that differ. -/
theorem Diverged.wait {joint : Joint} (bracket : 0 < joint.rank) {whole changed : Text}
    {below under : List Outline} (first : Pending.settle joint.least left stack = (whole, below))
    (second : Pending.settle joint.least right other = (changed, under))
    (beneath : Under gap below under)
    (differ : gap.Holds (joint.before ++ whole ++ joint.after)
      (joint.before ++ changed ++ joint.after)) (operand? : Option Text) :
    Diverged ⟨joint.await left stack, operand?⟩ ⟨joint.await right other, operand?⟩ := by
  unfold Joint.await Pending.await
  rw [first, second]
  exact .frame [] operand? beneath differ bracket

/-- An operator behind operands that differ waits on the same stack. -/
theorem Diverged.wait_same {joint : Joint} (bracket : 0 < joint.rank)
    (settled : Apart (Pending.settle joint.least left stack).1
        (Pending.settle joint.least right other).1 ∧
      (Pending.settle joint.least left stack).2 = (Pending.settle joint.least right other).2)
    (operand? : Option Text) :
    Diverged ⟨joint.await left stack, operand?⟩ ⟨joint.await right other, operand?⟩ := by
  cases first : Pending.settle joint.least left stack with
  | mk whole below =>
      cases second : Pending.settle joint.least right other with
      | mk changed under =>
          rw [first, second] at settled
          obtain ⟨apart, rfl⟩ := settled
          exact .wait bracket first second (.same _) (apart.around _ _ _) operand?

/-- Different operands stay different under every operator. -/
theorem Under.await (under : Under gap stack other) (differ : gap.Holds left right)
    {word : Word} {joint : Joint} (sign : word.joint? = some joint) (operand? : Option Text) :
    Diverged ⟨joint.await left stack, operand?⟩ ⟨joint.await right other, operand?⟩ := by
  have bracket : 0 < joint.rank := by
    cases word <;> cases sign <;> decide
  by_cases low : joint.least ≤ 3
  · exact .wait_same bracket (under.settle differ low) operand?
  · -- Only fraction bars and exponents leave a product on the stack.
    have tight : 5 ≤ joint.least ∧ joint.before ≠ [] ∧ joint.before.getLast? ≠ some '\x7d' := by
      cases word <;> cases sign <;> first | decide | exact absurd (by decide) low
    cases under with
    | same => exact .wait_same bracket (Apart.settle differ joint.least stack) operand?
    | @led _ below lead opening leads =>
        have stays : Pending.settle joint.least right (⟨3, opening⟩ :: below) =
            (right, ⟨3, opening⟩ :: below) :=
          Pending.settle_loose (show 3 < joint.least by omega) right _
        exact .wait bracket (leads.tighter _ tight.1 _) stays (.led opening leads)
          (Apart.around differ _ _ _) operand?
    | @denominator stack below lead opening numerator leads nonempty open_ =>
        have stays : Pending.settle joint.least right (⟨3, opening⟩ :: below) =
            (right, ⟨3, opening⟩ :: below) :=
          Pending.settle_loose (show 3 < joint.least by omega) right _
        by_cases bar : joint.least ≤ 5
        · have apart := @Trails.apart left right differ (joint.before ++ numerator) joint.after
            joint.before tight.2.1 tight.2.2
          have taken : Pending.settle joint.least left (⟨5, numerator⟩ :: stack) =
              (numerator ++ left ++ ['\x7d'], stack) := by
            rw [settle_fraction _ bar, leads.tighter _ tight.1]
          refine .wait bracket taken stays (.led opening leads) ?_ operand?
          simpa [Gap.Holds] using apart
        · have waits : Pending.settle joint.least left (⟨5, numerator⟩ :: stack) =
              (left, ⟨5, numerator⟩ :: stack) :=
            Pending.settle_loose (show 5 < joint.least by omega) left _
          exact .wait bracket waits stays (.denominator numerator leads nonempty open_)
            (Trails.around differ tight.2.2 _) operand?

/-- An operator takes in the nearest frame when that binds as tightly, and waits on it otherwise. -/
theorem Joint.await_cons (joint : Joint) (operand : Text) (top : Outline) (stack : List Outline) :
    joint.await operand (top :: stack) =
      if joint.least ≤ top.rank then joint.await (Pending.fill top operand) stack
      else joint.outline operand :: top :: stack := by
  by_cases passes : joint.least ≤ top.rank
  · rw [if_pos passes]
    exact Pending.await_tight passes joint.outline operand stack
  · rw [if_neg passes, await, Pending.await, Pending.settle_loose (Nat.lt_of_not_le passes)]

/-- What two frames make of one operand differs as the frames do. -/
theorem Gap.Holds.fill (differ : gap.Holds left right) (rank : Nat) (operand : Text) :
    gap.Holds (Pending.fill (⟨rank, left⟩ : Outline) operand)
      (Pending.fill (⟨rank, right⟩ : Outline) operand) := by
  have filled := @differ.around gap left right [] (by simp)
    (operand ++ Outline.closing ⟨rank, left⟩)
  simpa [Pending.fill, Outline.closing] using filled

/-- Operators keep two stacks different that differ in one frame. -/
theorem Under.await_frame (under : Under gap stack other) (differ : gap.Holds left right)
    {rank : Nat} (bracket : 0 < rank) {word : Word} {joint : Joint}
    (sign : word.joint? = some joint) (above : List Outline) (operand : Text)
    (operand? : Option Text) :
    Diverged ⟨joint.await operand (above ++ ⟨rank, left⟩ :: stack), operand?⟩
      ⟨joint.await operand (above ++ ⟨rank, right⟩ :: other), operand?⟩ := by
  induction above generalizing operand with
  | nil =>
      rw [List.nil_append, List.nil_append, Joint.await_cons, Joint.await_cons]
      by_cases passes : joint.least ≤ rank
      · rw [if_pos passes, if_pos passes]
        exact under.await (differ.fill rank operand) sign operand?
      · rw [if_neg passes, if_neg passes]
        exact .frame [joint.outline operand] operand? under differ bracket
  | cons top above ih =>
      rw [List.cons_append, List.cons_append, Joint.await_cons, Joint.await_cons]
      split
      · exact ih _
      · exact .frame (joint.outline operand :: top :: above) operand? under differ bracket

/-- An operator behind drafts that differ leaves drafts that differ. -/
theorem Diverged.await (diverged : Diverged ⟨stack, some left⟩ ⟨other, some right⟩) {word : Word}
    {joint : Joint} (sign : word.joint? = some joint) (operand? : Option Text) :
    Diverged ⟨joint.await left stack, operand?⟩ ⟨joint.await right other, operand?⟩ := by
  cases diverged with
  | operand under differ => exact under.await differ sign operand?
  | frame above _ under differ bracket =>
      exact under.await_frame differ bracket sign above left operand?

/-- Two settled operands on stacks of one length: either they differ or a frame does. -/
inductive Settled : Text × List Outline → Text × List Outline → Prop where
  | operand {left right : Text} (stack : List Outline) (apart : Apart left right) :
      Settled (left, stack) (right, stack)
  | frame {gap : Gap} {stack other : List Outline} {rank : Nat} {left right : Text} (top : Outline)
      (above : List Outline) (operand : Text) (under : Under gap stack other)
      (differ : gap.Holds left right) (bracket : 0 < rank) :
      Settled (operand, top :: (above ++ ⟨rank, left⟩ :: stack))
        (operand, top :: (above ++ ⟨rank, right⟩ :: other))

/-- Operands that differ settle to operands or frames that differ. -/
theorem Under.settled (under : Under gap stack other) (differ : gap.Holds left right) :
    Settled (Pending.settle 1 left stack) (Pending.settle 1 right other) := by
  obtain ⟨apart, same⟩ := under.settle differ (show 1 ≤ 3 by decide)
  cases first : Pending.settle 1 left stack with
  | mk whole below =>
      cases second : Pending.settle 1 right other with
      | mk changed under =>
          rw [first, second] at apart same
          obtain rfl : below = under := same
          exact .operand below apart

/-- An operand above frames that differ settles to operands or frames that differ. -/
theorem Under.settle_frame (under : Under gap stack other) (differ : gap.Holds left right)
    {rank : Nat} (bracket : 0 < rank) (above : List Outline) (operand : Text) :
    Settled (Pending.settle 1 operand (above ++ ⟨rank, left⟩ :: stack))
      (Pending.settle 1 operand (above ++ ⟨rank, right⟩ :: other)) := by
  induction above generalizing operand with
  | nil =>
      have passes : 1 ≤ rank := bracket
      rw [List.nil_append, List.nil_append, Pending.settle_tight passes,
        Pending.settle_tight passes]
      exact under.settled (differ.fill rank operand)
  | cons top above ih =>
      rw [List.cons_append, List.cons_append, Pending.settle_cons, Pending.settle_cons]
      split
      · exact ih _
      · exact .frame top above operand under differ bracket

/-- Drafts that differ settle to operands or frames that differ. -/
theorem Diverged.settle (diverged : Diverged ⟨stack, some left⟩ ⟨other, some right⟩) :
    Settled (Pending.settle 1 left stack) (Pending.settle 1 right other) := by
  cases diverged with
  | operand under differ => exact under.settled differ
  | frame above _ under differ bracket => exact under.settle_frame differ bracket above left

end

/-! ## Runs of drafts that differ -/

/-- Two outcomes agree when both have related results or both have the same fault. -/
inductive Agree {ε α β : Type} (relation : α → β → Prop) : Except ε α → Except ε β → Prop where
  | ok {first : α} {second : β} (related : relation first second) :
      Agree relation (.ok first) (.ok second)
  | error (fault : ε) : Agree relation (.error fault) (.error fault)

variable {style : NameStyle} {stack other : List Outline} {left right : Text}
  {first second : Draft}

/-- The same frame on drafts that differ leaves them different. -/
theorem Diverged.push (diverged : Diverged ⟨stack, none⟩ ⟨other, none⟩) (top : Outline) :
    Diverged ⟨top :: stack, none⟩ ⟨top :: other, none⟩ := by
  cases diverged with
  | frame above _ under differ bracket => exact .frame (top :: above) none under differ bracket

/-- The frames on top of two stacks that differ bind alike. -/
theorem Diverged.head?_rank (diverged : Diverged ⟨stack, none⟩ ⟨other, none⟩) :
    stack.head?.map Outline.rank = other.head?.map Outline.rank := by
  cases diverged with
  | frame above => cases above <;> rfl

/-- A word that starts an operand leaves drafts different, or is the same fault in both. -/
theorem Diverged.start (diverged : Diverged ⟨stack, none⟩ ⟨other, none⟩) (word : Word)
    (text : Text) :
    Agree Diverged (Draft.start style stack word text) (Draft.start style other word text) := by
  have same : (stack.head?.all fun outline => outline.rank < 5) =
      other.head?.all fun outline => outline.rank < 5 := by
    have ranks := diverged.head?_rank
    cases stack <;> cases other <;> simp_all
  unfold Draft.start
  cases word.operand? style text with
  | some operand =>
      cases diverged with
      | frame above _ under differ bracket =>
          exact .ok (.frame above (some operand) under differ bracket)
  | none =>
      cases word with
      | openParen => exact .ok (diverged.push _)
      | minus =>
          simp only [same]
          split
          · exact .ok (diverged.push _)
          · exact .error _
      | _ => exact .error _

/-- A word behind operands leaves drafts different, or is the same fault in both. -/
theorem Diverged.proceed (diverged : Diverged ⟨stack, some left⟩ ⟨other, some right⟩)
    (word : Word) (text : Text) :
    Agree Diverged (Draft.proceed style stack left word text)
      (Draft.proceed style other right word text) := by
  unfold Draft.proceed
  cases sign : word.joint? with
  | some joint => exact .ok (diverged.await sign none)
  | none =>
      cases word.operand? style text with
      | some next => exact .ok (@Diverged.await _ _ _ _ diverged .times _ rfl (some next))
      | none =>
          have settled := diverged.settle
          generalize Pending.settle 1 left stack = whole at settled ⊢
          generalize Pending.settle 1 right other = changed at settled ⊢
          cases word with
          | openParen => exact .ok ((@Diverged.await _ _ _ _ diverged .times _ rfl none).push _)
          | closeParen =>
              cases settled with
              | operand below apart =>
                  cases below with
                  | nil => exact .error _
                  | cons top below => exact .ok (.operand (.same below) (apart.around _ _ _))
              | frame top above operand under differ bracket =>
                  exact .ok (.frame above _ under differ bracket)
          | _ =>
              cases settled with
              | operand below => cases below <;> exact .error _
              | frame => exact .error _

/-- Drafts that differ still do after another word. -/
theorem Diverged.step (diverged : Diverged first second) (lexeme : Word × Text) :
    Agree Diverged (first.step style lexeme) (second.step style lexeme) := by
  obtain ⟨stack, operand?⟩ := first
  obtain ⟨other, changed?⟩ := second
  cases operand? with
  | none =>
      cases changed? with
      | none => exact diverged.start lexeme.1 lexeme.2
      | some => cases diverged
  | some left =>
      cases changed? with
      | none => cases diverged
      | some right => exact diverged.proceed lexeme.1 lexeme.2

/-- Drafts that differ have different markup, or the same fault. -/
theorem Diverged.finish (diverged : Diverged first second) :
    Agree (· ≠ ·) first.finish second.finish := by
  obtain ⟨stack, operand?⟩ := first
  obtain ⟨other, changed?⟩ := second
  cases operand? with
  | none =>
      cases changed? with
      | none => exact .error _
      | some => cases diverged
  | some left =>
      cases changed? with
      | none => cases diverged
      | some right =>
          have settled := diverged.settle
          simp only [Draft.finish]
          generalize Pending.settle 1 left stack = whole at settled ⊢
          generalize Pending.settle 1 right other = changed at settled ⊢
          cases settled with
          | operand below apart =>
              cases below with
              | nil => exact .ok apart.ne
              | cons => exact .error _
          | frame => exact .error _

/-- Drafts that differ lead to different markup, or to the same fault. -/
theorem Diverged.run (diverged : Diverged first second) (words : List (Word × Text)) :
    Agree (· ≠ ·) (first.run style words) (second.run style words) := by
  induction words generalizing first second with
  | nil => exact diverged.finish
  | cons lexeme rest ih =>
      rw [Draft.run_cons, Draft.run_cons]
      have next := @Diverged.step style first second diverged lexeme
      generalize first.step style lexeme = reached at next ⊢
      generalize second.step style lexeme = changed at next ⊢
      cases next with
      | ok related => exact ih related
      | error fault => exact .error fault

end MatrixFormula.Markup
