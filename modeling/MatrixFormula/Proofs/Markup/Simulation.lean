import MatrixFormula.Proofs.Markup.Reached

/-!
# The descent displays formulas

Each routine leads from a place where an operand must follow to one behind an operand, and gives its
markup. From there on the formula is read as before, so the descent ends with the markup of the
formula, or with its fault.
-/

namespace MatrixFormula.Markup

open Descent Trail

variable {style : NameStyle} {source : Text} {stack : List Frame} {cursor : Cursor} {token : Token}

/-! ## Routines -/

/-- A frame on top of the stack of a routine wants an operand of this rank, or a looser one. -/
def loosest : Level → Nat
  | .expr => 1
  | .term => 3
  | .factor => 4
  | .power | .atom => 6

/-- Nothing behind what a routine has read binds more tightly than the rank. -/
def tightest : Level → Nat
  | .expr => 0
  | .term => 2
  | .factor => 3
  | .power => 5
  | .atom => 7

/-- A routine reads the operand that must follow. A minus sign in front of a power was read before,
if it may stand there. -/
def Simulates (style : NameStyle) (source : Text) (call : Level → Descent Text) : Prop :=
  ∀ level stack trail, Loose (loosest level) stack →
    (level.rank ≤ 2 → ∀ token, trail.cursor.look? = some token → token.kind = .minus →
      stack.head?.all Frame.admitsMinus = false) →
    Reached source stack none trail.cursor →
    Ensures (call level) trail
      (fun output after => Complete style source (tightest level) stack output after.cursor)
      (fun reason _ => FaultOf (parse source) reason)

/-- What follows the start of a sum is another term, or no part of it. -/
theorem reach_of_sum {kind : Token.Kind} (plus : kind ≠ .plus) (minus : kind ≠ .minus)
    (equals : kind ≠ .equals) (limited : (Word.ofToken kind).reach ≤ 2) :
    (Word.ofToken kind).reach ≤ 0 := by
  cases kind <;> simp_all [Word.ofToken, Word.ofKind, Word.reach]

/-- What follows the start of a product is another factor, or no part of it. -/
theorem reach_of_product {kind : Token.Kind} (times : kind ≠ .times)
    (ends : (kind.startsOperand || kind == .backslash) = false)
    (limited : (Word.ofToken kind).reach ≤ 3) : (Word.ofToken kind).reach ≤ 2 := by
  cases kind <;> simp_all [Word.ofToken, Word.ofKind, Word.reach, Token.Kind.startsOperand]

theorem reach_of_fraction {kind : Token.Kind} (slash : kind ≠ .slash)
    (limited : (Word.ofToken kind).reach ≤ 5) : (Word.ofToken kind).reach ≤ 3 := by
  cases kind <;> simp_all [Word.ofToken, Word.ofKind, Word.reach]

theorem reach_of_power {kind : Token.Kind} (caret : kind ≠ .caret) :
    (Word.ofToken kind).reach ≤ 5 := by
  cases kind <;> simp_all [Word.ofToken, Word.ofKind, Word.reach]

theorem startsAtom_of_starts {kind : Token.Kind}
    (starts : kind.startsOperand || kind == .backslash) : (Word.ofToken kind).startsAtom := by
  cases kind <;> simp_all [Word.ofToken, Word.ofKind, Word.startsAtom, Token.Kind.startsOperand]

section Routines

variable {call : Level → Descent Text} {output : Text} {trail : Trail}
  (simulates : Simulates style source call)
include simulates

/-- A routine reads the operand that a frame waits for, and the frame takes it in. -/
theorem simulates_operand {frame : Frame} {write : Text → Text} (level : Level) (trail : Trail)
    (reached : Reached source (frame :: stack) none trail.cursor)
    (written : ∀ operand : Node,
      (Pending.fill frame operand : Node).layout style = write (operand.layout style))
    (closed : 1 ≤ Pending.rank frame) (wanted : frame.wanted ≤ loosest level)
    (takes : tightest level ≤ Pending.rank frame)
    (unsigned : level.rank ≤ 2 → frame.admitsMinus = false) :
    Ensures (call level) trail
      (fun output after => Complete style source (tightest level) stack (write output) after.cursor)
      (fun reason _ => FaultOf (parse source) reason) := by
  refine (simulates level _ trail (by rintro _ ⟨⟩; exact wanted)
    (fun small _ _ _ => by simpa using unsigned small) reached).mono
    (fun output after complete => ?_) fun reason after blamed => blamed
  obtain ⟨⟨operand, rfl, inner⟩, limited⟩ := complete
  exact ⟨⟨_, written operand, inner.fill closed (limited.mono takes)⟩, limited⟩

/-- A sign that follows is read together with the operand behind it. -/
theorem simulates_signed (operator : Operator) (sign : Text) (level : Level)
    (written : ∀ left right : Node, (operator.node left right).layout style =
      left.layout style ++ sign ++ right.layout style)
    (wanted : operator.right ≤ loosest level) (takes : tightest level ≤ operator.rank)
    (tight : ¬ level.rank ≤ 2) (holds : Holds style source stack output trail.cursor)
    {kind : Token.Kind} (looked : trail.cursor.look?.map Token.kind = some kind)
    (writes : (Word.ofKind kind).operator? = some operator) (loose : Loose operator.rank stack) :
    Ensures (signed call sign level output) (trail.goto trail.cursor.skipBlanks)
      (fun output after => Complete style source (tightest level) stack output after.cursor)
      (fun reason _ => FaultOf (parse source) reason) := by
  obtain ⟨node, rfl, reached⟩ := holds.skipBlanks
  obtain ⟨token, found, rfl⟩ := Option.map_eq_some_iff.mp looked
  rw [← Cursor.look?_skipBlanks] at found
  rw [signed, ensures_bind, ensures_readToken]
  refine ⟨fun other same => ?_, fun none => by simp [found] at none⟩
  obtain rfl : token = other := Option.some.inj (found.symm.trans same)
  rw [ensures_bind]
  exact simulates_operand simulates level _ (reached.sign operator found writes loose)
    (fun operand => by rw [operator.fill_frame, written]) (by simpa using operator.rank_pos)
    (by simpa using wanted) (by simpa using takes) (absurd · tight)

/-- A sum stays a sum when one more term is read, and ends where no sign follows. -/
theorem simulates_sumPass (loose : Loose 1 stack)
    (complete : Complete style source 2 stack output trail.cursor) :
    Ensures (sumPass call output) trail
      (Turn.Ends
        (fun output after => Complete style source 2 stack output after.cursor)
        fun output after => Complete style source 0 stack output after.cursor)
      (fun reason _ => FaultOf (parse source) reason) := by
  have sum : Loose 2 stack := loose.mono (by decide)
  rw [sumPass, ensures_bind, ensures_look]
  split
  · next plus =>
      rw [ensures_bind]
      exact simulates_signed simulates .sum _ .term (fun _ _ => rfl) (Nat.le_refl 3)
        (Nat.le_refl 2) (by decide) complete.holds plus rfl sum
  · next minus =>
      rw [ensures_bind]
      exact simulates_signed simulates .difference _ .term (fun _ _ => rfl) (Nat.le_refl 3)
        (Nat.le_refl 2) (by decide) complete.holds minus rfl sum
  · next equals =>
      rw [ensures_bind]
      exact simulates_signed simulates .equation _ .expr (fun _ _ => rfl) (Nat.le_refl 1)
        (Nat.zero_le 1) (by decide) complete.holds equals rfl loose
  · next plus minus equals =>
      refine ⟨complete.holds.skipBlanks, limited_skipBlanks.mpr fun token found => ?_⟩
      rw [found] at plus minus equals
      exact reach_of_sum (plus <| congrArg some ·) (minus <| congrArg some ·)
        (equals <| congrArg some ·) (complete.limited token found)

/-- A product stays a product when one more factor is read, and ends where none follows. -/
theorem simulates_productPass (loose : Loose 3 stack)
    (complete : Complete style source 3 stack output trail.cursor) :
    Ensures (productPass call output) trail
      (Turn.Ends
        (fun output after => Complete style source 3 stack output after.cursor)
        fun output after => Complete style source 2 stack output after.cursor)
      (fun reason _ => FaultOf (parse source) reason) := by
  obtain ⟨node, rfl, reached⟩ := complete.holds
  have factor {trail : Trail}
      (reached : Reached source (.product node :: stack) none trail.cursor) :
      Ensures (call .factor) trail
        (fun right after => Complete style source 3 stack
          (node.layout style ++ Latex.productDot ++ right) after.cursor)
        (fun reason _ => FaultOf (parse source) reason) :=
    simulates_operand simulates .factor _ reached (fun _ => rfl) (Nat.succ_pos 2) (Nat.le_refl 4)
      (Nat.le_refl 3) (absurd · (by decide))
  rw [productPass, ensures_bind, ensures_readIf]
  refine ⟨fun token found kind => ?_, fun other => ?_⟩
  · rw [ensures_bind]
    exact factor (reached.sign .product found (by rw [kind]; rfl) loose)
  · simp only [ensures_bind, ensures_here, ensures_look, ensures_ite, ensures_pure, ensures_back,
      cursor_goto, Cursor.look?_skipBlanks]
    refine ⟨fun starts => ?_, fun ends => ?_⟩
    · obtain ⟨some, begins⟩ := Option.any_eq_true_iff_get _ _ |>.mp starts
      obtain ⟨token, found⟩ := Option.isSome_iff_exists.mp some
      simp only [found, Option.get_some] at begins
      refine factor
        (reached.skipBlanks.skipBlanks.juxtaposed ?_ (startsAtom_of_starts begins) loose)
      rw [Cursor.look?_skipBlanks, Cursor.look?_skipBlanks, found]
    · refine ⟨complete.holds.skipBlanks, limited_skipBlanks.mpr fun token found => ?_⟩
      rw [found] at ends
      exact reach_of_product (other token found) (by simpa using ends)
        (complete.limited token found)

/-- A fraction stays a fraction when one more denominator is read. -/
theorem simulates_fractionPass (loose : Loose 5 stack)
    (complete : Complete style source 5 stack output trail.cursor) :
    Ensures (fractionPass call output) trail
      (Turn.Ends
        (fun output after => Complete style source 5 stack output after.cursor)
        fun output after => Complete style source 3 stack output after.cursor)
      (fun reason _ => FaultOf (parse source) reason) := by
  rw [fractionPass, ensures_bind, ensures_readIf]
  refine ⟨fun token found kind => ?_, fun other => ?_⟩
  · obtain ⟨node, rfl, reached⟩ := complete.holds
    rw [ensures_bind]
    have waits := reached.sign .fraction found (by rw [kind]; rfl) loose
    exact simulates_operand simulates .power (trail.goto _) waits (fun _ => rfl) (Nat.succ_pos 4)
      (Nat.le_refl 6) (Nat.le_refl 5) fun _ => rfl
  · exact ⟨complete.holds.skipBlanks, limited_skipBlanks.mpr fun token found =>
      reach_of_fraction (other token found) (complete.limited token found)⟩

end Routines

/-- An atom is read as an operand, and nothing binds more tightly than it does. -/
theorem simulates_atom {call : Level → Descent Text} (simulates : Simulates style source call)
    {trail : Trail}
    (unsigned : ∀ token, trail.cursor.look? = some token → token.kind = .minus →
      stack.head?.all Frame.admitsMinus = false)
    (reached : Reached source stack none trail.cursor) :
    Ensures (routine style call .atom) trail
      (fun output after => Complete style source 7 stack output after.cursor)
      (fun reason _ => FaultOf (parse source) reason) := by
  rw [routine, ensures_bind, ensures_readToken]
  refine ⟨fun token found => ?_, reached.missing⟩
  have free : ∀ cursor, Limited 7 cursor := fun _ token _ => by
    cases token.kind <;> decide
  cases kind : token.kind with
  | backslash =>
      obtain ⟨_, -, place, stands⟩ := pass_of_backslash found kind
      rw [place, ensures_visiting]
      refine (ensures_block (congrArg Cursor.passed stands) (Forward.pass found)).mono ?_
        fun _ _ => False.elim
      rintro _ after ⟨rfl, -, ends⟩
      rw [cursor_log, ends]
      exact ⟨⟨_, rfl, reached.block found kind⟩, free _⟩
  | openParen =>
      rw [ensures_bind]
      refine (simulates .expr _ _ (by rintro _ ⟨⟩; exact Nat.le_refl 1) (absurd · (by decide))
        (reached.opens found kind)).mono (fun inner between complete => ?_)
        fun reason after blamed => blamed
      obtain ⟨⟨node, rfl, inside⟩, limited⟩ := complete
      rw [ensures_bind, ensures_readIf]
      refine ⟨fun closing closes kind => ?_, fun other => inside.unclosed limited other⟩
      exact ⟨⟨_, rfl, inside.closes closes kind⟩, free _⟩
  | number => exact ⟨⟨_, rfl, reached.number found kind⟩, free _⟩
  | name =>
      rw [ensures_visiting]
      exact ⟨⟨_, rfl, reached.name found kind⟩, free _⟩
  | _ => exact reached.unexpected found (by rw [kind]; rfl) (unsigned token found)

/-- The routines simulate the reader as long as those that they call do. -/
theorem simulates_routine {call : Level → Descent Text} (simulates : Simulates style source call) :
    Simulates style source (routine style call) := by
  intro level stack trail loose unsigned reached
  have exhausted : FaultOf (parse source) .exhausted := nofun
  cases level with
  | expr =>
      rw [routine, ensures_bind]
      refine (simulates .term stack trail (loose.mono (by decide)) (absurd · (by decide))
        reached).mono (fun first between complete => ?_) fun reason after blamed => blamed
      exact Ensures.iterate_cursor exhausted complete fun value trail complete =>
        simulates_sumPass simulates loose complete
  | term =>
      rw [routine, ensures_bind]
      refine (simulates .factor stack trail (loose.mono (by decide)) (absurd · (by decide))
        reached).mono (fun first between complete => ?_) fun reason after blamed => blamed
      exact Ensures.iterate_cursor exhausted complete fun value trail complete =>
        simulates_productPass simulates loose complete
  | factor =>
      rw [routine, ensures_bind, ensures_readIf]
      refine ⟨fun minus found kind => ?_, fun other => ?_⟩
      · have admits : stack.head?.all Frame.admitsMinus := by
          cases stack with
          | nil => rfl
          | cons frame stack => exact frame.admitsMinus_iff.mpr (loose frame rfl)
        have waits := reached.minus found kind admits
        rw [ensures_bind]
        exact simulates_operand simulates .factor (trail.goto _) waits (fun _ => rfl)
          (Nat.succ_pos 3) (Nat.le_refl 4) (Nat.le_succ 3) (absurd · (by decide))
      · rw [ensures_bind]
        refine (simulates .power stack _ (loose.mono (by decide)) (fun _ token found kind => ?_)
          reached.skipBlanks).mono (fun first between complete => ?_)
          fun reason after blamed => blamed
        · -- A minus sign would have been read before.
          exact absurd kind (other token ((Cursor.look?_skipBlanks _).symm.trans found))
        · exact Ensures.iterate_cursor exhausted complete fun value trail complete =>
            simulates_fractionPass simulates (loose.mono (by decide)) complete
  | power =>
      rw [routine, ensures_bind]
      refine (simulates .atom stack trail loose (fun _ => unsigned (by decide)) reached).mono
        (fun base between complete => ?_) fun reason after blamed => blamed
      rw [ensures_bind, ensures_readIf]
      refine ⟨fun caret found kind => ?_, fun other => ?_⟩
      · obtain ⟨node, rfl, reached⟩ := complete.holds
        have waits := reached.sign .power found (by rw [kind]; rfl) loose
        rw [ensures_bind]
        exact simulates_operand simulates .power (between.goto _) waits (fun _ => rfl)
          (Nat.succ_pos 5) (Nat.le_refl 6) (Nat.le_succ 5) fun _ => rfl
      · exact ⟨complete.holds.skipBlanks, limited_skipBlanks.mpr fun token found =>
          reach_of_power (other token found)⟩
  | atom => exact simulates_atom simulates (unsigned (by decide)) reached

theorem simulates_tie (style : NameStyle) (source : Text) (fuel : Nat) :
    Simulates style source (tie (routine style) fuel) := by
  induction fuel with
  | zero => exact fun _ _ _ _ _ _ => nofun
  | succ fuel ih =>
      intro level stack trail loose unsigned reached
      rw [tie, ensures_visiting]
      exact simulates_routine ih level stack trail loose unsigned reached

/-- The descent comes to the markup of the formula. -/
theorem descent_endsWith (style : NameStyle) {source : Text} {fuel : Nat}
    (enough : 8 * source.length + 5 < fuel) :
    (descent style fuel).EndsWith source (render style source) := by
  refine endsWith_of_progress enough ?_ ?_
  · exact (progresses_tie (fun _ _ => progresses_routine) fuel .expr _).mono
      (fun _ _ forward => forward.mono (Nat.zero_le _)) fun _ _ halts => halts
  · have start : Reached source [] none (Trail.start source).cursor := ⟨rfl, rfl⟩
    simp only [whole, descent, ensures_bind, ensures_pure, ensures_expectEnd]
    have free : Loose 1 [] := by simp [Loose]
    refine (simulates_tie style source fuel .expr [] _ free (absurd · (by decide)) start).mono
      (fun output after complete => ?_) fun reason after blamed => ?_
    · obtain ⟨⟨node, rfl, reached⟩, limited⟩ := complete
      obtain ⟨ends, follows⟩ := reached.whole_formula limited
      refine ⟨fun none => ?_, fun diagnostic failed other same => ?_⟩
      · rw [render, ends none]
        rfl
      · rw [render, follows diagnostic failed other same]
        rfl
    · rintro diagnostic same
      rw [render, blamed diagnostic same]
      rfl

end MatrixFormula.Markup
