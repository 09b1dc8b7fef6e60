import MatrixFormula.Proofs.Cursor.Steps

/-!
# Recursive descent

A formula can also be read by routines that call each other while a cursor moves through the
source. A descent logs every call and every pass of a loop, with the places where the cursor stood
before and after it. Calls take fuel, and a descent without fuel halts.

What a descent ensures is stated for the trail on which it starts: a postcondition for its answer,
and another one for the case that it halts. Both are computed backwards through its steps.
-/

namespace MatrixFormula

/-- The routines that call each other, from the one that reads the loosest formulas to the one that
reads what is no operation. -/
inductive Level where
  | expr
  | term
  | factor
  | power
  | atom
deriving DecidableEq, Repr

/-- How many routines may be entered in a row without reading anything. -/
def Level.rank : Level → Nat
  | .expr => 5
  | .term => 4
  | .factor => 3
  | .power => 2
  | .atom => 1

/-- The routines that a descent is made of. -/
inductive Routine where
  | level (level : Level)
  /-- What a name stands for. -/
  | identifier
  /-- The rest of a markup block. -/
  | block
  /-- A group in braces, if there is one. -/
  | group
deriving DecidableEq, Repr

/-- What is logged of a descent. -/
inductive Activity where
  | call (routine : Routine)
  /-- One time around a loop of a routine. -/
  | pass (routine : Routine)
deriving DecidableEq, Repr

/-- Whether an activity must move the cursor forward. The name of an atom was read before it is
looked up, and so was the backslash of a block. There need not be a group. -/
def Activity.advances : Activity → Bool
  | .call .identifier | .call .block | .call .group => false
  | _ => true

/-- An activity with the offset at which it started and the one at which it ended, unless it was
given up. -/
structure Visit where
  activity : Activity
  entry : Nat
  exit? : Option Nat
deriving DecidableEq, Repr

/-- An activity that must move the cursor forward and was not given up ends beyond its start. -/
def Visit.Sound (visit : Visit) : Prop :=
  visit.activity.advances → ∀ exit ∈ visit.exit?, visit.entry < exit

instance (visit : Visit) : Decidable visit.Sound :=
  inferInstanceAs (Decidable (_ → ∀ exit ∈ visit.exit?, visit.entry < exit))

/-- What need not move the cursor forward is sound wherever it ends. -/
theorem Visit.sound_of_not_advances {visit : Visit} (free : visit.activity.advances = false) :
    visit.Sound :=
  fun advances => absurd advances (by simp [free])

/-- Why a descent has no answer. -/
inductive Halt where
  | fault (diagnostic : Diagnostic)
  /-- There was no fuel left for a call. -/
  | exhausted
deriving DecidableEq, Repr

/-- The cursor of a descent and what it has logged, the latest visit first. -/
structure Trail where
  cursor : Cursor
  visits : List Visit
deriving DecidableEq, Repr

namespace Trail

/-- The trail with its cursor at another place. -/
def goto (trail : Trail) (cursor : Cursor) : Trail := { trail with cursor }

/-- The trail with one more visit. -/
def log (trail : Trail) (visit : Visit) : Trail := { trail with visits := visit :: trail.visits }

variable (trail : Trail) (cursor : Cursor) (visit : Visit)

@[simp] theorem cursor_goto : (trail.goto cursor).cursor = cursor := rfl

@[simp] theorem visits_goto : (trail.goto cursor).visits = trail.visits := rfl

@[simp] theorem cursor_log : (trail.log visit).cursor = trail.cursor := rfl

@[simp] theorem visits_log : (trail.log visit).visits = visit :: trail.visits := rfl

end Trail

/-- The trail at the start of a source. -/
def Trail.start (source : Text) : Trail := ⟨.start source, []⟩

/-- A reader that moves along a trail and answers, or halts. -/
def Descent (α : Type) : Type := Trail → Except Halt α × Trail

namespace Descent

/-- Whether a loop goes around once more. -/
inductive Turn (α β : Type) where
  | again (value : α)
  | done (value : β)

variable {α β : Type}

/-- A postcondition for a turn: one for the case that the loop goes around, and one for its end. -/
def Turn.Ends (again : α → Trail → Prop) (done : β → Trail → Prop) :
    Turn α β → Trail → Prop
  | .again value => again value
  | .done value => done value

instance : Monad Descent where
  pure value trail := (.ok value, trail)
  bind first next trail :=
    match first trail with
    | (.ok value, after) => next value after
    | (.error halt, after) => (.error halt, after)

/-! ## Steps -/

/-- Gives up. -/
def halt (reason : Halt) : Descent α := fun trail => (.error reason, trail)

/-- Gives up with a fault. -/
def fail (diagnostic : Diagnostic) : Descent α := halt (.fault diagnostic)

/-- An outcome that does not depend on the trail. -/
def ofOutcome : Except Diagnostic α → Descent α
  | .ok value => pure value
  | .error diagnostic => fail diagnostic

/-- The cursor. -/
def here : Descent Cursor := fun trail => (.ok trail.cursor, trail)

/-- Returns to a place. -/
def back (place : Cursor) : Descent Unit := fun trail => (.ok (), trail.goto place)

/-- The next token. -/
def look : Descent (Option Token) := fun trail =>
  (.ok trail.cursor.look?, trail.goto trail.cursor.skipBlanks)

/-- Reads the next token, which must exist. -/
def readToken : Descent Token := fun trail =>
  match trail.cursor.look? with
  | some token => (.ok token, trail.goto (trail.cursor.pass token))
  | none =>
      (.error (.fault (trail.cursor.report .unexpectedEnd)), trail.goto trail.cursor.skipBlanks)

/-- Reads the next token if it is of the kind. -/
def readIf (kind : Token.Kind) : Descent (Option Token) := fun trail =>
  match trail.cursor.look? with
  | some token =>
      if token.kind = kind then (.ok (some token), trail.goto (trail.cursor.pass token))
      else (.ok none, trail.goto trail.cursor.skipBlanks)
  | none => (.ok none, trail.goto trail.cursor.skipBlanks)

/-- The next character that is no blank. -/
def lookChar : Descent (Option Char) := fun trail =>
  (.ok trail.cursor.skipBlanks.rest.head?, trail.goto trail.cursor.skipBlanks)

/-- Reads one character. -/
def readChar : Descent (Option Char) := fun trail =>
  (.ok trail.cursor.rest.head?, trail.goto (trail.cursor.advance 1))

/-- Moves to a byte offset of the source. -/
def moveTo (offset : Nat) : Descent Unit := fun trail =>
  (.ok (), trail.goto (trail.cursor.moveTo offset))

/-- Nothing but blanks may follow. -/
def expectEnd : Descent Unit := fun trail =>
  match trail.cursor.expectEnd with
  | .ok _ => (.ok (), trail.goto trail.cursor.skipBlanks)
  | .error diagnostic => (.error (.fault diagnostic), trail.goto trail.cursor.skipBlanks)

/-! ## Calls and loops -/

/-- Logs an activity. -/
def visiting (activity : Activity) (body : Descent α) : Descent α := fun trail =>
  match body trail with
  | (.ok value, after) =>
      (.ok value, after.log ⟨activity, trail.cursor.offset, some after.cursor.offset⟩)
  | (.error reason, after) => (.error reason, after.log ⟨activity, trail.cursor.offset, none⟩)

/-- A loop that may go around a number of times. Whenever it goes around, this is logged. -/
def loop (routine : Routine) (pass : α → Descent (Turn α β)) : Nat → α → Descent β
  | 0, _ => halt .exhausted
  | fuel + 1, value => fun trail =>
      match pass value trail with
      | (.ok (.again next), after) =>
          loop routine pass fuel next
            (after.log ⟨.pass routine, trail.cursor.offset, some after.cursor.offset⟩)
      | (.ok (.done result), after) => (.ok result, after)
      | (.error reason, after) =>
          (.error reason, after.log ⟨.pass routine, trail.cursor.offset, none⟩)

/-- A loop that may go around once for each character that follows. -/
def iterate (routine : Routine) (pass : α → Descent (Turn α β)) (value : α) : Descent β :=
  fun trail => loop routine pass (trail.cursor.rest.length + 1) value trail

/-- Routines that call each other, with fuel for calls inside calls. -/
def tie (body : (Level → Descent α) → Level → Descent α) : Nat → Level → Descent α
  | 0, _ => halt .exhausted
  | fuel + 1, level => visiting (.call (.level level)) (body (tie body fuel) level)

/-- Reads a source to its end. -/
def whole (descent : Descent α) : Descent α := do
  let value ← descent
  expectEnd
  return value

/-! ## What a descent ensures -/

variable {trail : Trail} {first : Descent α} {next : α → Descent β}

/-- The descent ends with an answer and a trail as in the first postcondition, or halts as in the
second one. -/
def Ensures (descent : Descent α) (trail : Trail) (done : α → Trail → Prop)
    (halted : Halt → Trail → Prop) : Prop :=
  match descent trail with
  | (.ok value, after) => done value after
  | (.error reason, after) => halted reason after

section Steps

variable {done : α → Trail → Prop} {halted : Halt → Trail → Prop}

/-- An answer leaves the trail as it is. -/
@[simp] theorem ensures_pure {value : α} :
    Ensures (pure value) trail done halted ↔ done value trail := Iff.rfl

/-- The second descent starts from every trail on which the first one has ended. -/
@[simp] theorem ensures_bind {done : β → Trail → Prop} :
    Ensures (first >>= next) trail done halted ↔
      Ensures first trail (fun value after => Ensures (next value) after done halted) halted := by
  have steps : (first >>= next) trail = match first trail with
    | (.ok value, after) => next value after
    | (.error reason, after) => (.error reason, after) := rfl
  unfold Ensures
  rw [steps]
  rcases first trail with ⟨⟨_⟩ | ⟨_⟩, _⟩ <;> rfl

/-- Both branches must meet the postconditions, each under its condition. -/
@[simp] theorem ensures_ite {condition : Prop} [Decidable condition] {yes no : Descent α} :
    Ensures (if condition then yes else no) trail done halted ↔
      (condition → Ensures yes trail done halted) ∧
        (¬ condition → Ensures no trail done halted) := by
  split_ifs with holds <;> simp [holds]

/-- Giving up leaves the trail as it is. -/
@[simp] theorem ensures_halt {reason : Halt} :
    Ensures (halt reason : Descent α) trail done halted ↔ halted reason trail := Iff.rfl

/-- A fault is one way to give up. -/
@[simp] theorem ensures_fail {diagnostic : Diagnostic} :
    Ensures (fail diagnostic : Descent α) trail done halted ↔
      halted (.fault diagnostic) trail := Iff.rfl

/-- An outcome answers or fails without moving the cursor. -/
@[simp] theorem ensures_ofOutcome {outcome : Except Diagnostic α} :
    Ensures (ofOutcome outcome) trail done halted ↔
      (∀ value, outcome = .ok value → done value trail) ∧
        ∀ diagnostic, outcome = .error diagnostic → halted (.fault diagnostic) trail := by
  cases outcome <;> simp [ofOutcome]

/-- The cursor can be remembered. -/
@[simp] theorem ensures_here {done : Cursor → Trail → Prop} :
    Ensures here trail done halted ↔ done trail.cursor trail := Iff.rfl

/-- The cursor moves back to the place. -/
@[simp] theorem ensures_back {done : Unit → Trail → Prop} {place : Cursor} :
    Ensures (back place) trail done halted ↔ done () (trail.goto place) := Iff.rfl

/-- Looking at the next token passes over the blanks in front of it. -/
@[simp] theorem ensures_look {done : Option Token → Trail → Prop} :
    Ensures look trail done halted ↔
      done trail.cursor.look? (trail.goto trail.cursor.skipBlanks) := Iff.rfl

/-- The next token is read and passed. Without one, the end of the source is a fault. -/
@[simp] theorem ensures_readToken {done : Token → Trail → Prop} :
    Ensures readToken trail done halted ↔
      (∀ token, trail.cursor.look? = some token →
        done token (trail.goto (trail.cursor.pass token))) ∧
      (trail.cursor.look? = none →
        halted (.fault (trail.cursor.report .unexpectedEnd))
          (trail.goto trail.cursor.skipBlanks)) := by
  unfold Ensures readToken
  cases trail.cursor.look? <;> simp

/-- Only a token of the kind is read and passed. In front of any other one, blanks are passed. -/
@[simp] theorem ensures_readIf {done : Option Token → Trail → Prop} {kind : Token.Kind} :
    Ensures (readIf kind) trail done halted ↔
      (∀ token, trail.cursor.look? = some token → token.kind = kind →
        done (some token) (trail.goto (trail.cursor.pass token))) ∧
      ((∀ token, trail.cursor.look? = some token → token.kind ≠ kind) →
        done none (trail.goto trail.cursor.skipBlanks)) := by
  unfold Ensures readIf
  cases trail.cursor.look? with
  | none => simp
  | some token => by_cases same : token.kind = kind <;> simp [same]

/-- Looking at the next character passes over the blanks in front of it. -/
@[simp] theorem ensures_lookChar {done : Option Char → Trail → Prop} :
    Ensures lookChar trail done halted ↔
      done trail.cursor.skipBlanks.rest.head? (trail.goto trail.cursor.skipBlanks) := Iff.rfl

/-- One character is read, blank or not. -/
@[simp] theorem ensures_readChar {done : Option Char → Trail → Prop} :
    Ensures readChar trail done halted ↔
      done trail.cursor.rest.head? (trail.goto (trail.cursor.advance 1)) := Iff.rfl

/-- The cursor moves to the offset. -/
@[simp] theorem ensures_moveTo {done : Unit → Trail → Prop} {offset : Nat} :
    Ensures (moveTo offset) trail done halted ↔
      done () (trail.goto (trail.cursor.moveTo offset)) := Iff.rfl

/-- The end of the source is reached behind blanks, or else what follows them is a fault. -/
@[simp] theorem ensures_expectEnd {done : Unit → Trail → Prop} :
    Ensures expectEnd trail done halted ↔
      (trail.cursor.expectEnd = .ok () → done () (trail.goto trail.cursor.skipBlanks)) ∧
      ∀ diagnostic, trail.cursor.expectEnd = .error diagnostic →
        halted (.fault diagnostic) (trail.goto trail.cursor.skipBlanks) := by
  unfold Ensures expectEnd
  cases trail.cursor.expectEnd <;> simp

/-- An activity is logged where it ends, or as one that was given up. -/
@[simp] theorem ensures_visiting {activity : Activity} :
    Ensures (visiting activity first) trail done halted ↔
      Ensures first trail
        (fun value after =>
          done value (after.log ⟨activity, trail.cursor.offset, some after.cursor.offset⟩))
        (fun reason after => halted reason (after.log ⟨activity, trail.cursor.offset, none⟩)) := by
  unfold Ensures visiting
  rcases first trail with ⟨⟨_⟩ | ⟨_⟩, _⟩ <;> rfl

end Steps

/-- Postconditions may be weakened. -/
theorem Ensures.mono {done more : α → Trail → Prop} {halted gave : Halt → Trail → Prop}
    (ensures : Ensures first trail done halted)
    (answers : ∀ value after, done value after → more value after)
    (halts : ∀ reason after, halted reason after → gave reason after) :
    Ensures first trail more gave := by
  unfold Ensures at *
  split at ensures
  · exact answers _ _ ensures
  · exact halts _ _ ensures

/-- What is ensured in two ways is ensured together. -/
theorem Ensures.and {done more : α → Trail → Prop} {halted gave : Halt → Trail → Prop}
    (one : Ensures first trail done halted) (other : Ensures first trail more gave) :
    Ensures first trail (fun value after => done value after ∧ more value after)
      (fun reason after => halted reason after ∧ gave reason after) := by
  unfold Ensures at *
  split at one <;> simp_all

/-- A loop keeps its invariant as long as it goes around. It has enough fuel when it reads something
each time, and otherwise it may halt for want of it. -/
theorem Ensures.iterate {routine : Routine} {pass : α → Descent (Turn α β)} {value : α}
    {holds : α → Trail → Prop} {done : β → Trail → Prop} {halted : Halt → Trail → Prop}
    (start : holds value trail)
    (step : ∀ value trail, holds value trail → Ensures (pass value) trail
      (Turn.Ends (fun next after =>
        ((∀ trail, halted .exhausted trail) ∨
          after.cursor.rest.length < trail.cursor.rest.length) ∧
        holds next (after.log ⟨.pass routine, trail.cursor.offset, some after.cursor.offset⟩)) done)
      (fun reason after => halted reason (after.log ⟨.pass routine, trail.cursor.offset, none⟩))) :
    Ensures (iterate routine pass value) trail done halted := by
  have around (fuel : Nat) : ∀ value trail, holds value trail →
      ((∀ trail, halted .exhausted trail) ∨ trail.cursor.rest.length < fuel) →
      Ensures (loop routine pass fuel value) trail done halted := by
    -- The fuel of the loop stays above what is left to read.
    induction fuel with
    | zero =>
        intro value trail _ enough
        rcases enough with free | short
        · exact free trail
        · exact absurd short (Nat.not_lt_zero _)
    | succ fuel ih =>
        intro value trail keeps enough
        have once := step value trail keeps
        unfold Ensures at once ⊢
        rw [loop]
        rcases run : pass value trail with ⟨⟨reason⟩ | ⟨next⟩ | ⟨result⟩, after⟩
        all_goals simp only [run] at once ⊢
        · exact once
        · refine ih next _ once.2 ?_
          rcases enough with free | short
          · exact .inl free
          · refine once.1.imp_right fun shorter => ?_
            rw [Trail.cursor_log]
            omega
        · exact once
  exact around _ value trail start (.inr (Nat.lt_succ_self _))

/-- What a loop ensures about the cursor, if it may halt for want of fuel. -/
theorem Ensures.iterate_cursor {routine : Routine} {pass : α → Descent (Turn α β)} {value : α}
    {holds : α → Cursor → Prop} {done : β → Cursor → Prop} {halted : Halt → Prop}
    (out : halted .exhausted) (start : holds value trail.cursor)
    (step : ∀ value (trail : Trail), holds value trail.cursor → Ensures (pass value) trail
      (Turn.Ends (fun next after => holds next after.cursor) fun result after =>
        done result after.cursor)
      (fun reason _ => halted reason)) :
    Ensures (Descent.iterate routine pass value) trail
      (fun result after => done result after.cursor) (fun reason _ => halted reason) := by
  refine @Ensures.iterate _ _ _ _ _ _ (fun value trail => holds value trail.cursor) _ _ start ?_
  intro value trail keeps
  refine (step value trail keeps).mono (fun turn after ends => ?_) fun reason after halts => halts
  cases turn with
  | again => exact ⟨.inl fun _ => out, ends⟩
  | done => exact ends

end Descent

end MatrixFormula
