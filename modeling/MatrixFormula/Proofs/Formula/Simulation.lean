import MatrixFormula.Proofs.Formula.Reached

/-!
# The descent evaluates formulas

Each routine of the evaluator leads from a place where an operand must follow to one behind an
operand with its value. From there on the formula is read as before, so the descent ends with the
value of the formula, or with its fault.
-/

namespace MatrixFormula.Formula

open Descent Trail

variable {ν : Type} [Numeral ν] {store : Store} {source : Text} {stack : List Frame}
  {cursor : Cursor} {token : Token} {expr : Expr} {operand : Operand} {bound : Nat}

/-! ## Routines -/

/-- An operator takes in its right operand, and combines the values or fails. -/
theorem Holds.combine {operator : Operator} {sign? : Option Span} {left right : Operand}
    {outcome : Except Diagnostic Operand} (stands : Stands ν store expr left)
    (holds : Holds ν store source (.binary expr operator sign? :: stack) right cursor)
    (bounded : Bound operator.rank cursor)
    (combined : Formula.combine ν operator left (sign?.getD (left.span.between right.span)) right =
      outcome) :
    (∀ result, outcome = .ok result → Holds ν store source stack result cursor) ∧
      ∀ diagnostic, outcome = .error diagnostic →
        FaultOf (evaluate ν store source) (.fault diagnostic) := by
  obtain ⟨other, also, reached⟩ := holds
  have filled := reached.fill operator.rank_pos bounded
  have value : (Expr.binary operator sign? expr other).value ν store =
      outcome.map Operand.grid := by
    rw [Expr.value, stands.value, also.value, Expr.signSpan, stands.span, also.span, ← combined,
      Formula.combine]
    simp only [bind, Except.bind]
    cases operator.apply ν left.grid right.grid <;> rfl
  constructor
  · rintro result rfl
    refine ⟨_, ⟨value, ?_⟩, filled⟩
    rw [Formula.combine] at combined
    split at combined <;> cases combined
    rw [← stands.span, ← also.span]
    rfl
  · rintro diagnostic rfl
    exact filled.spoiled value

variable (ν store source)

/-- A frame on top of the stack of a routine binds more loosely than the rank. -/
def loosest : Level → Nat
  | .expr => 1
  | .term => 2
  | _ => 3

/-- Nothing behind what a routine has read binds more tightly than the rank. -/
def tightest : Level → Nat
  | .expr => 0
  | .term => 1
  | .factor | .power => 2
  | .atom => 4

/-- A routine reads the operand that must follow. A minus sign in front of a power was read
before. -/
def Simulates (call : Level → Descent Operand) : Prop :=
  ∀ level stack trail, Loose (loosest level) stack →
    (level.rank ≤ 2 → ∀ token, trail.cursor.look? = some token → token.kind ≠ .minus) →
    Reached ν store source stack none trail.cursor →
    Ensures (call level) trail
      (fun operand after =>
        Settled ν store source (tightest level) stack operand after.cursor)
      (fun reason _ => FaultOf (evaluate ν store source) reason)

variable {ν store source} {call : Level → Descent Operand}

/-- The signs of sums and differences are words of their operators. -/
theorem sign_of_sumSign? {kind : Token.Kind} {operator : Operator}
    (writes : sumSign? kind = some operator) :
    (Word.ofKind kind).operator? = some operator ∧ operator.rank = 1 := by
  cases kind <;> cases writes <;> exact ⟨rfl, rfl⟩

/-- The signs of products and quotients are words of their operators. -/
theorem sign_of_productSign? {kind : Token.Kind} {operator : Operator}
    (writes : productSign? kind = some operator) :
    (Word.ofKind kind).operator? = some operator ∧ operator.rank = 2 := by
  cases kind <;> cases writes <;> exact ⟨rfl, rfl⟩

/-- What goes on with a sum writes an operator. -/
theorem reach_of_sumSign? {kind : Token.Kind} (writes : sumSign? kind = none)
    (bounded : kind.reach ≤ 1) : kind.reach ≤ 0 := by
  cases kind <;> simp_all [sumSign?, Token.Kind.reach]

/-- What goes on with a product writes an operator or starts a factor. -/
theorem reach_of_productSign? {kind : Token.Kind} (writes : productSign? kind = none)
    (ends : kind.startsOperand = false) (bounded : kind.reach ≤ 2) : kind.reach ≤ 1 := by
  cases kind <;> simp_all [productSign?, Token.Kind.reach, Token.Kind.startsOperand]

section Simulates

variable (simulates : Simulates ν store source call)
include simulates

/-- An operator behind an operand is simulated when its right operand is. -/
theorem simulates_signed (operator : Operator) (level : Level) {left : Operand} {trail : Trail}
    (waits : operator.rank + 1 = loosest level) (next : tightest level = operator.rank)
    (mayNegate : ¬ level.rank ≤ 2)
    (holds : Holds ν store source stack left trail.cursor)
    (found : trail.cursor.look? = some token)
    (sign : (Word.ofKind token.kind).operator? = some operator)
    (loose : Loose operator.rank stack) :
    Ensures (signed ν call operator level left) trail
      (Turn.Ends
        (fun operand after =>
          Settled ν store source operator.rank stack operand after.cursor)
        fun _ _ => False)
      (fun reason _ => FaultOf (evaluate ν store source) reason) := by
  obtain ⟨expr, stands, reached⟩ := holds
  unfold signed
  rw [ensures_bind, ensures_readToken]
  refine ⟨fun other same => ?_, fun none => by simp [found] at none⟩
  obtain rfl : token = other := Option.some.inj (found.symm.trans same)
  simp only [ensures_bind, ensures_ofOutcome, ensures_pure]
  refine (simulates level _ _ ?_ (fun small => absurd small mayNegate)
    (reached.sign stands.value found sign loose)).mono (fun right after done => ?_)
    fun reason after blamed => blamed
  · rintro frame ⟨⟩
    exact .inl (waits ▸ Nat.lt_succ_self _)
  · obtain ⟨holds, bounded⟩ := done
    rw [next] at bounded
    obtain ⟨answers, fails⟩ := holds.combine stands bounded rfl
    exact ⟨fun result same => ⟨answers result same, bounded⟩, fails⟩

/-- A sum stays a sum when one more term is read, and ends where no sign follows. -/
theorem simulates_sumPass {left : Operand} {trail : Trail} (loose : Loose 1 stack)
    (settled : Settled ν store source 1 stack left trail.cursor) :
    Ensures (sumPass ν call left) trail
      (Turn.Ends
        (fun operand after =>
          Settled ν store source 1 stack operand after.cursor)
        fun operand after =>
          Settled ν store source 0 stack operand after.cursor)
      (fun reason _ => FaultOf (evaluate ν store source) reason) := by
  have skipped := settled.holds.skipBlanks
  unfold sumPass
  rw [ensures_bind, ensures_look]
  cases sign : trail.cursor.look?.bind fun token => sumSign? token.kind with
  | some operator =>
      obtain ⟨token, found, writes⟩ := Option.bind_eq_some_iff.mp sign
      obtain ⟨means, rank⟩ := sign_of_sumSign? writes
      refine (simulates_signed simulates operator .term (by rw [rank]; rfl) rank.symm (by decide)
        skipped ((Cursor.look?_skipBlanks _).trans found) means (rank ▸ loose)).mono
        (fun turn after ends => ?_) fun reason after blamed => blamed
      cases turn with
      | again result => exact rank ▸ ends
      | done result => exact ends.elim
  | none =>
      refine ⟨skipped, fun token found => ?_⟩
      rw [cursor_goto, Cursor.look?_skipBlanks] at found
      rw [found] at sign
      exact reach_of_sumSign? sign (settled.bounded token found)

/-- A product stays a product when one more factor is read, and ends where none follows. -/
theorem simulates_productPass {left : Operand} {trail : Trail} (loose : Loose 2 stack)
    (settled : Settled ν store source 2 stack left trail.cursor) :
    Ensures (productPass ν call left) trail
      (Turn.Ends
        (fun operand after =>
          Settled ν store source 2 stack operand after.cursor)
        fun operand after =>
          Settled ν store source 1 stack operand after.cursor)
      (fun reason _ => FaultOf (evaluate ν store source) reason) := by
  have skipped := settled.holds.skipBlanks
  unfold productPass
  rw [ensures_bind, ensures_look]
  cases sign : trail.cursor.look?.bind fun token => productSign? token.kind with
  | some operator =>
      obtain ⟨token, found, writes⟩ := Option.bind_eq_some_iff.mp sign
      obtain ⟨means, rank⟩ := sign_of_productSign? writes
      refine (simulates_signed simulates operator .factor (by rw [rank]; rfl) rank.symm (by decide)
        skipped ((Cursor.look?_skipBlanks _).trans found) means (rank ▸ loose)).mono
        (fun turn after ends => ?_) fun reason after blamed => blamed
      cases turn with
      | again result => exact rank ▸ ends
      | done result => exact ends.elim
  | none =>
      simp only [ensures_bind, ensures_here, ensures_look, ensures_ite, ensures_ofOutcome,
        ensures_pure, ensures_back, cursor_goto, Cursor.look?_skipBlanks]
      refine ⟨fun starts => ?_, fun ends => ⟨skipped, fun token found => ?_⟩⟩
      · obtain ⟨expr, stands, reached⟩ := skipped.skipBlanks
        obtain ⟨some, begins⟩ := Option.any_eq_true_iff_get _ _ |>.mp starts
        obtain ⟨token, found⟩ := Option.isSome_iff_exists.mp some
        simp only [found, Option.get_some] at begins
        rw [← Cursor.look?_skipBlanks, ← Cursor.look?_skipBlanks] at found
        refine (simulates .factor _ _ ?_ (fun small => absurd small (by decide))
          (reached.juxtaposed stands.value found begins loose)).mono (fun right after done => ?_)
          fun reason after blamed => blamed
        · rintro frame ⟨⟩
          exact .inl (Nat.lt_succ_self 2)
        · obtain ⟨answers, fails⟩ := done.holds.combine stands done.bounded rfl
          exact ⟨fun result same => ⟨answers result same, done.bounded⟩, fails⟩
      · rw [goto_goto, goto_goto, cursor_goto, Cursor.look?_skipBlanks] at found
        rw [found] at sign ends
        exact reach_of_productSign? sign (by simpa using ends) (settled.bounded token found)

end Simulates

/-- A mark of transposition belongs to the operand in front of it. -/
theorem simulates_markPass {base : Operand} {trail : Trail}
    (holds : Holds ν store source stack base trail.cursor) :
    Ensures (markPass base) trail
      (Turn.Ends
        (fun operand after => Holds ν store source stack operand after.cursor)
        fun operand after =>
          Settled ν store source 2 stack operand after.cursor)
      (fun reason _ => FaultOf (evaluate ν store source) reason) := by
  unfold markPass
  rw [ensures_bind, ensures_readIf]
  refine ⟨fun caret found kind => ?_, fun other => ⟨holds.skipBlanks, fun token found => ?_⟩⟩
  · obtain ⟨expr, stands, reached⟩ := holds
    rw [ensures_bind, ensures_lookChar]
    cases behind : (trail.cursor.pass caret).skipBlanks.rest with
    | nil =>
        rw [cursor_goto, behind]
        simp only [List.head?_nil, ensures_bind, ensures_here, ensures_fail, cursor_goto,
          Cursor.report_skipBlanks]
        exact reached.missing_exponent stands.value found kind behind
    | cons mark after =>
        rw [cursor_goto, behind]
        simp only [List.head?_cons, ensures_ite]
        refine ⟨fun marks => ?_, fun unmarked => ?_⟩
        · refine ⟨_, ⟨?_, ?_⟩, reached.transpose found kind behind marks⟩
          · rw [Expr.value, stands.value]
            rfl
          · rw [Expr.span, stands.span]
            rfl
        · obtain ⟨other, next⟩ : ∃ other, (trail.cursor.pass caret).look? = some other := by
            rw [Cursor.look?, Cursor.token?, behind]
            exact ⟨_, rfl⟩
          obtain ⟨_, _, same, -, rfl, -⟩ := Cursor.exists_of_look? next
          obtain ⟨rfl, rfl⟩ := List.cons.inj (behind.symm.trans same)
          have blamed := reached.unsupported stands.value found kind next
            (by rintro _ ⟨⟩; simpa using unmarked)
          simp only [ensures_bind, ensures_here, ensures_fail, cursor_goto,
            Cursor.look?_skipBlanks, Cursor.report, Cursor.span, next]
          exact blamed
  · rw [cursor_goto, Cursor.look?_skipBlanks] at found
    have unmarked := other token found
    cases kind : token.kind <;> simp_all [Token.Kind.reach]

/-- The value of a name, or its fault, is that of the word that was read. -/
theorem simulates_named {name : Text} {span : Span} {trail : Trail}
    (reached : Reached ν store source stack (some (.name name span)) trail.cursor) :
    Ensures (named store name span) trail
      (fun operand after => Holds ν store source stack operand after.cursor)
      (fun reason _ => FaultOf (evaluate ν store source) reason) := by
  simp only [named, ensures_bind, ensures_ofOutcome, ensures_pure]
  exact ⟨fun grid value => ⟨.name name span, ⟨value, rfl⟩, reached⟩,
    fun _ failed => reached.spoiled failed⟩

/-- A run of letters is read as its first word. -/
theorem simulates_identifier {trail : Trail}
    (reached : Reached ν store source stack none trail.cursor)
    (found : trail.cursor.look? = some token) (kind : token.kind = .name) :
    Ensures (identifier store token) (trail.goto (trail.cursor.pass token))
      (fun operand after => Holds ν store source stack operand after.cursor)
      (fun reason _ => FaultOf (evaluate ν store source) reason) := by
  have read := reached.name found kind
  have span : token.span = .ofText token.span.start token.lexeme := by
    obtain ⟨_, _, -, -, rfl, -⟩ := Cursor.exists_of_look? found
    rfl
  have whole (leads : leadingName store token.lexeme = token.lexeme) :
      Ensures (named store token.lexeme token.span) (trail.goto (trail.cursor.pass token))
        (fun operand after => Holds ν store source stack operand after.cursor)
        (fun reason _ => FaultOf (evaluate ν store source) reason) := by
    rw [leads, Cursor.moveTo_pass_self found, ← span] at read
    exact simulates_named read
  unfold identifier
  rw [ensures_ite]
  refine ⟨fun known => whole (leadingName_of_whole (.inl known)), fun unknown => ?_⟩
  cases halves : store.split? token.lexeme with
  | none => exact whole (leadingName_of_whole (.inr halves))
  | some parts =>
      rw [leadingName_of_split (by simpa using unknown) halves] at read
      dsimp only
      rw [ensures_bind, ensures_moveTo]
      exact simulates_named read

/-- Where a formula may start, a tighter one may start. -/
theorem Loose.succ {rank : Nat} (loose : Loose rank stack) : Loose (rank + 1) stack :=
  fun frame top => (loose frame top).imp Nat.lt_succ_of_lt Nat.lt_succ_of_lt

/-- A factor may start on every stack. -/
theorem loose_three (stack : List Frame) : Loose 3 stack := fun _ _ => .inr (Nat.lt_succ_self 2)

/-- An atom is read as an operand, and nothing binds more tightly than it does. -/
theorem simulates_atom (simulates : Simulates ν store source call) {trail : Trail}
    (unsigned : ∀ token, trail.cursor.look? = some token → token.kind ≠ .minus)
    (reached : Reached ν store source stack none trail.cursor) :
    Ensures (routine ν store call .atom) trail
      (fun operand after => Settled ν store source 4 stack operand after.cursor)
      (fun reason _ => FaultOf (evaluate ν store source) reason) := by
  rw [routine, ensures_bind, ensures_readToken]
  refine ⟨fun token found => ?_, reached.missing⟩
  have free : ∀ cursor, Bound 4 cursor := fun _ token _ => by
    cases token.kind <;> decide
  cases kind : token.kind with
  | openParen =>
      rw [ensures_bind]
      refine (simulates .expr _ _ ?_ (absurd · (by decide)) (reached.opens found kind)).mono
        (fun operand between done => ?_) fun reason after blamed => blamed
      · rintro frame ⟨⟩
        exact .inl Nat.one_pos
      · obtain ⟨⟨expr, stands, inner⟩, bounded⟩ := done
        rw [ensures_bind, ensures_readIf]
        refine ⟨fun closing closes kind => ?_, fun other => ?_⟩
        · exact ⟨⟨.group (token.span.through closing.span) expr, ⟨stands.value, rfl⟩,
            inner.closes closes kind⟩, free _⟩
        · exact inner.unclosed bounded stands.value other
  | number =>
      have number := reached.number found kind
      simp only [ensures_bind, ensures_ofOutcome, ensures_pure]
      exact ⟨fun grid value =>
          ⟨⟨.number token.lexeme token.span, ⟨value, rfl⟩, number⟩, free _⟩,
        fun _ failed => number.spoiled failed⟩
  | name =>
      rw [ensures_visiting]
      exact (simulates_identifier reached found kind).mono
        (fun operand after holds => ⟨holds, free _⟩) fun reason after blamed => blamed
  | minus => exact absurd kind (unsigned token found)
  | _ => exact reached.unexpected found (by simp [kind])

/-- The routines of the evaluator simulate the reader as long as those that they call do. -/
theorem simulates_routine (simulates : Simulates ν store source call) :
    Simulates ν store source (routine ν store call) := by
  intro level stack trail loose unsigned reached
  have exhausted : FaultOf (evaluate ν store source) .exhausted := nofun
  cases level with
  | expr =>
      rw [routine, ensures_bind]
      refine (simulates .term stack trail loose.succ (absurd · (by decide)) reached).mono
        (fun first between done => ?_) fun reason after blamed => blamed
      exact Ensures.iterate_cursor exhausted done fun value trail settled =>
        simulates_sumPass simulates loose settled
  | term =>
      rw [routine, ensures_bind]
      refine (simulates .factor stack trail loose.succ (absurd · (by decide)) reached).mono
        (fun first between done => ?_) fun reason after blamed => blamed
      exact Ensures.iterate_cursor exhausted done fun value trail settled =>
        simulates_productPass simulates loose settled
  | factor =>
      rw [routine, ensures_bind, ensures_readIf]
      refine ⟨fun minus found kind => ?_, fun other => ?_⟩
      · rw [ensures_bind]
        refine (simulates .factor _ _ (loose_three _) (absurd · (by decide))
          (reached.minus found kind)).mono (fun operand after done => ?_)
          fun reason after blamed => blamed
        obtain ⟨⟨expr, stands, inner⟩, bounded⟩ := done
        have negated := inner.fill (Nat.succ_pos 2) fun token found =>
          Nat.le_succ_of_le (bounded token found)
        refine ⟨⟨.negation minus.span.start expr, ⟨?_, ?_⟩, negated⟩, bounded⟩
        · rw [Expr.value, stands.value]
          rfl
        · rw [Expr.span, stands.span]
      · refine simulates .power _ _ (loose_three _) (fun _ token found => ?_) reached.skipBlanks
        exact other token ((Cursor.look?_skipBlanks _).symm.trans found)
  | power =>
      rw [routine, ensures_bind]
      refine (simulates .atom stack trail (loose_three _) (fun _ => unsigned (by decide))
        reached).mono (fun first between done => ?_) fun reason after blamed => blamed
      exact Ensures.iterate_cursor exhausted done.holds fun value trail holds =>
        simulates_markPass holds
  | atom => exact simulates_atom simulates (unsigned (by decide)) reached

/-- All routines are simulated, whatever fuel there is. -/
theorem simulates_tie (ν : Type) [Numeral ν] (store : Store) (source : Text) (fuel : Nat) :
    Simulates ν store source (tie (routine ν store) fuel) := by
  induction fuel with
  | zero => exact fun _ _ _ _ _ _ => nofun
  | succ fuel ih =>
      intro level stack trail loose unsigned reached
      rw [tie, ensures_visiting]
      exact simulates_routine ih level stack trail loose unsigned reached

/-- The descent comes to what the formula is evaluated to. -/
theorem descent_endsWith (ν : Type) [Numeral ν] (store : Store) {source : Text} {fuel : Nat}
    (enough : 8 * source.length + 5 < fuel) :
    (descent ν store fuel).EndsWith source (evaluate ν store source) := by
  refine endsWith_of_progress enough ?_ ?_
  · rw [descent, ensures_bind]
    exact (progresses_tie (fun _ _ => progresses_routine) fuel .expr _).mono
      (fun _ _ forward => forward.mono (Nat.zero_le _)) fun _ _ halts => halts
  · have start : Reached ν store source [] none (Trail.start source).cursor :=
      ⟨rfl, ⟨[], rfl⟩, evaluate_eq_conclude ν store source⟩
    simp only [whole, descent, ensures_bind, ensures_pure, ensures_expectEnd]
    have free : Loose 1 [] := by simp [Loose]
    refine (simulates_tie ν store source fuel .expr [] _ free (absurd · (by decide)) start).mono
      (fun operand after settled => ?_) fun reason after blamed => blamed
    obtain ⟨expr, stands, reached⟩ := settled.holds
    exact reached.whole_formula settled.bounded stands.value

end MatrixFormula.Formula
