import MatrixFormula.Formula.Reading
import MatrixFormula.Proofs.Pending

/-!
# The grammar of formulas

Expressions have ranks, which say how tightly they hang together: sums, products, factors with
a sign, and powers. Reading words from left to right with a stack builds an expression exactly
when the grammar derives it from the words.
-/

namespace MatrixFormula.Formula

/-- The operator that a word writes between two operands. -/
def Word.operator? : Word → Option Operator
  | .plus => some .add
  | .minus => some .sub
  | .times => some .mul
  | .slash => some .div
  | _ => none

/-- The words write the expression. Sums have rank 1, products rank 2, factors with a sign
rank 3 and powers rank 4. -/
inductive Derives : Nat → List Lexeme → Expr → Prop where
  | number {lexeme : Lexeme} (word : lexeme.word = .number) :
      Derives 4 [lexeme] (.number lexeme.text lexeme.span)
  | name {lexeme : Lexeme} (word : lexeme.word = .name) :
      Derives 4 [lexeme] (.name lexeme.text lexeme.span)
  | group {opening closing : Lexeme} {words : List Lexeme} {inner : Expr}
      (opens : opening.word = .openParen) (inside : Derives 1 words inner)
      (closes : closing.word = .closeParen) :
      Derives 4 (opening :: words ++ [closing]) (.group (opening.span.through closing.span) inner)
  | transpose {lexeme : Lexeme} {words : List Lexeme} {operand : Expr} {stop : Nat}
      (base : Derives 4 words operand) (mark : lexeme.word = .caret (.transpose stop)) :
      Derives 4 (words ++ [lexeme]) (.transpose operand stop)
  | negation {lexeme : Lexeme} {words : List Lexeme} {operand : Expr} (sign : lexeme.word = .minus)
      (factor : Derives 3 words operand) :
      Derives 3 (lexeme :: words) (.negation lexeme.span.start operand)
  | binary {lexeme : Lexeme} {operator : Operator} {before behind : List Lexeme}
      {left right : Expr} (first : Derives operator.rank before left)
      (sign : lexeme.word.operator? = some operator)
      (second : Derives (operator.rank + 1) behind right) :
      Derives operator.rank (before ++ lexeme :: behind)
        (.binary operator (some lexeme.span) left right)
  | juxtaposed {before behind : List Lexeme} {left right : Expr} (first : Derives 2 before left)
      (second : Derives 4 behind right) :
      Derives 2 (before ++ behind) (.binary .mul none left right)
  | loosen {rank : Nat} {words : List Lexeme} {expr : Expr} (tight : Derives (rank + 1) words expr) :
      Derives rank words expr

/-- An expression of a rank is one of every lower rank. -/
theorem Derives.mono {rank least : Nat} {words : List Lexeme} {expr : Expr}
    (derives : Derives rank words expr) (looser : least ≤ rank) : Derives least words expr := by
  obtain ⟨difference, rfl⟩ := Nat.exists_eq_add_of_le looser
  clear looser
  induction difference with
  | zero => exact derives
  | succ difference ih => exact ih derives.loosen

theorem Operator.rank_pos (operator : Operator) : 1 ≤ operator.rank := by cases operator <;> decide

theorem Operator.rank_le (operator : Operator) : operator.rank ≤ 2 := by cases operator <;> decide

/-! ## Everything derived is read -/

variable {stop : Nat} {stack : List Frame} {rest : List Lexeme} {lexeme : Lexeme}

/-- An operator behind an operand waits for another operand. -/
theorem read_operator {operator : Operator} {operand : Expr}
    (sign : lexeme.word.operator? = some operator) :
    read stop stack (some operand) (lexeme :: rest) =
      read stop (await operator (some lexeme.span) operand stack) none rest := by
  rw [read]
  cases word : lexeme.word <;> rw [word] at sign <;> cases sign <;> rfl

/-- Whether a word starts an operand that may stand behind another one without an operator. -/
def Word.startsPower : Word → Bool
  | .number | .name | .openParen => true
  | _ => false

/-- A power behind an operand is a factor of a product without a sign. -/
theorem read_juxtaposed {operand : Expr} (starts : lexeme.word.startsPower) :
    read stop stack (some operand) (lexeme :: rest) =
      read stop (await .mul none operand stack) none (lexeme :: rest) := by
  rw [read, read]
  cases word : lexeme.word <;> rw [word] at starts <;> first | rfl | cases starts

/-- Every power starts with a number, a name or a parenthesis. -/
theorem Derives.startsPower {rank : Nat} {words : List Lexeme} {expr : Expr}
    (derives : Derives rank words expr) (power : 4 ≤ rank) :
    ∃ first others, words = first :: others ∧ first.word.startsPower := by
  induction derives with
  | number word | name word => exact ⟨_, _, rfl, by simp [word, Word.startsPower]⟩
  | group opens => exact ⟨_, _, rfl, by simp [opens, Word.startsPower]⟩
  | transpose _ _ ih =>
      obtain ⟨first, others, rfl, starts⟩ := ih power
      exact ⟨first, _, rfl, starts⟩
  | negation | juxtaposed => omega
  | @binary _ operator =>
      have := operator.rank_le
      omega
  | loosen _ ih => exact ih (Nat.le_succ_of_le power)

/-- No frame binds more tightly than a minus sign. -/
theorem Frame.rank_le (frame : Frame) : Pending.rank frame ≤ 3 := by
  cases frame with
  | negation => exact Nat.le_refl 3
  | group => exact Nat.zero_le 3
  | binary _ operator => exact Nat.le_succ_of_le operator.rank_le

/-- Whether no frame of a stack would take in the left operand of an operator of the rank. -/
def Loose (rank : Nat) (stack : List Frame) : Prop :=
  ∀ frame ∈ stack.head?, Pending.rank frame < rank ∨ 2 < rank

/-- An operator takes in all that binds as tightly, and waits on the rest of the stack. -/
theorem await_append {operator : Operator} {sign? : Option Span} {operand : Expr}
    {frames stack : List Frame} (tight : ∀ frame ∈ frames, operator.rank ≤ Pending.rank frame)
    (loose : Loose operator.rank stack) :
    await operator sign? operand (frames ++ stack) =
      .binary (Pending.fillAll operand frames) operator sign? :: stack := by
  refine Pending.await_append tight (fun frame head => ?_) _ operand
  have := operator.rank_le
  rcases loose frame head with below | large
  · exact below
  · omega

/-- Reading derived words leaves frames that settle on the expression. -/
theorem Derives.read {rank : Nat} {words : List Lexeme} {expr : Expr}
    (derives : Derives rank words expr) (stack : List Frame) (loose : Loose rank stack)
    (rest : List Lexeme) :
    ∃ frames operand, (∀ frame ∈ frames, rank ≤ Pending.rank frame) ∧
      Pending.fillAll operand frames = expr ∧
      Formula.read stop stack none (words ++ rest) =
        Formula.read stop (frames ++ stack) (some operand) rest := by
  induction derives generalizing stack rest with
  | number word | name word =>
      refine ⟨[], _, by simp, rfl, ?_⟩
      rw [List.singleton_append, Formula.read]
      simp only [word, List.nil_append]
  | @group opening closing words inner opens inside closes ih =>
      obtain ⟨frames, operand, tight, filled, run⟩ :=
        ih (.group opening.span :: stack) (by simp [Loose, Pending.rank]) (closing :: rest)
      refine ⟨[], _, by simp, rfl, ?_⟩
      rw [List.append_assoc, List.cons_append, Formula.read]
      simp only [opens, List.singleton_append, run]
      rw [Formula.read]
      simp only [closes, Pending.settle_append tight, filled]
      rfl
  | @transpose lexeme words operand mark base caret ih =>
      obtain ⟨frames, operand, tight, rfl, run⟩ := ih stack loose (lexeme :: rest)
      have none : frames = [] := List.eq_nil_iff_forall_not_mem.mpr fun frame member => by
        have := tight frame member
        have := frame.rank_le
        omega
      subst none
      refine ⟨[], _, by simp, rfl, ?_⟩
      rw [List.append_assoc, List.singleton_append, run, Formula.read]
      simp only [caret, List.nil_append, Pending.fillAll_nil]
  | @negation lexeme words operand sign factor ih =>
      obtain ⟨frames, operand, tight, filled, run⟩ :=
        ih (.negation lexeme.span.start :: stack) (by simp [Loose]) rest
      refine ⟨frames ++ [.negation lexeme.span.start], operand, ?_, ?_, ?_⟩
      · exact Pending.forall_rank_append tight (Nat.le_refl _) (Nat.le_refl _)
      · rw [Pending.fillAll_append, filled]
        rfl
      · rw [List.cons_append, Formula.read]
        simp [sign, run]
  | @binary lexeme operator before behind left right first sign second ihFirst ihSecond =>
      obtain ⟨frames, operand, tight, filled, run⟩ :=
        ihFirst stack loose (lexeme :: (behind ++ rest))
      obtain ⟨pending, last, above, whole, next⟩ :=
        ihSecond (.binary left operator (some lexeme.span) :: stack)
          (by simp [Loose, Pending.rank]) rest
      refine ⟨pending ++ [.binary left operator (some lexeme.span)], last, ?_, ?_, ?_⟩
      · exact Pending.forall_rank_append above (Nat.le_succ _) (Nat.le_refl _)
      · rw [Pending.fillAll_append, whole]
        rfl
      · rw [List.append_assoc, List.cons_append, run, read_operator sign,
          await_append tight loose, filled, next]
        simp
  | @juxtaposed before behind left right first second ihFirst ihSecond =>
      obtain ⟨frames, operand, tight, filled, run⟩ := ihFirst stack loose (behind ++ rest)
      obtain ⟨pending, last, above, whole, next⟩ :=
        ihSecond (.binary left .mul none :: stack) (by simp [Loose]) rest
      obtain ⟨head, others, rfl, starts⟩ := second.startsPower (Nat.le_refl _)
      have waits : await .mul none operand (frames ++ stack) = .binary left .mul none :: stack :=
        filled ▸ await_append tight loose
      refine ⟨pending ++ [.binary left .mul none], last, ?_, ?_, ?_⟩
      · exact Pending.forall_rank_append above (by decide) (Nat.le_refl _)
      · rw [Pending.fillAll_append, whole]
        rfl
      · rw [List.append_assoc, run, List.cons_append, read_juxtaposed starts, waits]
        simpa using next
  | @loosen rank words expr tight ih =>
      have looser : Loose (rank + 1) stack := fun frame member => by
        have := loose frame member
        omega
      obtain ⟨frames, operand, above, filled, run⟩ := ih stack looser rest
      exact ⟨frames, operand, fun frame member => Nat.le_of_succ_le (above frame member), filled,
        run⟩

/-- Everything that the grammar derives is read. -/
theorem Derives.read_eq_ok {words : List Lexeme} {expr : Expr} (derives : Derives 1 words expr) :
    Formula.read stop [] none words = .ok expr := by
  obtain ⟨frames, operand, tight, filled, run⟩ := derives.read [] (by simp [Loose]) []
  rw [List.append_nil] at run
  rw [run, Formula.read, Pending.settle_append tight, filled]
  rfl

/-! ## Everything read is derived -/

/-- Why words are no formula, for each way in which they can stop making sense. -/
inductive Halts (stop : Nat) (words : List Lexeme) : Diagnostic → Prop where
  | ended : Halts stop words (Fault.unexpectedEnd.located (.point stop))
  | unexpected {lexeme : Lexeme} (member : lexeme ∈ words) :
      Halts stop words ((Fault.unexpectedToken lexeme.text).located lexeme.span)
  | unclosed {lexeme : Lexeme} (member : lexeme ∈ words) (opens : lexeme.word = .openParen) :
      Halts stop words (Fault.unclosedParenthesis.located lexeme.span)
  | trailing {lexeme : Lexeme} (member : lexeme ∈ words) :
      Halts stop words (Formula.trailing stop lexeme)
  | unsupported {lexeme : Lexeme} {found : Text} {span : Span} (member : lexeme ∈ words)
      (mark : lexeme.word = .caret (.unsupported found span)) :
      Halts stop words ((Fault.unsupportedExponent found).located span)
  | missing {lexeme : Lexeme} {place : Nat} (member : lexeme ∈ words)
      (mark : lexeme.word = .caret (.missing place)) :
      Halts stop words (Fault.unexpectedEnd.located (.point place))

/-- Each expression is derived from some of the words, which follow each other. -/
def Derivable (words : List Lexeme) (exprs : List Expr) : Prop :=
  ∀ expr ∈ exprs, ∃ block, block <:+: words ∧ Derives 1 block expr

/-- Expressions that some of the words derive are derived from all of them. -/
theorem Derivable.mono {front words : List Lexeme} {exprs : List Expr}
    (derivable : Derivable front exprs) (part : front <:+: words) : Derivable words exprs := by
  intro expr member
  obtain ⟨block, inside, derives⟩ := derivable expr member
  exact ⟨block, inside.trans part, derives⟩

/-- One more expression may be derived from the words. -/
theorem Derivable.concat {words block : List Lexeme} {exprs : List Expr} {expr : Expr}
    (derivable : Derivable words exprs) (inside : block <:+: words) (derives : Derives 1 block expr) :
    Derivable words (exprs ++ [expr]) :=
  List.forall_mem_append.mpr ⟨derivable, List.forall_mem_singleton.mpr ⟨block, inside, derives⟩⟩

/-- What reading words leads to: an expression that is derived from them, or a fault of theirs
with operands that are each derived from some of them. -/
def Accounts (stop : Nat) (words : List Lexeme) : Except Stop Expr → Prop
  | .ok expr => Derives 1 words expr
  | .error halt => Derivable words halt.completed ∧ Halts stop words halt.diagnostic

/-- The left operands on a stack are complete, the farthest one first. -/
theorem completed_cons (frame : Frame) (stack : List Frame) :
    completed (frame :: stack) =
      completed stack ++ match frame with
        | .binary left _ _ => [left]
        | _ => [] := by
  cases frame <;> simp [completed]

/-- The stack holds what the words before it have opened, and the nearest frame wants an operand
of the rank. -/
inductive Opened : Nat → List Frame → List Lexeme → Prop where
  | nil : Opened 1 [] []
  | negation {rank : Nat} {stack : List Frame} {words : List Lexeme} {lexeme : Lexeme}
      (opened : Opened rank stack words) (wanted : rank ≤ 3) (sign : lexeme.word = .minus) :
      Opened 3 (.negation lexeme.span.start :: stack) (words ++ [lexeme])
  | binary {rank : Nat} {stack : List Frame} {words before : List Lexeme} {lexeme : Lexeme}
      {operator : Operator} {left : Expr} (opened : Opened rank stack words)
      (wanted : rank ≤ operator.rank) (first : Derives operator.rank before left)
      (sign : lexeme.word.operator? = some operator) :
      Opened (operator.rank + 1) (.binary left operator (some lexeme.span) :: stack)
        (words ++ before ++ [lexeme])
  | juxtaposed {rank : Nat} {stack : List Frame} {words before : List Lexeme} {left : Expr}
      (opened : Opened rank stack words) (wanted : rank ≤ 2) (first : Derives 2 before left) :
      Opened 4 (.binary left .mul none :: stack) (words ++ before)
  | group {rank : Nat} {stack : List Frame} {words : List Lexeme} {lexeme : Lexeme}
      (opened : Opened rank stack words) (parenthesis : lexeme.word = .openParen) :
      Opened 1 (.group lexeme.span :: stack) (words ++ [lexeme])

/-- Settling an operand derives what the frames make of it. -/
theorem Opened.settle {rank bound least : Nat} {stack below : List Frame}
    {words operandWords : List Lexeme} {operand whole : Expr} (opened : Opened rank stack words)
    (derives : Derives bound operandWords operand) (wanted : rank ≤ bound)
    (enough : least ≤ bound) (small : 1 ≤ least ∧ least ≤ 2)
    (settled : Pending.settle least operand stack = (whole, below)) :
    ∃ rest before behind, Opened rest below before ∧ rest ≤ least ∧ Derives least behind whole ∧
      words ++ operandWords = before ++ behind := by
  induction opened generalizing bound operandWords operand with
  | nil =>
      cases settled
      exact ⟨1, _, _, .nil, small.1, derives.mono enough, rfl⟩
  | @negation rank stack words lexeme opened wants sign ih =>
      have taken : least ≤ Pending.rank (Frame.negation lexeme.span.start) :=
        Nat.le_succ_of_le small.2
      rw [Pending.settle, if_pos taken] at settled
      obtain ⟨rest, before, behind, result⟩ := ih (.negation sign (derives.mono wanted)) wants
        (Nat.le_succ_of_le small.2) settled
      exact ⟨rest, before, behind, by simpa using result⟩
  | @binary rank stack words before lexeme operator left opened wants first sign ih =>
      rw [Pending.settle] at settled
      split at settled
      · next tight =>
          obtain ⟨rest, start, behind, result⟩ := ih (.binary first sign (derives.mono wanted)) wants
            tight settled
          exact ⟨rest, start, behind, by simpa using result⟩
      · next loose =>
          cases settled
          exact ⟨_, _, _, .binary opened wants first sign, Nat.lt_of_not_le loose,
            derives.mono enough, rfl⟩
  | @juxtaposed rank stack words before left opened wants first ih =>
      have taken : least ≤ Pending.rank (Frame.binary left .mul none) := small.2
      rw [Pending.settle, if_pos taken] at settled
      obtain ⟨rest, start, behind, result⟩ := ih (.juxtaposed first (derives.mono wanted)) wants
        small.2 settled
      exact ⟨rest, start, behind, by simpa using result⟩
  | group opened parenthesis =>
      rw [Pending.settle, if_neg (by simp [Pending.rank]; omega)] at settled
      cases settled
      exact ⟨_, _, _, .group opened parenthesis, small.1, derives.mono enough, rfl⟩

/-- No frame wants more than a power. -/
theorem Opened.rank_le {rank : Nat} {stack : List Frame} {words : List Lexeme}
    (opened : Opened rank stack words) : rank ≤ 4 := by
  cases opened with
  | nil | negation | juxtaposed | group => decide
  | @binary _ _ _ _ _ operator =>
      have := operator.rank_le
      omega

section Sound

variable {rank : Nat} {before operandWords : List Lexeme} {operand : Expr}

/-- An operator with a sign behind a power opens a frame. -/
theorem Opened.await_sign {operator : Operator} (opened : Opened rank stack before)
    (power : Derives 4 operandWords operand) (sign : lexeme.word.operator? = some operator) :
    Opened (operator.rank + 1) (await operator (some lexeme.span) operand stack)
      (before ++ operandWords ++ [lexeme]) := by
  have small := operator.rank_le
  obtain ⟨rest, start, behind, below, loose, left, same⟩ :=
    opened.settle power opened.rank_le (by omega) ⟨operator.rank_pos, small⟩ rfl
  rw [same]
  exact .binary below loose left sign

/-- A product without a sign behind a power opens a frame. -/
theorem Opened.await_juxtaposed (opened : Opened rank stack before)
    (power : Derives 4 operandWords operand) :
    Opened 4 (await .mul none operand stack) (before ++ operandWords) := by
  obtain ⟨rest, start, behind, below, loose, left, same⟩ :=
    opened.settle power opened.rank_le (by decide : 2 ≤ 4) ⟨by decide, by decide⟩ rfl
  rw [same]
  exact .juxtaposed below loose left

/-- The operands that were complete when a stack was left are derived from words in front of it. -/
theorem Opened.completed (opened : Opened rank stack before) : Derivable before (completed stack) := by
  have left {front block : List Lexeme} {stack : List Frame} {left : Expr} {operator : Operator}
      {sign? : Option Span} (derivable : Derivable front (Formula.completed stack))
      (first : Derives operator.rank block left) :
      Derivable (front ++ block) (Formula.completed (.binary left operator sign? :: stack)) := by
    rw [completed_cons]
    exact (derivable.mono (List.prefix_append front block).isInfix).concat
      (List.suffix_append front block).isInfix (first.mono operator.rank_pos)
  induction opened with
  | nil => exact nofun
  | negation _ _ _ ih | group _ _ ih =>
      rw [completed_cons, List.append_nil]
      exact ih.mono (List.prefix_append ..).isInfix
  | binary _ _ first _ ih => exact (left ih first).mono (List.prefix_append ..).isInfix
  | @juxtaposed _ _ _ _ _ _ _ first ih => exact @left _ _ _ _ .mul none ih first

/-- An expression that ends in front of something which cannot continue it. -/
theorem Opened.stopAt {words : List Lexeme} {diagnostic : Diagnostic}
    (opened : Opened rank stack before) (power : Derives 4 operandWords operand)
    (halts : Halts stop (before ++ operandWords ++ words) diagnostic) :
    Accounts stop (before ++ operandWords ++ words) (.error (stopAt operand stack diagnostic)) := by
  unfold Formula.stopAt
  cases settled : Pending.settle 1 operand stack with
  | mk whole below =>
      obtain ⟨rest, start, behind, outer, -, derives, same⟩ :=
        opened.settle power opened.rank_le (by decide) ⟨by decide, by decide⟩ settled
      rw [same] at halts ⊢
      have complete {front : List Lexeme} {stack : List Frame} (starts : front <+: start)
          (derivable : Derivable front (Formula.completed stack)) :
          Derivable (start ++ behind ++ words) (Formula.completed stack ++ [whole]) :=
        (derivable.mono (starts.trans (by simp)).isInfix).concat (List.infix_append ..) derives
      cases outer with
      | @group _ _ front lexeme outer opens =>
          exact ⟨complete (List.prefix_append front [lexeme]) outer.completed,
            .unclosed (by simp) opens⟩
      | nil => exact ⟨complete (List.prefix_refl _) nofun, halts⟩
      | negation opened wanted sign =>
          exact ⟨complete (List.prefix_refl _) (Opened.negation opened wanted sign).completed, halts⟩
      | binary opened wanted first sign =>
          exact ⟨complete (List.prefix_refl _) (Opened.binary opened wanted first sign).completed,
            halts⟩
      | juxtaposed opened wanted first =>
          exact ⟨complete (List.prefix_refl _) (Opened.juxtaposed opened wanted first).completed,
            halts⟩

/-- Whatever is read has a derivation, and whatever is not has a fault, from a place where an
operand must follow and from behind a power. -/
theorem accounts_read (words : List Lexeme) :
    (∀ {rank : Nat} {stack : List Frame} {before : List Lexeme},
      Opened rank stack before → rank ≤ 3 →
        Accounts stop (before ++ words) (read stop stack none words)) ∧
    (∀ {rank : Nat} {stack : List Frame} {before operandWords : List Lexeme} {operand : Expr},
      Opened rank stack before → Derives 4 operandWords operand →
        Accounts stop (before ++ operandWords ++ words) (read stop stack (some operand) words)) := by
  -- The induction is on the words that are left. `Opened` says what the words in front of them are.
  induction words with
  | nil =>
      constructor
      · intro rank stack before opened _
        rw [List.append_nil]
        exact ⟨opened.completed, .ended⟩
      · intro rank stack before operandWords operand opened power
        rw [read]
        split
        · next whole settled =>
            obtain ⟨rest, start, behind, below, -, derives, same⟩ :=
              opened.settle power opened.rank_le (by decide) ⟨by decide, by decide⟩ settled
            cases below
            rwa [List.append_nil, same]
        · exact opened.stopAt power .ended
  | cons lexeme rest ih =>
      constructor
      · intro rank stack before opened wanted
        rw [read]
        split
        · next word => simpa using ih.2 opened (.number word)
        · next word => simpa using ih.2 opened (.name word)
        · next word => simpa using ih.1 (.negation opened wanted word) (by decide)
        · next word => simpa using ih.1 (.group opened word) (by decide)
        · exact ⟨opened.completed.mono (List.prefix_append ..).isInfix, .unexpected (by simp)⟩
      · intro rank stack before operandWords operand opened power
        have member : lexeme ∈ before ++ operandWords ++ lexeme :: rest := by simp
        have starts : before <+: before ++ operandWords ++ lexeme :: rest := by simp
        have complete : Derivable (before ++ operandWords ++ lexeme :: rest)
            (completed stack ++ [operand]) :=
          (opened.completed.mono starts.isInfix).concat (List.infix_append ..)
            (power.mono (by decide))
        cases sign : lexeme.word.operator? with
        | some operator =>
            have small := operator.rank_le
            rw [read_operator sign]
            simpa using ih.1 (opened.await_sign power sign) (by omega)
        | none =>
            rw [read]
            split
            · next word => simp [word, Word.operator?] at sign
            · next word => simp [word, Word.operator?] at sign
            · next word => simp [word, Word.operator?] at sign
            · next word => simp [word, Word.operator?] at sign
            · next word => simpa using ih.2 (opened.await_juxtaposed power) (.number word)
            · next word => simpa using ih.2 (opened.await_juxtaposed power) (.name word)
            · next word => simpa using ih.1 (.group (opened.await_juxtaposed power) word) (by decide)
            · next word =>
                split
                · next inner span below settled =>
                    obtain ⟨least, start, inside, outer, -, derives, same⟩ :=
                      opened.settle power opened.rank_le (by decide) ⟨by decide, by decide⟩ settled
                    cases outer with
                    | group outer opens =>
                        rw [same]
                        simpa using ih.2 outer (.group opens derives word)
                · exact opened.stopAt power (.trailing member)
            · next word => simpa using ih.2 opened (.transpose power word)
            · next word => exact ⟨complete, .unsupported member word⟩
            · next word => exact ⟨complete, .missing member word⟩
            · exact opened.stopAt power (.trailing member)

end Sound

/-- The words of a formula are read to an expression exactly when the grammar derives it. -/
theorem read_eq_ok_iff {words : List Lexeme} {expr : Expr} :
    read stop [] none words = .ok expr ↔ Derives 1 words expr := by
  constructor
  · intro done
    have accounts := (@accounts_read stop words).1 .nil (by decide)
    rwa [List.nil_append, done] at accounts
  · exact Derives.read_eq_ok

end MatrixFormula.Formula
