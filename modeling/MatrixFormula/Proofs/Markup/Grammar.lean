import MatrixFormula.Markup.Reading
import MatrixFormula.Proofs.Pending

/-!
# The grammar of displayed formulas

Displayed formulas have ranks, which say how tightly they hang together: equations, sums,
products, factors with a sign, fractions, powers and single operands. Reading words from left to
right with a stack builds a formula exactly when the grammar derives it from the words.
-/

namespace MatrixFormula.Markup

/-- The operations that are written with a word between two operands. -/
inductive Operator where
  | equation
  | sum
  | difference
  | product
  | fraction
  | power
deriving DecidableEq, Repr

namespace Operator

/-- The operator with both of its operands. -/
def node : Operator → Node → Node → Node
  | .equation => .equation
  | .sum => .sum
  | .difference => .difference
  | .product => .product
  | .fraction => .fraction
  | .power => .power

/-- The operator with its left operand, waiting for the right one. -/
def frame : Operator → Node → Frame
  | .equation => .equation
  | .sum => .sum
  | .difference => .difference
  | .product => .product
  | .fraction => .fraction
  | .power => .power

/-- How tightly the operator binds. -/
def rank : Operator → Nat
  | .equation => 1
  | .sum | .difference => 2
  | .product => 3
  | .fraction => 5
  | .power => 6

/-- The rank of the left operand. It may have the rank of the operator itself when operators in a
row associate to the left. -/
def left : Operator → Nat
  | .equation | .sum | .difference => 2
  | .product => 3
  | .fraction => 5
  | .power => 7

/-- The rank of the right operand. It may have the rank of the operator itself when operators in
a row associate to the right. -/
def right : Operator → Nat
  | .equation => 1
  | .sum | .difference => 3
  | .product => 4
  | .fraction | .power => 6

theorem rank_pos (operator : Operator) : 1 ≤ operator.rank := by cases operator <;> decide

/-- The left operand of an operator binds at least as tightly as the formula. -/
theorem rank_le_left (operator : Operator) : operator.rank ≤ operator.left := by
  cases operator <;> decide

/-- The right operand of an operator binds at least as tightly as the formula. -/
theorem rank_le_right (operator : Operator) : operator.rank ≤ operator.right := by
  cases operator <;> decide

/-- The frame of an operator binds like its formula. -/
@[simp] theorem rank_frame (operator : Operator) (left : Node) :
    Pending.rank (operator.frame left) = operator.rank := by
  cases operator <;> rfl

/-- The frame of an operator makes its formula of the right operand. -/
@[simp] theorem fill_frame (operator : Operator) (left right : Node) :
    Pending.fill (operator.frame left) right = operator.node left right := by
  cases operator <;> rfl

end Operator

/-- The operator that a word writes between two operands. -/
def Word.operator? : Word → Option Operator
  | .equals => some .equation
  | .plus => some .sum
  | .minus => some .difference
  | .times => some .product
  | .slash => some .fraction
  | .caret => some .power
  | _ => none

/-- The words write the formula. Equations have rank 1, sums rank 2, products rank 3, factors with
a sign rank 4, fractions rank 5, powers rank 6 and single operands rank 7. -/
inductive Derives : Nat → List Lexeme → Node → Prop where
  | number {lexeme : Lexeme} (word : lexeme.word = .number) :
      Derives 7 [lexeme] (.number lexeme.text)
  | name {lexeme : Lexeme} (word : lexeme.word = .name) : Derives 7 [lexeme] (.name lexeme.text)
  | block {lexeme : Lexeme} (word : lexeme.word = .block) : Derives 7 [lexeme] (.block lexeme.text)
  | group {opening closing : Lexeme} {words : List Lexeme} {inner : Node}
      (opens : opening.word = .openParen) (inside : Derives 1 words inner)
      (closes : closing.word = .closeParen) :
      Derives 7 (opening :: words ++ [closing]) (.group inner)
  | negation {lexeme : Lexeme} {words : List Lexeme} {operand : Node} (sign : lexeme.word = .minus)
      (factor : Derives 4 words operand) : Derives 4 (lexeme :: words) (.negation operand)
  | binary {lexeme : Lexeme} {operator : Operator} {before behind : List Lexeme} {left right : Node}
      (first : Derives operator.left before left) (sign : lexeme.word.operator? = some operator)
      (second : Derives operator.right behind right) :
      Derives operator.rank (before ++ lexeme :: behind) (operator.node left right)
  | juxtaposed {before behind : List Lexeme} {left right : Node} (first : Derives 3 before left)
      (second : Derives 5 behind right) : Derives 3 (before ++ behind) (.product left right)
  | loosen {rank : Nat} {words : List Lexeme} {node : Node}
      (tight : Derives (rank + 1) words node) :
      Derives rank words node

/-- A formula of a rank is one of every lower rank. -/
theorem Derives.mono {rank least : Nat} {words : List Lexeme} {node : Node}
    (derives : Derives rank words node) (looser : least ≤ rank) : Derives least words node := by
  obtain ⟨difference, rfl⟩ := Nat.exists_eq_add_of_le looser
  clear looser
  induction difference with
  | zero => exact derives
  | succ difference ih => exact ih derives.loosen

/-! ## Everything derived is read -/

variable {stop : Nat} {stack : List Frame} {rest : List Lexeme} {lexeme : Lexeme} {operand : Node}

/-- An operator behind an operand waits for another operand. -/
theorem read_operator {operator : Operator} (sign : lexeme.word.operator? = some operator) :
    read stop stack (some operand) (lexeme :: rest) =
      read stop (Pending.await operator.frame operator.left operand stack) none rest := by
  have power : Pending.await Operator.power.frame 7 operand stack = .power operand :: stack := by
    rw [Pending.await, settle_power]
    rfl
  rw [read]
  cases word : lexeme.word <;> rw [word] at sign <;> cases sign
  case caret => exact congrArg (read stop · none rest) power.symm
  all_goals rfl

/-- Whether a word starts an operand that may stand behind another one without an operator. -/
def Word.startsAtom : Word → Bool
  | .number | .name | .block | .openParen => true
  | _ => false

/-- An operand behind an operand is a factor of a product without a sign. -/
theorem read_juxtaposed (starts : lexeme.word.startsAtom) :
    read stop stack (some operand) (lexeme :: rest) =
      read stop (awaitFactor operand stack) none (lexeme :: rest) := by
  rw [read, read]
  cases word : lexeme.word <;> rw [word] at starts <;> first | rfl | cases starts

/-- Every fraction and every power starts with a single operand. -/
theorem Derives.startsAtom {rank : Nat} {words : List Lexeme} {node : Node}
    (derives : Derives rank words node) (tight : 5 ≤ rank) :
    ∃ first others, words = first :: others ∧ first.word.startsAtom := by
  induction derives with
  | number word | name word | block word => exact ⟨_, _, rfl, by simp [word, Word.startsAtom]⟩
  | group opens => exact ⟨_, _, rfl, by simp [opens, Word.startsAtom]⟩
  | negation | juxtaposed => omega
  | @binary _ operator _ _ _ _ _ _ _ ih =>
      obtain ⟨first, others, rfl, starts⟩ := ih (Nat.le_trans tight operator.rank_le_left)
      exact ⟨first, _, rfl, starts⟩
  | loosen _ ih => exact ih (Nat.le_succ_of_le tight)

/-- The rank of the operand that a frame waits for. -/
def Frame.wanted : Frame → Nat
  | .group _ | .equation _ => 1
  | .sum _ | .difference _ => 3
  | .product _ | .negation => 4
  | .fraction _ | .power _ => 6

/-- The frame of an operator waits for the right operand. -/
@[simp] theorem Operator.wanted_frame (operator : Operator) (left : Node) :
    (operator.frame left).wanted = operator.right := by
  cases operator <;> rfl

/-- A minus sign is admitted where a factor with a sign is wanted. -/
theorem Frame.admitsMinus_iff (frame : Frame) : frame.admitsMinus ↔ frame.wanted ≤ 4 := by
  cases frame <;> simp [admitsMinus, wanted]

/-- A frame that waits for a formula of the operator does not take in its left operand. -/
theorem Frame.rank_lt_left {frame : Frame} {operator : Operator}
    (loose : frame.wanted ≤ operator.rank) : Pending.rank frame < operator.left := by
  revert loose
  cases frame <;> cases operator <;>
    simp [Frame.wanted, Operator.rank, Operator.left, Pending.rank]

/-- Whether a formula of the rank may start where the stack waits. -/
def Loose (rank : Nat) (stack : List Frame) : Prop :=
  ∀ frame ∈ stack.head?, frame.wanted ≤ rank

/-- Where a formula may start, a tighter one may start. -/
theorem Loose.mono {rank least : Nat} (loose : Loose least stack) (tighter : least ≤ rank) :
    Loose rank stack :=
  fun frame head => Nat.le_trans (loose frame head) tighter

/-- An operator takes in all that binds as tightly, and waits on the rest of the stack. -/
theorem await_append {operator : Operator} {frames : List Frame}
    (tight : ∀ frame ∈ frames, operator.left ≤ Pending.rank frame)
    (loose : Loose operator.rank stack) :
    Pending.await operator.frame operator.left operand (frames ++ stack) =
      operator.frame (Pending.fillAll operand frames) :: stack :=
  Pending.await_append tight (fun frame head => Frame.rank_lt_left (loose frame head)) _ operand

/-- Reading derived words leaves frames that settle on the formula. -/
theorem Derives.read {rank : Nat} {words : List Lexeme} {node : Node}
    (derives : Derives rank words node) (stack : List Frame) (loose : Loose rank stack)
    (rest : List Lexeme) :
    ∃ frames operand, (∀ frame ∈ frames, rank ≤ Pending.rank frame) ∧
      Pending.fillAll operand frames = node ∧
      Markup.read stop stack none (words ++ rest) =
        Markup.read stop (frames ++ stack) (some operand) rest := by
  induction derives generalizing stack rest with
  | number word | name word | block word =>
      refine ⟨[], _, by simp, rfl, ?_⟩
      rw [List.singleton_append, Markup.read]
      simp only [word, List.nil_append]
  | @group opening closing words inner opens inside closes ih =>
      obtain ⟨frames, operand, tight, filled, run⟩ :=
        ih (.group opening.span :: stack) (by simp [Loose, Frame.wanted]) (closing :: rest)
      refine ⟨[], _, by simp, rfl, ?_⟩
      rw [List.append_assoc, List.cons_append, Markup.read]
      simp only [opens, List.singleton_append, run]
      rw [Markup.read]
      simp only [closes, Pending.settle_append tight, filled]
      rfl
  | @negation lexeme words operand sign factor ih =>
      obtain ⟨frames, operand, tight, filled, run⟩ :=
        ih (.negation :: stack) (by simp [Loose, Frame.wanted]) rest
      have admits : stack.head?.all Frame.admitsMinus := by
        cases stack with
        | nil => rfl
        | cons frame stack => exact frame.admitsMinus_iff.mpr (loose frame rfl)
      refine ⟨frames ++ [.negation], operand, ?_, ?_, ?_⟩
      · exact Pending.forall_rank_append tight (Nat.le_refl _) (Nat.le_refl _)
      · rw [Pending.fillAll_append, filled]
        rfl
      · rw [List.cons_append, Markup.read]
        simp [sign, admits, run]
  | @binary lexeme operator before behind left right first sign second ihFirst ihSecond =>
      obtain ⟨frames, operand, tight, filled, run⟩ :=
        ihFirst stack (loose.mono operator.rank_le_left) (lexeme :: (behind ++ rest))
      obtain ⟨pending, last, above, whole, next⟩ :=
        ihSecond (operator.frame left :: stack) (by simp [Loose]) rest
      refine ⟨pending ++ [operator.frame left], last, ?_, ?_, ?_⟩
      · exact Pending.forall_rank_append above operator.rank_le_right (by simp)
      · rw [Pending.fillAll_append, whole, operator.fill_frame]
      · rw [List.append_assoc, List.cons_append, run, read_operator sign,
          await_append tight loose, filled, next]
        simp
  | @juxtaposed before behind left right first second ihFirst ihSecond =>
      obtain ⟨frames, operand, tight, filled, run⟩ := ihFirst stack loose (behind ++ rest)
      obtain ⟨pending, last, above, whole, next⟩ :=
        ihSecond (.product left :: stack) (by simp [Loose, Frame.wanted]) rest
      obtain ⟨head, others, rfl, starts⟩ := second.startsAtom (Nat.le_refl _)
      have waits : awaitFactor operand (frames ++ stack) = .product left :: stack :=
        filled ▸ @await_append stack operand .product frames tight loose
      refine ⟨pending ++ [.product left], last, ?_, ?_, ?_⟩
      · exact Pending.forall_rank_append above (by decide) (Nat.le_refl _)
      · rw [Pending.fillAll_append, whole]
        rfl
      · rw [List.append_assoc, run, List.cons_append, read_juxtaposed starts, waits]
        simpa using next
  | loosen tight ih =>
      obtain ⟨frames, operand, above, filled, run⟩ := ih stack (loose.mono (Nat.le_succ _)) rest
      exact ⟨frames, operand, fun frame member => Nat.le_of_succ_le (above frame member), filled,
        run⟩

/-- Everything that the grammar derives is read. -/
theorem Derives.read_eq_ok {words : List Lexeme} {node : Node} (derives : Derives 1 words node) :
    Markup.read stop [] none words = .ok node := by
  obtain ⟨frames, operand, tight, filled, run⟩ := derives.read [] (by simp [Loose]) []
  rw [List.append_nil] at run
  rw [run, Markup.read, Pending.settle_append tight, filled]
  rfl

/-! ## Everything read is derived -/

/-- The stack holds what the words before it have opened, and the nearest frame wants an operand
of the rank. -/
inductive Opened : Nat → List Frame → List Lexeme → Prop where
  | nil : Opened 1 [] []
  | negation {rank : Nat} {stack : List Frame} {words : List Lexeme} {lexeme : Lexeme}
      (opened : Opened rank stack words) (wanted : rank ≤ 4) (sign : lexeme.word = .minus) :
      Opened 4 (.negation :: stack) (words ++ [lexeme])
  | binary {rank : Nat} {stack : List Frame} {words before : List Lexeme} {lexeme : Lexeme}
      {operator : Operator} {left : Node} (opened : Opened rank stack words)
      (wanted : rank ≤ operator.rank) (first : Derives operator.left before left)
      (sign : lexeme.word.operator? = some operator) :
      Opened operator.right (operator.frame left :: stack) (words ++ before ++ [lexeme])
  | juxtaposed {rank : Nat} {stack : List Frame} {words before : List Lexeme} {left : Node}
      (opened : Opened rank stack words) (wanted : rank ≤ 3) (first : Derives 3 before left) :
      Opened 5 (.product left :: stack) (words ++ before)
  | group {rank : Nat} {stack : List Frame} {words : List Lexeme} {lexeme : Lexeme}
      (opened : Opened rank stack words) (parenthesis : lexeme.word = .openParen) :
      Opened 1 (.group lexeme.span :: stack) (words ++ [lexeme])

/-- No frame wants more than a power. -/
theorem Opened.rank_le {rank : Nat} {words : List Lexeme} (opened : Opened rank stack words) :
    rank ≤ 6 := by
  cases opened with
  | nil | negation | juxtaposed | group => decide
  | @binary _ _ _ _ _ operator => cases operator <;> decide

/-- Where no frame takes in the left operand of an operator, a formula of the operator is wanted. -/
theorem Opened.le_rank {rank : Nat} {words : List Lexeme} {operator : Operator}
    (opened : Opened rank stack words)
    (loose : ∀ frame ∈ stack.head?, Pending.rank frame < operator.left) :
    rank ≤ operator.rank := by
  cases opened with
  | nil => exact operator.rank_pos
  | negation | juxtaposed | group =>
      have loose := loose _ rfl
      revert loose
      cases operator <;> simp [Operator.rank, Operator.left, Pending.rank]
  | @binary _ _ _ _ _ outer =>
      have loose := loose _ rfl
      rw [outer.rank_frame] at loose
      cases outer <;> cases operator <;> revert loose <;> decide

/-- Settling an operand derives what the frames make of it. -/
theorem Opened.settle {rank bound least : Nat} {stack below : List Frame}
    {words operandWords : List Lexeme} {operand whole : Node} (opened : Opened rank stack words)
    (derives : Derives bound operandWords operand) (wanted : rank ≤ bound) (enough : least ≤ bound)
    (inside : 1 ≤ least) (settled : Pending.settle least operand stack = (whole, below)) :
    ∃ rest before behind, Opened rest below before ∧ Derives least behind whole ∧
      words ++ operandWords = before ++ behind := by
  induction opened generalizing bound operandWords operand with
  | nil =>
      cases settled
      exact ⟨1, _, _, .nil, derives.mono enough, rfl⟩
  | @negation rank stack words lexeme opened wants sign ih =>
      rw [Pending.settle] at settled
      split at settled
      · next tight =>
          obtain ⟨rest, before, behind, result⟩ :=
            ih (.negation sign (derives.mono wanted)) wants tight settled
          exact ⟨rest, before, behind, by simpa using result⟩
      · cases settled
        exact ⟨_, _, _, .negation opened wants sign, derives.mono enough, rfl⟩
  | @binary rank stack words before lexeme operator left opened wants first sign ih =>
      rw [Pending.settle, operator.rank_frame, operator.fill_frame] at settled
      split at settled
      · next tight =>
          obtain ⟨rest, start, behind, result⟩ :=
            ih (.binary first sign (derives.mono wanted)) wants tight settled
          exact ⟨rest, start, behind, by simpa using result⟩
      · cases settled
        exact ⟨_, _, _, .binary opened wants first sign, derives.mono enough, rfl⟩
  | @juxtaposed rank stack words before left opened wants first ih =>
      rw [Pending.settle] at settled
      split at settled
      · next tight =>
          obtain ⟨rest, start, behind, result⟩ :=
            ih (.juxtaposed first (derives.mono wanted)) wants tight settled
          exact ⟨rest, start, behind, by simpa using result⟩
      · cases settled
        exact ⟨_, _, _, .juxtaposed opened wants first, derives.mono enough, rfl⟩
  | group opened parenthesis =>
      rw [Pending.settle, if_neg (by simp [Pending.rank]; omega)] at settled
      cases settled
      exact ⟨_, _, _, .group opened parenthesis, derives.mono enough, rfl⟩

section Sound

variable {rank : Nat} {before operandWords : List Lexeme}

/-- Behind a single operand, an operator finds its left operand derived, and its own formula
wanted. -/
theorem Opened.left (operator : Operator) (opened : Opened rank stack before)
    (atom : Derives 7 operandWords operand) :
    ∃ whole below rest start behind,
      Pending.settle operator.left operand stack = (whole, below) ∧ Opened rest below start ∧
        rest ≤ operator.rank ∧ Derives operator.left behind whole ∧
        before ++ operandWords = start ++ behind := by
  have enough : operator.left ≤ 7 := by cases operator <;> decide
  cases settled : Pending.settle operator.left operand stack with
  | mk whole below =>
      obtain ⟨rest, start, behind, outer, left, same⟩ := opened.settle atom
        (Nat.le_succ_of_le opened.rank_le) enough
        (Nat.le_trans operator.rank_pos operator.rank_le_left) settled
      refine ⟨whole, below, rest, start, behind, rfl, outer, outer.le_rank ?_, left, same⟩
      intro frame head
      obtain ⟨others, rfl⟩ := List.head?_eq_some_iff.mp head
      exact Pending.rank_lt_of_settle settled

/-- An operator with a sign behind a single operand opens a frame. -/
theorem Opened.await_sign {operator : Operator} (opened : Opened rank stack before)
    (atom : Derives 7 operandWords operand) (sign : lexeme.word.operator? = some operator) :
    Opened operator.right (Pending.await operator.frame operator.left operand stack)
      (before ++ operandWords ++ [lexeme]) := by
  obtain ⟨whole, below, rest, start, behind, settled, outer, wanted, left, same⟩ :=
    opened.left operator atom
  rw [same, Pending.await, settled]
  exact .binary outer wanted left sign

/-- A product without a sign behind a single operand opens a frame. -/
theorem Opened.await_juxtaposed (opened : Opened rank stack before)
    (atom : Derives 7 operandWords operand) :
    Opened 5 (awaitFactor operand stack) (before ++ operandWords) := by
  obtain ⟨whole, below, rest, start, behind, settled, outer, wanted, left, same⟩ :=
    opened.left .product atom
  have settled : Pending.settle 3 operand stack = (whole, below) := settled
  rw [same, awaitFactor, Pending.await, settled]
  exact .juxtaposed outer wanted left

/-- What is closed by a parenthesis derives from the words behind the open parenthesis. -/
theorem Opened.close (opened : Opened rank stack before) (atom : Derives 7 operandWords operand)
    {inner : Node} {span : Span} {below : List Frame}
    (settled : Pending.settle 1 operand stack = (inner, .group span :: below)) :
    ∃ (least : Nat) (outer : List Lexeme) (first : Lexeme) (inside : List Lexeme),
      Opened least below outer ∧ first.word = .openParen ∧ Derives 1 inside inner ∧
        before ++ operandWords = outer ++ first :: inside := by
  obtain ⟨least, start, inside, outer, derives, same⟩ := opened.settle atom
    (Nat.le_succ_of_le opened.rank_le) (by decide) (Nat.le_refl 1) settled
  generalize nearest : Frame.group span :: below = whole at outer
  cases outer with
  | group outer opens =>
      cases nearest
      exact ⟨_, _, _, _, outer, opens, derives, by rw [same, List.append_assoc]; rfl⟩
  | @binary _ _ _ _ _ operator => cases operator <;> cases nearest
  | _ => cases nearest

/-- Whatever is read has a derivation, from a place where an operand must follow and from
behind a single operand. -/
theorem derives_of_read (words : List Lexeme) :
    (∀ {rank : Nat} {stack : List Frame} {before : List Lexeme} {node : Node},
      Opened rank stack before → (stack.head?.all Frame.admitsMinus → rank ≤ 4) →
        read stop stack none words = .ok node → Derives 1 (before ++ words) node) ∧
    (∀ {rank : Nat} {stack : List Frame} {before operandWords : List Lexeme} {operand node : Node},
      Opened rank stack before → Derives 7 operandWords operand →
        read stop stack (some operand) words = .ok node →
          Derives 1 (before ++ operandWords ++ words) node) := by
  induction words with
  | nil =>
      constructor
      · intro _ _ _ _ _ _ done
        cases done
      · intro rank stack before operandWords operand node opened atom done
        rw [read] at done
        split at done
        · next whole settled =>
            cases done
            obtain ⟨rest, start, behind, below, derives, same⟩ := opened.settle atom
              (Nat.le_succ_of_le opened.rank_le) (by decide) (Nat.le_refl 1) settled
            cases below
            rwa [List.append_nil, same]
        · cases done
  | cons lexeme rest ih =>
      constructor
      · intro rank stack before node opened wanted done
        rw [read] at done
        split at done
        · next word => simpa using ih.2 opened (.number word) done
        · next word => simpa using ih.2 opened (.name word) done
        · next word => simpa using ih.2 opened (.block word) done
        · next word => simpa using ih.1 (.group opened word) (by simp) done
        · next word =>
            split at done
            · next admits =>
                simpa using ih.1 (.negation opened (wanted admits) word) (by simp) done
            · cases done
        · cases done
      · intro rank stack before operandWords operand node opened atom done
        cases sign : lexeme.word.operator? with
        | some operator =>
            rw [read_operator sign] at done
            have admits : (Pending.await operator.frame operator.left operand stack).head?.all
                Frame.admitsMinus → operator.right ≤ 4 := by
              rw [Pending.await]
              intro admits
              exact operator.wanted_frame _ ▸ (Frame.admitsMinus_iff _).mp admits
            simpa using ih.1 (opened.await_sign atom sign) admits done
        | none =>
            have factor := opened.await_juxtaposed atom
            cases word : lexeme.word with
            | number =>
                simp only [read, word] at done
                simpa using ih.2 factor (.number word) done
            | name =>
                simp only [read, word] at done
                simpa using ih.2 factor (.name word) done
            | block =>
                simp only [read, word] at done
                simpa using ih.2 factor (.block word) done
            | openParen =>
                simp only [read, word] at done
                simpa using ih.1 (.group factor word) (by simp) done
            | closeParen =>
                simp only [read, word] at done
                split at done
                · next settled =>
                    obtain ⟨least, outer, first, inside, opened, opens, derives, same⟩ :=
                      opened.close atom settled
                    rw [same]
                    simpa using ih.2 opened (.group opens derives word) done
                · cases done
            | stray =>
                simp only [read, word] at done
                cases done
            | _ => simp [word, Word.operator?] at sign

end Sound

/-- Words are read as a formula exactly when the grammar derives it from them. -/
theorem read_eq_ok_iff {words : List Lexeme} {node : Node} :
    read stop [] none words = .ok node ↔ Derives 1 words node := by
  constructor
  · intro done
    simpa using (derives_of_read words).1 .nil (by simp) done
  · exact Derives.read_eq_ok

end MatrixFormula.Markup
