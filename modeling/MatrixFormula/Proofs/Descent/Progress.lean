import MatrixFormula.Proofs.Cursor.Tokens
import MatrixFormula.Proofs.Descent.Basic

/-!
# Progress of descents

Reading a character pays for eight visits. When every routine pays for its own visits out of what
it reads, and has something left to pay for that of its caller, then a descent visits no more than
eight routines for each character of its source, and calls are never nested more deeply.
-/

namespace MatrixFormula

variable {origin trail after : Trail} {gain more : Nat} {cursor : Cursor}

/-! ## Offsets -/

namespace Cursor

/-- Passing over blanks leaves no more to read. -/
theorem length_skipBlanks_le (cursor : Cursor) :
    cursor.skipBlanks.rest.length ≤ cursor.rest.length := by
  rw [skipBlanks, advance, List.length_drop]
  exact Nat.sub_le ..

/-- Passing a token leaves less to read. -/
theorem length_pass_lt {token : Token} (found : cursor.look? = some token) :
    (cursor.pass token).rest.length < cursor.rest.length := by
  obtain ⟨char, rest, behind, -, -, passed⟩ := exists_of_look? found
  have shorter : (rest.dropWhile (Token.Kind.ofHead char).continuedBy).length ≤ rest.length :=
    (List.dropWhile_sublist _).length_le
  have before := cursor.length_skipBlanks_le
  rw [behind, List.length_cons] at before
  rw [passed]
  exact Nat.lt_of_lt_of_le (Nat.lt_succ_of_le shorter) before

/-- A place inside a token, but not at its start, is beyond the place in front of the token. -/
theorem length_behind_lt {token : Token} {left right : Text} (found : cursor.look? = some token)
    (parts : token.lexeme = left ++ right) (nonempty : left ≠ []) :
    (right ++ (cursor.pass token).rest).length < cursor.rest.length := by
  obtain ⟨char, rest, behind, -, same, passed⟩ := exists_of_look? found
  have spelled : left ++ right ++ (cursor.pass token).rest = cursor.skipBlanks.rest := by
    rw [← parts, passed, same, behind, List.cons_append, List.takeWhile_append_dropWhile]
  have lengths := congrArg List.length spelled
  have before := cursor.length_skipBlanks_le
  have some := List.length_pos_iff.mpr nonempty
  simp only [List.length_append] at lengths ⊢
  omega

/-- Of two places in a source, the one with less behind it has more in front of it. -/
theorem offset_lt_of_length_lt {other : Cursor} (same : other.source = cursor.source)
    (shorter : other.rest.length < cursor.rest.length) : cursor.offset < other.offset := by
  obtain ⟨between, rest⟩ : cursor.passed <+: other.passed := by
    refine List.prefix_of_prefix_length_le ⟨cursor.rest, rfl⟩ ⟨other.rest, same⟩ ?_
    have lengths := congrArg List.length same
    simp only [source, List.length_append] at lengths
    omega
  cases between with
  | nil =>
      rw [List.append_nil] at rest
      rw [source, source, rest, List.append_cancel_left_eq] at same
      exact absurd shorter (same ▸ Nat.lt_irrefl _)
  | cons char between =>
      rw [offset, offset, ← rest, Text.byteSize_append, Text.byteSize_cons]
      have := char.utf8Size_pos
      omega

end Cursor

/-! ## Steps forward -/

namespace Trail

/-- All that was logged is sound. -/
def Sound (trail : Trail) : Prop := ∀ visit ∈ trail.visits, visit.Sound

/-- The visits that were logged, and those that the rest of the source pays for. -/
def weight (trail : Trail) : Nat := trail.visits.length + 8 * trail.cursor.rest.length

/-- A part of a descent keeps to its source and logs sound visits. What it reads pays for them, and
for as many more as the gain. -/
structure Forward (origin trail : Trail) (gain : Nat) : Prop where
  source : trail.cursor.source = origin.cursor.source
  sound : origin.Sound → trail.Sound
  visits : origin.visits.length ≤ trail.visits.length
  weight : trail.weight + gain ≤ origin.weight

@[simp] theorem goto_goto (trail : Trail) (first second : Cursor) :
    (trail.goto first).goto second = trail.goto second := rfl

namespace Forward

/-- Where nothing was done, nothing was gained. -/
theorem refl (trail : Trail) : Forward trail trail 0 := ⟨rfl, id, Nat.le_refl _, Nat.le_refl _⟩

/-- The gains of two parts of a descent add up. -/
theorem trans (first : Forward origin trail gain) (second : Forward trail after more) :
    Forward origin after (gain + more) where
  source := second.source.trans first.source
  sound := second.sound ∘ first.sound
  visits := first.visits.trans second.visits
  weight := by
    have := first.weight
    have := second.weight
    omega

/-- A gain may be given away. -/
theorem mono (forward : Forward origin trail gain) (less : more ≤ gain) :
    Forward origin trail more :=
  { forward with weight := Nat.le_trans (Nat.add_le_add_left less _) forward.weight }

/-- No part of a descent leaves more to read. -/
theorem length_le (forward : Forward origin trail gain) :
    trail.cursor.rest.length ≤ origin.cursor.rest.length := by
  have visits := forward.visits
  have weight := forward.weight
  simp only [Trail.weight] at weight
  omega

/-- Where something is gained, something was read. -/
theorem length_lt (forward : Forward origin trail gain) (gains : 0 < gain) :
    trail.cursor.rest.length < origin.cursor.rest.length := by
  have visits := forward.visits
  have weight := forward.weight
  simp only [Trail.weight] at weight
  omega

/-- A movement of the cursor behind a character. -/
theorem goto {place : Cursor} (same : place.source = trail.cursor.source)
    (shorter : place.rest.length < trail.cursor.rest.length) :
    Forward trail (trail.goto place) 8 where
  source := same
  sound := id
  visits := Nat.le_refl _
  weight := by
    simp only [Trail.weight, visits_goto, cursor_goto]
    omega

/-- Passing over blanks costs nothing. -/
theorem skipBlanks (trail : Trail) : Forward trail (trail.goto trail.cursor.skipBlanks) 0 where
  source := Cursor.source_skipBlanks _
  sound := id
  visits := Nat.le_refl _
  weight := by
    have := trail.cursor.length_skipBlanks_le
    simp only [Trail.weight, visits_goto, cursor_goto]
    omega

/-- Passing a token pays for eight visits. -/
theorem pass {token : Token} (found : trail.cursor.look? = some token) :
    Forward trail (trail.goto (trail.cursor.pass token)) 8 :=
  .goto (Cursor.source_pass ..) (Cursor.length_pass_lt found)

/-- Reading a character pays for eight visits. -/
theorem advance {char : Char} (follows : trail.cursor.rest.head? = some char) :
    Forward trail (trail.goto (trail.cursor.advance 1)) 8 := by
  obtain ⟨others, behind⟩ := List.head?_eq_some_iff.mp follows
  refine .goto (Cursor.source_advance ..) ?_
  rw [Cursor.advance, List.length_drop, behind, List.length_cons]
  omega

/-- A visit is paid for by what was gained. -/
theorem log {visit : Visit} (forward : Forward origin trail (gain + 1)) (sound : visit.Sound) :
    Forward origin (trail.log visit) gain where
  source := forward.source
  sound whole := List.forall_mem_cons.mpr ⟨sound, forward.sound whole⟩
  visits := Nat.le_succ_of_le forward.visits
  weight := by
    have weight := forward.weight
    simp only [Trail.weight, visits_log, cursor_log, List.length_cons] at weight ⊢
    omega

/-- An activity that gained something may be logged. -/
theorem logged (forward : Forward origin trail (gain + 1)) (activity : Activity) :
    Forward origin
      (trail.log ⟨activity, origin.cursor.offset, some trail.cursor.offset⟩) gain := by
  refine forward.log fun _ exit same => ?_
  cases same
  exact Cursor.offset_lt_of_length_lt forward.source (forward.length_lt gain.succ_pos)

end Forward

/-! ## Descents that are given up -/

/-- A descent that halts has logged sound visits. What it has read pays for them up to a cost, and
fuel runs out only when there is less of it than the source can pay for. -/
structure Halted (origin : Trail) (cost fuel : Nat) (reason : Halt) (trail : Trail) : Prop where
  sound : origin.Sound → trail.Sound
  weight : trail.weight ≤ origin.weight + cost
  fuel : reason = .exhausted → fuel ≤ 8 * origin.cursor.rest.length + cost

namespace Halted

variable {cost dear fuel : Nat} {reason : Halt} {diagnostic : Diagnostic}

/-- A fault may be met anywhere. -/
theorem fault (forward : Forward origin trail gain) :
    Halted origin cost fuel (.fault diagnostic) trail where
  sound := forward.sound
  weight := by
    have := forward.weight
    omega
  fuel := nofun

/-- What was gained before pays for a part that was given up. -/
theorem behind (halts : Halted trail cost fuel reason after) (forward : Forward origin trail gain)
    (paid : cost ≤ dear + gain) (small : cost ≤ 8) : Halted origin dear fuel reason after where
  sound := halts.sound ∘ forward.sound
  weight := by
    have := forward.weight
    have := halts.weight
    omega
  fuel out := by
    have enough := halts.fuel out
    have shorter := forward.length_le
    rcases Nat.eq_zero_or_pos gain with rfl | gains
    · omega
    · have := forward.length_lt gains
      omega

/-- A visit that was given up costs something, and so does fuel. -/
theorem log (halts : Halted origin cost fuel reason trail) (activity : Activity) (entry : Nat) :
    Halted origin (cost + 1) (fuel + 1) reason (trail.log ⟨activity, entry, none⟩) where
  sound whole := List.forall_mem_cons.mpr ⟨fun _ => nofun, halts.sound whole⟩
  weight := by
    have weight := halts.weight
    simp only [Trail.weight, visits_log, cursor_log, List.length_cons] at weight ⊢
    omega
  fuel out := Nat.succ_le_succ (halts.fuel out)

/-- A descent that halts with more fuel is one that halts with less. -/
theorem less (halts : Halted origin cost (fuel + 1) reason trail) :
    Halted origin cost fuel reason trail :=
  { halts with fuel := fun out => Nat.le_of_succ_le (halts.fuel out) }

end Halted

end Trail

/-! ## Routines and loops -/

namespace Descent

open Trail

variable {α β : Type} {fuel cost : Nat}

/-- Every routine gains something, less for a routine that calls others, and halts at a cost. -/
def Progresses (call : Level → Descent α) (fuel : Nat) : Prop :=
  ∀ level trail, Ensures (call level) trail
    (fun _ after => Forward trail after (6 - level.rank)) (Halted trail level.rank fuel)

/-- Routines make progress when each of them does as long as those that it calls do. -/
theorem progresses_tie {body : (Level → Descent α) → Level → Descent α}
    (step : ∀ call fuel, Progresses call fuel → ∀ level trail, Ensures (body call level) trail
      (fun _ after => Forward trail after (7 - level.rank)) (Halted trail (level.rank - 1) fuel))
    (fuel : Nat) : Progresses (tie body fuel) fuel := by
  induction fuel with
  | zero =>
      intro level trail
      exact ⟨id, Nat.le_add_right _ _, fun _ => Nat.zero_le _⟩
  | succ fuel ih =>
      intro level trail
      have positive : 1 ≤ level.rank ∧ level.rank ≤ 5 := by cases level <;> decide
      rw [tie, ensures_visiting]
      refine (step _ fuel ih level trail).mono (fun _ after forward => ?_)
        fun reason after halts => ?_
      · refine Forward.logged (forward.mono ?_) _
        omega
      · have logged := halts.log (.call (.level level)) trail.cursor.offset
        rwa [Nat.sub_add_cancel positive.1] at logged

/-- A pass of a loop gains something if the loop goes around, and halts at a cost. -/
def PassProgresses (pass : α → Descent (Turn α β)) (cost fuel : Nat) : Prop :=
  ∀ value trail, Ensures (pass value) trail
    (Turn.Ends (fun _ after => Forward trail after 1) fun _ after => Forward trail after 0)
    (Halted trail cost fuel)

/-- A loop makes progress when it gains something each time it goes around. -/
theorem progresses_iterate {routine : Routine} {pass : α → Descent (Turn α β)}
    (step : PassProgresses pass cost fuel) (small : cost < 8) (value : α) (trail : Trail) :
    Ensures (iterate routine pass value) trail (fun _ after => Forward trail after 0)
      (Halted trail (cost + 1) fuel) := by
  refine @Ensures.iterate _ _ _ _ _ _ (fun _ between => Forward trail between 0) _ _
    (.refl trail) ?_
  intro value between forward
  refine (step value between).mono (fun turn after once => ?_) fun reason after halts => ?_
  · cases turn with
    | again next => exact ⟨.inr (once.length_lt Nat.one_pos), forward.trans (once.logged _)⟩
    | done result => exact forward.trans once
  · exact ((halts.log _ _).behind forward (Nat.le_refl _) (Nat.succ_le_of_lt small)).less

/-- A routine makes progress that calls the next one and goes on with a loop. -/
theorem progresses_chain {call : Level → Descent α} {routine : Routine} {level tighter : Level}
    {pass : α → Descent (Turn α β)} (progress : Progresses call fuel)
    (step : PassProgresses pass cost fuel) (next : tighter.rank + 1 = level.rank) (small : cost ≤ 3)
    (trail : Trail) :
    Ensures (call tighter >>= iterate routine pass) trail
      (fun _ after => Forward trail after (7 - level.rank))
      (Halted trail (level.rank - 1) fuel) := by
  have bounds : tighter.rank ≤ 5 := by cases tighter <;> decide
  rw [ensures_bind]
  refine (progress tighter trail).mono (fun first between forward => ?_)
    fun reason after halts => ?_
  · refine (progresses_iterate step (by omega) first between).mono (fun _ after later => ?_)
      fun reason after halts => ?_
    · refine (forward.trans later).mono ?_
      omega
    · refine halts.behind forward ?_ ?_ <;> omega
  · rwa [← next, Nat.add_sub_cancel]

/-! ## Whole sources -/

/-- Reading the source comes to the outcome. Whatever must move the cursor forward did so, and no
more than eight activities were logged for each character, but for the five calls that any formula
needs. -/
structure EndsWith (descent : Descent α) (source : Text) (outcome : Except Diagnostic α) :
    Prop where
  outcome : (descent.whole (.start source)).1 = outcome.mapError Halt.fault
  sound : (descent.whole (.start source)).2.Sound
  few : (descent.whole (.start source)).2.visits.length ≤ 8 * source.length + 5

/-- The fault with which a descent halts, if it does, is that of the outcome. -/
def FaultOf (outcome : Except Diagnostic α) (reason : Halt) : Prop :=
  ∀ diagnostic, reason = .fault diagnostic → outcome = .error diagnostic

/-- A fault of the outcome is the one with which a descent halts. -/
theorem FaultOf.of_eq {outcome : Except Diagnostic α} {diagnostic : Diagnostic}
    (same : outcome = .error diagnostic) : FaultOf outcome (.fault diagnostic) := by
  rintro _ ⟨⟩
  exact same

/-- A descent that makes progress and agrees with an outcome ends with it, given enough fuel. -/
theorem endsWith_of_progress {descent : Descent α} {source : Text} {outcome : Except Diagnostic α}
    (enough : 8 * source.length + 5 < fuel)
    (progress : Ensures descent (.start source) (fun _ after => Forward (.start source) after 0)
      (Halted (.start source) 5 fuel))
    (agrees : Ensures descent.whole (.start source) (fun value _ => outcome = .ok value)
      (fun reason _ => FaultOf outcome reason)) :
    descent.EndsWith source outcome := by
  have start : (Trail.start source).Sound := nofun
  have weight : (Trail.start source).weight = 8 * source.length := Nat.zero_add _
  have ends : Ensures descent.whole (.start source)
      (fun _ after => Forward (.start source) after 0) (Halted (.start source) 5 fuel) := by
    simp only [whole, ensures_bind, ensures_expectEnd, ensures_pure]
    refine progress.mono (fun value after forward => ?_) fun reason after halts => halts
    exact ⟨fun _ => forward.trans (.skipBlanks after),
      fun _ _ => .fault (forward.trans (.skipBlanks after))⟩
  have both := ends.and agrees
  unfold Ensures at both
  rcases run : descent.whole (.start source) with ⟨⟨reason⟩ | ⟨value⟩, after⟩
  all_goals rw [run] at both
  · -- Too much fuel is given for it to run out, so what halts the descent is a fault.
    obtain ⟨halts, same⟩ := both
    have few := halts.weight
    refine ⟨?_, run ▸ halts.sound start, ?_⟩
    · rw [run]
      cases reason with
      | fault diagnostic => rw [same diagnostic rfl]; rfl
      | exhausted => exact absurd (halts.fuel rfl) (Nat.not_le_of_lt enough)
    · rw [weight, Trail.weight] at few
      rw [run]
      dsimp only
      omega
  · obtain ⟨forward, same⟩ := both
    have few := forward.weight
    refine ⟨?_, run ▸ forward.sound start, ?_⟩
    · rw [run, same]
      rfl
    · rw [weight, Trail.weight] at few
      rw [run]
      dsimp only
      omega

end Descent

end MatrixFormula
