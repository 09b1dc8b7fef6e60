import MatrixFormula.Proofs.Cursor.Tokens

/-!
# What steps do to a cursor

Whatever a reader does, its cursor and the places that it has remembered stay places of the source.
Questions leave the cursor where it is or move it over blanks, so the token that follows stays the
same until it is taken. A reader that returns to a place goes on from there as it did before.
-/

namespace MatrixFormula.Cursor

/-- The second cursor stands behind blanks that follow the first one. -/
def SkipsTo (before after : Cursor) : Prop :=
  ∃ blanks : Text, (∀ char ∈ blanks, Text.isBlank char) ∧
    before.rest = blanks ++ after.rest ∧ after.passed = before.passed ++ blanks

/-- Whether a step concerns the cursor only, and no place that has been remembered. -/
def Step.onCursor : Step → Bool
  | .mark | .returnTo _ => false
  | _ => true

/-- Whether a step leaves the cursor where it is. -/
def Step.stays : Step → Bool
  | .isAtEnd | .span | .endSpan | .rest | .source | .report _ | .mark => true
  | _ => false

/-- Whether a step that was answered in some way has only looked at what follows the cursor. A
token that was asked for and refused, or that was missing, is not taken. -/
def Step.onlyLooks : Step → Answer → Bool
  | .read, .read (.ok _) | .readIf _, .token? (some _) => false
  | .readChar, _ | .returnTo _, _ | .moveTo _, _ => false
  | _, _ => true

/-- All that an answer quotes stands in the source, and all its regions lie in the source. -/
def Answer.LiesIn (source : Text) : Answer → Prop
  | .token? found => ∀ token ∈ found, token.span.Quotes source token.lexeme
  | .read (.ok token) => token.span.Quotes source token.lexeme
  | .read (.error diagnostic) | .ended (.error diagnostic) => diagnostic.Cites source
  | .report diagnostic => ∀ span ∈ diagnostic.spans, span.Within source
  | .region span => span.Within source
  | .text quoted => quoted <:+ source
  | .char? found => ∀ char ∈ found, char ∈ source
  | .done | .kind? _ | .flag _ | .ended (.ok _) | .marked _ => True

namespace Reader

/-- The reader after a list of steps. -/
def after (reader : Reader) (steps : List Step) : Reader :=
  steps.foldl (fun reader step => (reader.step step).2) reader

/-- The cursor of the reader stands in the source, and so do the places that it has remembered. -/
structure KeepsTo (reader : Reader) (source : Text) : Prop where
  cursor : reader.cursor.source = source
  marks : ∀ mark ∈ reader.marks, mark.source = source

/-- What a step may do to the cursor of a reader of the source, and what it may answer. -/
structure Lawful (source : Text) (reader : Reader) (step : Step) : Prop where
  answered : (reader.step step).1.LiesIn source
  stays : step.stays → (reader.step step).2.cursor = reader.cursor
  skips : step.onlyLooks (reader.step step).1 →
    reader.cursor.SkipsTo (reader.step step).2.cursor
  reaches : ∀ offset, step = .moveTo offset → source.IsBoundary offset ∨ source.byteSize ≤ offset →
    (reader.step step).2.cursor.offset = min offset source.byteSize

/-- The reader answers with the token whenever it is asked for the next one. It stops at the end of
the token when it takes it. -/
structure Offers (source : Text) (reader : Reader) (found : Option Token) : Prop where
  look : (reader.step .look).1 = .token? found
  lookKind : (reader.step .lookKind).1 = .kind? (found.map Token.kind)
  read : (reader.step .read).1 = .read
    (found.elim (.error (Fault.unexpectedEnd.located (.point source.byteSize))) .ok)
  readIf : ∀ kind, (reader.step (.readIf kind)).1 = .token? (found.filter (·.kind = kind))
  stops : ∀ token ∈ found, (reader.step .read).2.cursor.offset = token.span.stop ∧
    (reader.step (.readIf token.kind)).2.cursor.offset = token.span.stop

/-- None of the steps does more than look. -/
def OnlyLooks (reader : Reader) : List Step → Prop
  | [] => True
  | step :: steps =>
      step.onlyLooks (reader.step step).1 ∧ (reader.step step).2.OnlyLooks steps

end Reader

variable {cursor : Cursor} {reader : Reader} {source : Text} {found : Option Token}

/-! ## Places of the source -/

/-- Moving to an offset does not change the source. -/
theorem source_moveTo (cursor : Cursor) (offset : Nat) :
    (cursor.moveTo offset).source = cursor.source :=
  source_advance ..

/-- No step changes the source. -/
theorem source_act (cursor : Cursor) (step : Step) :
    (cursor.act step).2.source = cursor.source := by
  cases step with
  | read =>
      rw [act]
      split
      · exact source_pass ..
      · exact source_skipBlanks ..
  | readIf kind =>
      rw [act]
      split
      · split
        · exact source_pass ..
        · exact source_skipBlanks ..
      · exact source_skipBlanks ..
  | look | lookKind | lookChar | skipBlanks | expectEnd => exact source_skipBlanks ..
  | readChar => exact source_advance ..
  | moveTo offset => exact source_moveTo ..
  | _ => rfl

/-- A step remembers a place, returns to one, or concerns the cursor only. -/
theorem Step.cases (step : Step) :
    step = .mark ∨ (∃ index, step = .returnTo index) ∨ step.onCursor := by
  cases step with
  | mark => exact .inl rfl
  | returnTo index => exact .inr (.inl ⟨index, rfl⟩)
  | _ => exact .inr (.inr rfl)

/-- A step on the cursor leaves the remembered places alone. -/
theorem Reader.step_of_onCursor {step : Step} (on : step.onCursor) (reader : Reader) :
    reader.step step =
      ((reader.cursor.act step).1, { reader with cursor := (reader.cursor.act step).2 }) := by
  cases step with
  | mark | returnTo => cases on
  | _ => rfl

/-- No step leads out of the source. -/
theorem Reader.KeepsTo.step (keeps : reader.KeepsTo source) (step : Step) :
    (reader.step step).2.KeepsTo source := by
  rcases step.cases with rfl | ⟨index, rfl⟩ | on
  · refine ⟨keeps.cursor, fun mark member => ?_⟩
    rcases List.mem_append.mp member with old | fresh
    · exact keeps.marks mark old
    · rw [List.mem_singleton.mp fresh, keeps.cursor]
  · refine ⟨?_, keeps.marks⟩
    cases place : reader.marks[index]? with
    | none => simpa [Reader.step, place] using keeps.cursor
    | some mark => simpa [Reader.step, place] using keeps.marks mark (List.mem_of_getElem? place)
  · rw [Reader.step_of_onCursor on]
    exact ⟨(source_act _ _).trans keeps.cursor, keeps.marks⟩

/-- No sequence of steps leads out of the source. -/
theorem Reader.KeepsTo.after (keeps : reader.KeepsTo source) (steps : List Step) :
    (reader.after steps).KeepsTo source := by
  induction steps generalizing reader with
  | nil => exact keeps
  | cons step steps ih => exact ih (keeps.step step)

theorem Reader.start_keepsTo (source : Text) : (Reader.start source).KeepsTo source :=
  ⟨rfl, nofun⟩

/-- The cursor stands between two characters of the source, or at one of its ends. -/
theorem isBoundary_offset (whole : cursor.source = source) : source.IsBoundary cursor.offset :=
  ⟨cursor.passed, cursor.rest, whole.symm, rfl⟩

/-- As many leading characters fit into the size of a front part as it has. -/
theorem charsWithin_append (before behind : Text) :
    charsWithin before.byteSize (before ++ behind) = before.length := by
  induction before with
  | nil =>
      cases behind with
      | nil => rfl
      | cons char behind => simp [charsWithin, Nat.ne_of_gt char.utf8Size_pos]
  | cons char before ih => simp [charsWithin, ih]

/-- All characters of a text lie within as many bytes as it has. -/
theorem charsWithin_of_le {text : Text} {bytes : Nat} (all : text.byteSize ≤ bytes) :
    charsWithin bytes text = text.length := by
  induction text generalizing bytes with
  | nil => rfl
  | cons char text ih =>
      rw [Text.byteSize_cons] at all
      rw [charsWithin, if_pos (by omega), ih (by omega), List.length_cons]

/-- Moving to an offset leads between the two parts of the source that meet there. -/
theorem moveTo_eq {before behind : Text} (parts : cursor.source = before ++ behind) :
    cursor.moveTo before.byteSize = ⟨before, behind⟩ := by
  rw [moveTo, parts, charsWithin_append]
  exact advance_append [] before behind

/-- A cursor behind a token can move back to any place inside the token. -/
theorem moveTo_pass {token : Token} {left right : Text} (found : cursor.look? = some token)
    (parts : token.lexeme = left ++ right) :
    (cursor.pass token).moveTo (token.span.start + left.byteSize) =
      ⟨cursor.skipBlanks.passed ++ left, right ++ (cursor.pass token).rest⟩ := by
  obtain ⟨char, rest, -, -, same, passed⟩ := exists_of_look? found
  have start : token.span.start = cursor.skipBlanks.passed.byteSize := by
    rw [same]
    rfl
  rw [start, ← Text.byteSize_append]
  refine moveTo_eq ?_
  rw [passed, parts, source]
  simp

/-- At the end of the token it stays where it is. -/
theorem moveTo_pass_self {token : Token} (found : cursor.look? = some token) :
    (cursor.pass token).moveTo (token.span.start + token.lexeme.byteSize) = cursor.pass token := by
  obtain ⟨char, rest, -, -, -, passed⟩ := exists_of_look? found
  rw [moveTo_pass found (List.append_nil _).symm, passed]
  rfl

/-- A cursor moves to the place that it is sent to, or to the end of the source. -/
theorem offset_moveTo (whole : cursor.source = source) {offset : Nat}
    (place : source.IsBoundary offset ∨ source.byteSize ≤ offset) :
    (cursor.moveTo offset).offset = min offset source.byteSize := by
  subst whole
  rw [moveTo, start, advance, Cursor.offset, List.nil_append]
  rcases place with boundary | beyond
  · obtain ⟨before, behind, parts, rfl⟩ := boundary
    have bounded : before.byteSize ≤ Text.byteSize (before ++ behind) :=
      Text.IsBoundary.le ⟨before, behind, rfl, rfl⟩
    rw [Nat.min_eq_left (parts ▸ bounded), parts, charsWithin_append, List.take_left]
  · rw [Nat.min_eq_right beyond, charsWithin_of_le beyond, List.take_length]

/-! ## Answers -/

/-- The region of the next token lies in the source. -/
theorem span_within (cursor : Cursor) : cursor.span.Within cursor.source := by
  rw [span]
  cases found : cursor.look? with
  | none => exact Span.point_within _
  | some token => exact (quotes_of_look? found).within

/-- What is left over stands at the end of the source. -/
theorem expectEnd_cites {diagnostic : Diagnostic} (failed : cursor.expectEnd = .error diagnostic) :
    diagnostic.Cites cursor.source := by
  rw [expectEnd] at failed
  split at failed
  · cases failed
  · next char rest parts =>
      have quotes : (Span.ofText cursor.skipBlanks.offset (char :: rest)).Quotes cursor.source
          (char :: rest) := by
        refine ⟨cursor.skipBlanks.passed, [], ?_, rfl⟩
        rw [List.append_nil, ← parts, ← source_skipBlanks cursor, source]
      cases failed
      exact Fault.trailingText_cites quotes (List.cons_ne_nil char rest)

/-- A cursor answers with what stands in its source. -/
theorem liesIn_act (cursor : Cursor) (step : Step) :
    (cursor.act step).1.LiesIn cursor.source := by
  cases step with
  | look => exact fun token found => quotes_of_look? found
  | read =>
      rw [act]
      split
      · next token found => exact quotes_of_look? found
      · next none =>
          rw [report_of_look?_eq_none none]
          exact Fault.unexpectedEnd_cites _
  | readIf kind =>
      rw [act]
      split
      · next token found =>
          split
          · rintro _ ⟨⟩
            exact quotes_of_look? found
          · rintro _ ⟨⟩
      · rintro _ ⟨⟩
  | lookChar =>
      intro char first
      rw [← source_skipBlanks, source]
      exact List.mem_append_right _ (List.mem_of_mem_head? first)
  | readChar => exact fun char first => List.mem_append_right _ (List.mem_of_mem_head? first)
  | span => exact span_within cursor
  | endSpan => exact Span.point_within _
  | rest => exact ⟨cursor.passed, rfl⟩
  | source => exact List.suffix_refl _
  | report fault => exact List.forall_mem_singleton.mpr (span_within cursor)
  | expectEnd =>
      rw [act]
      cases failed : cursor.expectEnd with
      | ok => trivial
      | error diagnostic => exact expectEnd_cites failed
  | _ => trivial

/-- A reader answers with what stands in its source. -/
theorem Reader.KeepsTo.liesIn (keeps : reader.KeepsTo source) (step : Step) :
    (reader.step step).1.LiesIn source := by
  rcases step.cases with rfl | ⟨index, rfl⟩ | on
  · trivial
  · trivial
  · rw [Reader.step_of_onCursor on, ← keeps.cursor]
    exact liesIn_act _ _

/-! ## Looking -/

/-- A step that only looks leaves the cursor where it is or moves it over the blanks. -/
theorem act_of_onlyLooks {step : Step} (looks : step.onlyLooks (cursor.act step).1) :
    (cursor.act step).2 = cursor ∨ (cursor.act step).2 = cursor.skipBlanks := by
  cases step with
  | read =>
      rw [act] at looks ⊢
      cases found : cursor.look? with
      | none => exact .inr rfl
      | some token =>
          rw [found] at looks
          cases looks
  | readIf kind =>
      rw [act] at looks ⊢
      cases found : cursor.look? with
      | none => exact .inr rfl
      | some token =>
          rw [found] at looks
          by_cases same : token.kind = kind
          · simp [same, Step.onlyLooks] at looks
          · simp [same]
  | look | lookKind | lookChar | skipBlanks | expectEnd => exact .inr rfl
  | readChar | returnTo | moveTo => cases looks
  | _ => exact .inl rfl

/-- A step that only looks leaves the cursor where it is or moves it over blanks. -/
theorem Reader.step_of_onlyLooks {step : Step} (looks : step.onlyLooks (reader.step step).1) :
    (reader.step step).2.cursor = reader.cursor ∨
      (reader.step step).2.cursor = reader.cursor.skipBlanks := by
  rcases step.cases with rfl | ⟨index, rfl⟩ | on
  · exact .inl rfl
  · cases looks
  · rw [Reader.step_of_onCursor on] at looks ⊢
    exact act_of_onlyLooks looks

theorem skipsTo_refl (cursor : Cursor) : cursor.SkipsTo cursor :=
  ⟨[], nofun, rfl, (List.append_nil _).symm⟩

theorem skipsTo_skipBlanks (cursor : Cursor) : cursor.SkipsTo cursor.skipBlanks := by
  rw [skipBlanks_eq]
  exact ⟨_, fun _ => List.mem_takeWhile_imp, List.takeWhile_append_dropWhile.symm, rfl⟩

/-- Each step of a reader of the source is lawful. -/
theorem Reader.KeepsTo.lawful (keeps : reader.KeepsTo source) (step : Step) :
    reader.Lawful source step where
  answered := keeps.liesIn step
  stays still := by
    cases step with
    | isAtEnd | span | endSpan | rest | source | report | mark => rfl
    | _ => cases still
  skips looks := by
    rcases Reader.step_of_onlyLooks looks with same | skipped
    · exact same ▸ skipsTo_refl _
    · exact skipped ▸ skipsTo_skipBlanks _
  reaches := by
    rintro offset rfl place
    exact offset_moveTo keeps.cursor place

/-- Looking leaves the next token what it is. -/
theorem Reader.look?_after {steps : List Step} (looks : reader.OnlyLooks steps) :
    (reader.after steps).cursor.look? = reader.cursor.look? := by
  induction steps generalizing reader with
  | nil => rfl
  | cons step steps ih =>
      obtain ⟨first, others⟩ := looks
      refine (ih others).trans ?_
      rcases Reader.step_of_onlyLooks first with same | skipped
      · rw [same]
      · rw [skipped, look?_skipBlanks]

/-- A reader answers with the token that follows its cursor. -/
theorem Reader.KeepsTo.offers (keeps : reader.KeepsTo source) :
    reader.Offers source reader.cursor.look? where
  look := rfl
  lookKind := rfl
  read := by
    cases found : reader.cursor.look? with
    | none => simp [Reader.step, act, found, report_of_look?_eq_none found, keeps.cursor]
    | some token => simp [Reader.step, act, found]
  readIf kind := by
    cases found : reader.cursor.look? with
    | none => simp [Reader.step, act, found]
    | some token =>
        by_cases same : token.kind = kind <;> simp [Reader.step, act, found, same, Option.filter]
  stops token found := by
    simp [Reader.step, act, Option.mem_def.mp found, offset_pass found]

/-! ## Returning -/

/-- The index of a remembered place when some more have been remembered behind the first ones. -/
def renumber (known added index : Nat) : Nat := if index < known then index else index + added

/-- The step with the indices of places renumbered. -/
def Step.renumbered (known added : Nat) : Step → Step
  | .returnTo index => .returnTo (renumber known added index)
  | step => step

/-- The answer with the index of a place renumbered. -/
def Answer.renumbered (known added : Nat) : Answer → Answer
  | .marked index => .marked (renumber known added index)
  | answer => answer

/-- A place is found under its new index. -/
theorem getElem?_renumber (front between fresh : List Cursor) (index : Nat) :
    (front ++ between ++ fresh)[renumber front.length between.length index]? =
      (front ++ fresh)[index]? := by
  rw [renumber]
  split
  · next early =>
      rw [List.append_assoc, List.getElem?_append_left early, List.getElem?_append_left early]
  · next late =>
      have behind := Nat.le_of_not_lt late
      rw [List.append_assoc, List.getElem?_append_right (by omega),
        List.getElem?_append_right (by omega), List.getElem?_append_right behind]
      congr 1
      omega

/-- A step that does not concern remembered places is answered without an index. -/
theorem renumbered_act (cursor : Cursor) (step : Step) (known added : Nat) :
    (cursor.act step).1.renumbered known added = (cursor.act step).1 := by
  cases step with
  | read =>
      rw [act]
      cases cursor.look? <;> rfl
  | readIf kind =>
      rw [act]
      split
      · split <;> rfl
      · rfl
  | _ => rfl

/-- What is remembered in between only changes the indices of the places that follow. -/
theorem run_renumbered (front between fresh : List Cursor) (cursor : Cursor) (steps : List Step) :
    Reader.run ⟨cursor, front ++ between ++ fresh⟩
        (steps.map (Step.renumbered front.length between.length)) =
      (Reader.run ⟨cursor, front ++ fresh⟩ steps).map fun (answer, offset) =>
        (answer.renumbered front.length between.length, offset) := by
  induction steps generalizing cursor fresh with
  | nil => rfl
  | cons step steps ih =>
      rw [List.map_cons, Reader.run, Reader.run, List.map_cons]
      rcases step.cases with rfl | ⟨index, rfl⟩ | on
      · have later := ih (fresh ++ [cursor]) cursor
        rw [← List.append_assoc, ← List.append_assoc] at later
        have index : (front ++ between ++ fresh).length =
            renumber front.length between.length (front ++ fresh).length := by
          simp only [renumber, List.length_append]
          rw [if_neg (by omega)]
          omega
        exact List.cons_eq_cons.mpr ⟨Prod.ext (congrArg Answer.marked index) rfl, later⟩
      · have place := getElem?_renumber front between fresh index
        simp only [Step.renumbered, Reader.step, place]
        exact List.cons_eq_cons.mpr ⟨rfl, ih fresh _⟩
      · have same : step.renumbered front.length between.length = step := by
          cases step <;> first | rfl | cases on
        rw [same, Reader.step_of_onCursor on, Reader.step_of_onCursor on]
        exact List.cons_eq_cons.mpr ⟨Prod.ext (renumbered_act ..).symm rfl, ih fresh _⟩

/-- Places are remembered behind the ones that are known, one for each mark. -/
theorem Reader.exists_marks_after (reader : Reader) (steps : List Step) :
    ∃ fresh : List Cursor, (reader.after steps).marks = reader.marks ++ fresh ∧
      fresh.length = steps.count .mark := by
  induction steps generalizing reader with
  | nil => exact ⟨[], (List.append_nil _).symm, rfl⟩
  | cons step steps ih =>
      obtain ⟨fresh, same, size⟩ := ih (reader.step step).2
      rcases step.cases with rfl | ⟨index, rfl⟩ | on
      · refine ⟨reader.cursor :: fresh, same.trans (by simp [Reader.step]), ?_⟩
        rw [List.length_cons, size, List.count_cons_self]
      · have other : Step.returnTo index ≠ .mark := by simp
        exact ⟨fresh, same, by rw [size, List.count_cons_of_ne other]⟩
      · have other : step ≠ .mark := by
          rintro rfl
          cases on
        have kept : (reader.step step).2.marks = reader.marks := by
          rw [Reader.step_of_onCursor on]
        exact ⟨fresh, same.trans (by rw [kept]), by rw [size, List.count_cons_of_ne other]⟩

/-- A reader that returns to a place answers from there as it did when it remembered the place,
except that places are numbered behind those that it has remembered in between. -/
theorem run_returned (reader : Reader) (between later : List Step) :
    let marked := (reader.step .mark).2
    let returned := ((marked.after between).step (.returnTo reader.marks.length)).2
    returned.run (later.map (Step.renumbered marked.marks.length (between.count .mark))) =
      (marked.run later).map fun (answer, offset) =>
        (answer.renumbered marked.marks.length (between.count .mark), offset) := by
  intro marked returned
  obtain ⟨fresh, same, size⟩ := marked.exists_marks_after between
  have place : (marked.marks ++ fresh)[reader.marks.length]? = some reader.cursor := by
    simp [marked, Reader.step]
  have back : returned = ⟨marked.cursor, marked.marks ++ fresh ++ []⟩ := by
    simp only [returned, Reader.step, same, place, List.append_nil]
    rfl
  rw [back, ← size, run_renumbered, List.append_nil]

/-- From the start of a source, no list of steps leads the cursor out of the source, or between the
bytes of a character. Every further step is lawful: all that it answers lies in the source, a
question leaves the cursor where it is or moves it over blanks, and a movement leads to its place.
Looking any number of times, in any way, leaves the token that follows what it is, and taking it
gives that token and stops at its end. After returning to a place that was remembered, all later
steps are answered as from there. -/
theorem keeps_to_source (source : Text) (steps : List Step) :
    let reader := (Reader.start source).after steps
    reader.cursor.source = source ∧ reader.cursor.offset ≤ source.byteSize ∧
    source.IsBoundary reader.cursor.offset ∧
    (∀ step, reader.Lawful source step) ∧
    (∀ looks found, reader.OnlyLooks looks → (reader.step .look).1 = .token? found →
      (reader.after looks).Offers source found) ∧
    ∀ between later,
      let marked := (reader.step .mark).2
      let returned := ((marked.after between).step (.returnTo reader.marks.length)).2
      (reader.step .mark).1 = .marked reader.marks.length ∧
      returned.run (later.map (Step.renumbered marked.marks.length (between.count .mark))) =
        (marked.run later).map fun (answer, offset) =>
          (answer.renumbered marked.marks.length (between.count .mark), offset) := by
  intro reader
  have keeps : reader.KeepsTo source := (Reader.start_keepsTo source).after steps
  have boundary := isBoundary_offset keeps.cursor
  refine ⟨keeps.cursor, boundary.le, boundary, keeps.lawful, ?_, ?_⟩
  · intro looks found looking answered
    obtain rfl : reader.cursor.look? = found := by cases answered; rfl
    rw [← Reader.look?_after looking]
    exact (keeps.after looks).offers
  · exact fun between later => ⟨rfl, run_returned reader between later⟩

/-- A reader of `Av · b` that moves back into the name it has read, asks for a plus sign and for the
next character, and then reads on from there. -/
theorem keeps_to_source_inside_name :
    let reader := (Reader.start "Av · b").after [.read, .moveTo 1]
    let looks : List Step := [.readIf .plus, .lookChar, .isAtEnd]
    let found : Option Token := some ⟨.name, "v", ⟨1, 2⟩⟩
    reader.OnlyLooks looks ∧ (reader.step .look).1 = .token? found ∧
      (reader.after looks).Offers "Av · b" found := by
  intro reader looks found
  have looking : reader.OnlyLooks looks := ⟨rfl, rfl, rfl, trivial⟩
  have answered : (reader.step .look).1 = .token? found := rfl
  have lawful := keeps_to_source "Av · b" [.read, .moveTo 1]
  exact ⟨looking, answered, lawful.2.2.2.2.1 looks found looking answered⟩

end MatrixFormula.Cursor
