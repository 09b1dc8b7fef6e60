import MatrixFormula.Cursor
import MatrixFormula.Proofs.Text.LongestMatch

/-!
# Reading tokens one by one

A cursor reads a token where it stands, without knowing the tokens in front of it. Where it stands
between two tokens of its source, it reads the tokens that follow, except for blanks, and reports
the end of the source from then on.
-/

namespace MatrixFormula

/-- The tokens that are not blank. -/
def Token.visible (tokens : List Token) : List Token :=
  tokens.filter fun token => token.kind != .blank

namespace Cursor

/-- The tokens of the text behind the cursor, blank runs included. -/
def tokens (cursor : Cursor) : List Token := Token.listFrom cursor.offset cursor.rest

variable {cursor : Cursor} {token : Token}

/-! ## Movements -/

/-- Advancing by the length of a run passes the run. -/
theorem advance_append (passed run rest : Text) :
    advance ⟨passed, run ++ rest⟩ run.length = ⟨passed ++ run, rest⟩ := by
  simp [advance]

@[simp] theorem source_advance (cursor : Cursor) (count : Nat) :
    (cursor.advance count).source = cursor.source := by
  simp [advance, source]

@[simp] theorem source_skipBlanks (cursor : Cursor) : cursor.skipBlanks.source = cursor.source :=
  source_advance ..

@[simp] theorem source_pass (cursor : Cursor) (token : Token) :
    (cursor.pass token).source = cursor.source := by
  simp [pass]

/-- Passing over blanks passes the run of blanks at the cursor. -/
theorem skipBlanks_eq (cursor : Cursor) : cursor.skipBlanks =
    ⟨cursor.passed ++ cursor.rest.takeWhile Text.isBlank, cursor.rest.dropWhile Text.isBlank⟩ := by
  have moved := advance_append cursor.passed (cursor.rest.takeWhile Text.isBlank)
    (cursor.rest.dropWhile Text.isBlank)
  rwa [List.takeWhile_append_dropWhile] at moved

theorem rest_skipBlanks (cursor : Cursor) :
    cursor.skipBlanks.rest = cursor.rest.dropWhile Text.isBlank := by
  rw [skipBlanks_eq]

theorem offset_skipBlanks (cursor : Cursor) : cursor.skipBlanks.offset =
    cursor.offset + Text.byteSize (cursor.rest.takeWhile Text.isBlank) := by
  rw [skipBlanks_eq, offset, Text.byteSize_append]
  rfl

/-- The next token starts with the first character that is not blank, and passing it leads to its
end. -/
theorem exists_of_look? (found : cursor.look? = some token) :
    ∃ char rest, cursor.skipBlanks.rest = char :: rest ∧ Text.isBlank char = false ∧
      token = ⟨.ofHead char, char :: rest.takeWhile (Token.Kind.ofHead char).continuedBy,
        .ofText cursor.skipBlanks.offset
          (char :: rest.takeWhile (Token.Kind.ofHead char).continuedBy)⟩ ∧
      cursor.pass token = ⟨cursor.skipBlanks.passed ++ token.lexeme,
        rest.dropWhile (Token.Kind.ofHead char).continuedBy⟩ := by
  have shown := List.head?_dropWhile_not Text.isBlank cursor.rest
  rw [← rest_skipBlanks] at shown
  rw [look?, token?] at found
  cases parts : cursor.skipBlanks.rest with
  | nil => simp [parts, Token.first?] at found
  | cons char rest =>
      rw [parts] at found shown
      obtain rfl := Option.some.inj found
      refine ⟨char, rest, rfl, by simpa using shown, rfl, ?_⟩
      have moved := advance_append cursor.skipBlanks.passed
        (char :: rest.takeWhile (Token.Kind.ofHead char).continuedBy)
        (rest.dropWhile (Token.Kind.ofHead char).continuedBy)
      rw [← (Text.eq_run_append _ char rest).1, ← parts] at moved
      exact moved

/-- The next token is not blank. -/
theorem kind_ne_blank_of_look? (found : cursor.look? = some token) : token.kind ≠ .blank := by
  obtain ⟨char, rest, -, shown, rfl, -⟩ := exists_of_look? found
  intro blank
  exact absurd ((Token.Kind.class_of_ofHead char).1 blank) (by simp [shown])

/-- Passing the next token leads to its end. -/
theorem offset_pass (found : cursor.look? = some token) :
    (cursor.pass token).offset = token.span.stop := by
  obtain ⟨char, rest, -, -, same, passed⟩ := exists_of_look? found
  rw [passed, same]
  exact Text.byteSize_append ..

/-! ## Tokens that follow -/

theorem visible_cons_of_blank {tokens : List Token} (blank : token.kind = .blank) :
    Token.visible (token :: tokens) = Token.visible tokens :=
  List.filter_cons_of_neg (by simp [blank])

theorem visible_cons_of_shown {tokens : List Token} (shown : token.kind ≠ .blank) :
    Token.visible (token :: tokens) = token :: Token.visible tokens :=
  List.filter_cons_of_pos (by simpa using shown)

/-- Behind the blanks the same tokens follow, except for blanks. -/
theorem visible_skipBlanks (cursor : Cursor) :
    Token.visible cursor.skipBlanks.tokens = Token.visible cursor.tokens := by
  rw [skipBlanks_eq]
  obtain ⟨passed, rest⟩ := cursor
  cases rest with
  | nil => simp
  | cons char rest =>
      cases blank : Text.isBlank char with
      | false => simp [blank]
      | true =>
          have kind := Token.Kind.ofHead_of_isBlank blank
          rw [List.takeWhile_cons_of_pos blank, List.dropWhile_cons_of_pos blank]
          conv => rhs; rw [tokens, Token.listFrom_cons, visible_cons_of_blank kind, kind]
          rw [tokens, offset, Text.byteSize_append]
          rfl

/-- Without a next token nothing but blanks follows. -/
theorem visible_of_look?_eq_none (none : cursor.look? = none) :
    cursor.skipBlanks.rest = [] ∧ Token.visible cursor.tokens = [] := by
  have nothing : cursor.skipBlanks.rest = [] := Token.first?_eq_none_iff.mp none
  refine ⟨nothing, ?_⟩
  rw [← visible_skipBlanks, tokens, nothing, Token.listFrom]
  rfl

/-- The next token and those behind it are the tokens that follow, except for blanks. -/
theorem visible_of_look?_eq_some (found : cursor.look? = some token) :
    Token.visible cursor.tokens = token :: Token.visible (cursor.pass token).tokens := by
  obtain ⟨char, rest, behind, -, same, passed⟩ := exists_of_look? found
  have kind : Token.Kind.ofHead char ≠ .blank := by
    simpa [same] using kind_ne_blank_of_look? found
  have tail : (cursor.pass token).tokens =
      Token.listFrom (cursor.skipBlanks.offset + token.lexeme.byteSize)
        (rest.dropWhile (Token.Kind.ofHead char).continuedBy) := by
    rw [passed]
    exact congrArg (Token.listFrom · _) (Text.byteSize_append ..)
  rw [tail, ← visible_skipBlanks, tokens, behind, Token.listFrom_cons, visible_cons_of_shown kind,
    same]

/-- The next token stands in the source. -/
theorem quotes_of_look? (found : cursor.look? = some token) :
    token.span.Quotes cursor.source token.lexeme := by
  obtain ⟨char, rest, behind, -, same, passed⟩ := exists_of_look? found
  refine ⟨cursor.skipBlanks.passed, rest.dropWhile (Token.Kind.ofHead char).continuedBy, ?_, ?_⟩
  · rw [← source_pass cursor token, passed, source]
  · rw [same]
    rfl

/-- At the end of the source, its end is reported. -/
theorem offset_of_look?_eq_none (none : cursor.look? = none) :
    cursor.skipBlanks.offset = Text.byteSize cursor.source := by
  rw [← source_skipBlanks, source, (visible_of_look?_eq_none none).1, List.append_nil, offset]

/-- At the end of the source, a fault is reported there. -/
theorem report_of_look?_eq_none (none : cursor.look? = none) (fault : Fault) :
    cursor.report fault = fault.located (.point (Text.byteSize cursor.source)) := by
  rw [report, span, none]
  rfl

/-- The next token is the first of those that follow, except for blanks. -/
theorem look?_eq_head? (cursor : Cursor) : cursor.look? = (Token.visible cursor.tokens).head? := by
  cases found : cursor.look? with
  | none => rw [(visible_of_look?_eq_none found).2, List.head?_nil]
  | some token => rw [visible_of_look?_eq_some found, List.head?_cons]

/-- Passing over blanks does not change which token is next. -/
theorem look?_skipBlanks (cursor : Cursor) : cursor.skipBlanks.look? = cursor.look? := by
  rw [look?_eq_head?, visible_skipBlanks, look?_eq_head?]

/-- Blanks in front of a token do not matter for a report. -/
theorem report_skipBlanks (cursor : Cursor) (fault : Fault) :
    cursor.skipBlanks.report fault = cursor.report fault := by
  rw [report, report, span, span, look?_skipBlanks, endSpan, endSpan, source_skipBlanks]

/-! ## Readings -/

/-- What a reader of the source answers, and where it stops, when it reads some tokens, and then
goes on reading for a number of times. Blanks are passed over. -/
def readings (source : Text) (tokens : List Token) (extra : Nat) : List (Answer × Nat) :=
  (Token.visible tokens).map (fun token => (.read (.ok token), token.span.stop)) ++
    List.replicate extra
      (.read (.error (Fault.unexpectedEnd.located (.point source.byteSize))), source.byteSize)

/-- At the end of the source, every attempt to read fails in the same way. -/
theorem run_read_at_end (reader : Reader) (none : reader.cursor.look? = none) (extra : Nat) :
    reader.run (List.replicate extra .read) = readings reader.cursor.source [] extra := by
  induction extra generalizing reader with
  | zero => rfl
  | succ extra ih =>
      have step : reader.step .read =
          (.read (.error (Fault.unexpectedEnd.located (.point reader.cursor.source.byteSize))),
            { reader with cursor := reader.cursor.skipBlanks }) := by
        simp only [Reader.step, act, none, report_of_look?_eq_none none]
      have later := ih { reader with cursor := reader.cursor.skipBlanks }
        ((look?_skipBlanks _).trans none)
      rw [List.replicate_succ, Reader.run, step]
      dsimp only
      rw [later, offset_of_look?_eq_none none, source_skipBlanks]
      rfl

/-- Reading gives the tokens that follow, and then the end of the source over and over. -/
theorem run_read (reader : Reader) (extra : Nat) :
    reader.run (List.replicate ((Token.visible reader.cursor.tokens).length + extra) .read) =
      readings reader.cursor.source reader.cursor.tokens extra := by
  rw [readings]
  generalize left : Token.visible reader.cursor.tokens = tokens
  induction tokens generalizing reader with
  | nil =>
      have none : reader.cursor.look? = none := by rw [look?_eq_head?, left, List.head?_nil]
      rw [List.map_nil, List.length_nil, Nat.zero_add]
      exact run_read_at_end reader none extra
  | cons token tokens ih =>
      have found : reader.cursor.look? = some token := by
        rw [look?_eq_head?, left, List.head?_cons]
      have step : reader.step .read =
          (.read (.ok token), { reader with cursor := reader.cursor.pass token }) := by
        simp only [Reader.step, act, found]
      have tail : Token.visible (reader.cursor.pass token).tokens = tokens := by
        rw [visible_of_look?_eq_some found] at left
        exact (List.cons.inj left).2
      have later := ih { reader with cursor := reader.cursor.pass token } tail
      rw [List.length_cons, Nat.succ_add, List.replicate_succ, Reader.run, step]
      dsimp only
      rw [later, offset_pass found, source_pass]
      rfl

/-- A cursor that stands behind some of the tokens of its source has the others behind it. -/
theorem tokens_of_boundary {source : Text} {before behind : List Token}
    (parts : Token.list source = before ++ behind) (whole : cursor.source = source)
    (place : cursor.offset = Text.byteSize (before.flatMap Token.lexeme)) :
    cursor.tokens = behind := by
  obtain ⟨rest, spelled, rfl⟩ := Token.listFrom_of_append parts
  obtain ⟨passed, same⟩ := Text.append_inj_of_byteSize (whole.trans spelled) place
  rw [tokens, same, place, Nat.zero_add]

/-- The tokens of a source take it up from its start to its end, each of them is the longest match
at its place, so that no character behind it continues it, and no other list of tokens is like
that. A reader at the start of the source reads these tokens except for blanks, with the same
regions, and then reports the end of the source. From every place between two tokens the same
tokens follow. -/
theorem readings_of_list (source : Text) :
    (∀ tokens, tokens = Token.list source ↔
      Token.Tile 0 tokens source.byteSize ∧ ∀ token ∈ tokens, token.Scanned source) ∧
    (∀ extra, (Reader.start source).run
      (List.replicate ((Token.visible (Token.list source)).length + extra) .read) =
        readings source (Token.list source) extra) ∧
    ∀ before behind, Token.list source = before ++ behind → ∀ reader : Reader,
      reader.cursor.source = source →
      reader.cursor.offset = Text.byteSize (before.flatMap Token.lexeme) →
        reader.cursor.tokens = behind ∧
        ∀ extra, reader.run
          (List.replicate ((Token.visible behind).length + extra) .read) =
            readings source behind extra := by
  refine ⟨fun tokens => Token.eq_list_iff, fun extra => run_read (.start source) extra, ?_⟩
  intro before behind parts reader whole place
  have left := tokens_of_boundary parts whole place
  refine ⟨left, fun extra => ?_⟩
  have reads := run_read reader extra
  rwa [left, whole] at reads

/-- A reader that stands between the dot of two bytes and the number in `A·2 .5`. -/
theorem readings_of_list_behind_dot :
    Token.list "A·2 .5" = [⟨.name, "A", ⟨0, 1⟩⟩, ⟨.dot, "·", ⟨1, 3⟩⟩] ++
      [⟨.number, "2", ⟨3, 4⟩⟩, ⟨.blank, " ", ⟨4, 5⟩⟩, ⟨.number, ".5", ⟨5, 7⟩⟩] ∧
    (Reader.mk ⟨"A·", "2 .5"⟩ []).run [.read, .read, .read] =
      [(.read (.ok ⟨.number, "2", ⟨3, 4⟩⟩), 4), (.read (.ok ⟨.number, ".5", ⟨5, 7⟩⟩), 7),
        (.read (.error ⟨.unexpectedEnd, [⟨7, 7⟩]⟩), 7)] := by
  have parts : Token.list "A·2 .5" = [⟨.name, "A", ⟨0, 1⟩⟩, ⟨.dot, "·", ⟨1, 3⟩⟩] ++
      [⟨.number, "2", ⟨3, 4⟩⟩, ⟨.blank, " ", ⟨4, 5⟩⟩, ⟨.number, ".5", ⟨5, 7⟩⟩] := by
    decide +kernel
  have follow := (readings_of_list "A·2 .5").2.2 _ _ parts (Reader.mk ⟨"A·", "2 .5"⟩ []) rfl rfl
  exact ⟨parts, follow.2 1⟩

end Cursor

end MatrixFormula
