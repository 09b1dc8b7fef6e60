import MatrixFormula.Markup.Reading
import MatrixFormula.Proofs.Pending

/-!
# Outlines of displayed formulas

What a formula is displayed as depends on the words before a place only through the markup
that they leave to be written around what follows. The outline of a stack keeps that markup in
place of the nodes, and reading a formula on outlines gives the markup of what is read, or the
same fault. So two formulas with the same words are displayed alike, wherever the words stand.
-/

namespace MatrixFormula.Markup

/-- What a frame writes in front of its operand, and how tightly it binds. -/
structure Outline where
  rank : Nat
  opening : Text
deriving DecidableEq, Repr

/-- What a frame writes behind its operand: denominators and exponents stand in braces. -/
def Outline.closing (outline : Outline) : Text := if 5 ≤ outline.rank then ['\x7d'] else []

/-- An outline takes in an operand by writing around it. -/
instance : Pending Outline Text where
  rank := Outline.rank
  fill outline operand := outline.opening ++ operand ++ outline.closing

/-- An operator, as it is written around its left operand: the least rank of what it takes in,
the rank with which it waits for its right operand, and the markup on either side. -/
structure Joint where
  least : Nat
  rank : Nat
  before : Text
  after : Text
deriving DecidableEq, Repr

namespace Joint

/-- What waits for the right operand. -/
def outline (joint : Joint) (left : Text) : Outline :=
  ⟨joint.rank, joint.before ++ left ++ joint.after⟩

/-- The stack on which the operator waits for its right operand. -/
def await (joint : Joint) (operand : Text) (stack : List Outline) : List Outline :=
  Pending.await joint.outline joint.least operand stack

/-- The product of two factors. -/
def product : Joint := ⟨3, 3, [], Latex.productDot⟩

end Joint

/-- The operator that a word writes. An exponent takes in nothing but what stands next to it. -/
def Word.joint? : Word → Option Joint
  | .equals => some ⟨2, 1, [], " = "⟩
  | .plus => some ⟨2, 2, [], " + "⟩
  | .minus => some ⟨2, 2, [], " - "⟩
  | .times => some .product
  | .slash => some ⟨5, 5, "\\frac\x7b", "\x7d\x7b"⟩
  | .caret => some ⟨7, 6, "\x7b", "\x7d^\x7b"⟩
  | _ => none

/-- The markup of a word that is an operand. -/
def Word.operand? (style : NameStyle) (text : Text) : Word → Option Text
  | .number => some (Decimal.tidy text)
  | .name => some (writeName style text)
  | .block => some text
  | _ => none

/-- What was read so far: what waits for an operand, and the markup of the last operand. -/
structure Draft where
  stack : List Outline
  operand? : Option Text
deriving DecidableEq, Repr

namespace Draft

/-- Reads a word behind an operand. -/
def proceed (style : NameStyle) (stack : List Outline) (operand : Text) (word : Word)
    (text : Text) : Except Fault Draft :=
  match word.joint? with
  | some joint => .ok ⟨joint.await operand stack, none⟩
  | none =>
      match word.operand? style text with
      | some next => .ok ⟨Joint.product.await operand stack, some next⟩
      | none =>
          match word, Pending.settle 1 operand stack with
          | .openParen, _ => .ok ⟨⟨0, []⟩ :: Joint.product.await operand stack, none⟩
          | .closeParen, (inner, _ :: below) => .ok ⟨below, some (Latex.parenthesized inner)⟩
          | _, (_, []) => .error (.trailingText (text.take 1))
          | _, (_, _ :: _) => .error .unclosedParenthesis

/-- Reads a word where an operand must start. -/
def start (style : NameStyle) (stack : List Outline) (word : Word) (text : Text) :
    Except Fault Draft :=
  match word.operand? style text with
  | some operand => .ok ⟨stack, some operand⟩
  | none =>
      match word with
      | .openParen => .ok ⟨⟨0, []⟩ :: stack, none⟩
      | .minus =>
          if stack.head?.all fun outline => outline.rank < 5 then .ok ⟨⟨4, ['-']⟩ :: stack, none⟩
          else .error (.unexpectedToken text)
      | _ => .error (.unexpectedToken text)

/-- Reads a word. -/
def step (style : NameStyle) (draft : Draft) (lexeme : Word × Text) : Except Fault Draft :=
  match draft.operand? with
  | none => start style draft.stack lexeme.1 lexeme.2
  | some operand => proceed style draft.stack operand lexeme.1 lexeme.2

/-- The markup of what was read, when it is complete. -/
def finish (draft : Draft) : Except Fault Text :=
  match draft.operand? with
  | none => .error .unexpectedEnd
  | some operand =>
      match Pending.settle 1 operand draft.stack with
      | (whole, []) => .ok whole
      | (_, _ :: _) => .error .unclosedParenthesis

/-- Reads words to their end. -/
def run (style : NameStyle) (draft : Draft) (words : List (Word × Text)) : Except Fault Text :=
  words.foldlM (step style) draft >>= finish

end Draft

/-- The outline of what waits for an operand. -/
def Frame.outline (style : NameStyle) : Frame → Outline
  | .group _ => ⟨0, []⟩
  | .equation left => ⟨1, left.layout style ++ " = "⟩
  | .sum left => ⟨2, left.layout style ++ " + "⟩
  | .difference left => ⟨2, left.layout style ++ " - "⟩
  | .product left => Joint.product.outline (left.layout style)
  | .negation => ⟨4, ['-']⟩
  | .fraction numerator => ⟨5, "\\frac\x7b" ++ numerator.layout style ++ "\x7d\x7b"⟩
  | .power base => ⟨6, "\x7b" ++ base.layout style ++ "\x7d^\x7b"⟩

/-- A word without its place. -/
def Lexeme.content (lexeme : Lexeme) : Word × Text := (lexeme.word, lexeme.text)

variable {style : NameStyle} {stack : List Frame} {operand : Node}

/-! ## Outlines follow what they are outlines of -/

/-- An outline binds as tightly as its frame. -/
@[simp] theorem Frame.rank_outline (frame : Frame) :
    Pending.rank (frame.outline style) = Pending.rank frame := by
  cases frame <;> rfl

/-- An outline writes around its operand what the frame displays. -/
theorem Frame.layout_fill (frame : Frame) (operand : Node) :
    (Pending.fill frame operand).layout style =
      Pending.fill (frame.outline style) (operand.layout style) := by
  cases frame with
  | fraction numerator =>
      show ("\\frac" : Text) ++ Latex.braced _ ++ Latex.braced _ =
        ("\\frac" ++ ['\x7b']) ++ _ ++ ['\x7d', '\x7b'] ++ _ ++ ['\x7d']
      generalize ("\\frac" : Text) = command
      simp [Latex.braced]
  | power base =>
      show Latex.power _ _ = ['\x7b'] ++ _ ++ ['\x7d', '^', '\x7b'] ++ _ ++ ['\x7d']
      simp [Latex.power, Latex.braced]
  | _ => exact (List.append_nil _).symm

/-- Operands settle on outlines as they do on frames. -/
theorem settle_outline (least : Nat) :
    Pending.settle least (operand.layout style) (stack.map (Frame.outline style)) =
      ((Pending.settle least operand stack).1.layout style,
        (Pending.settle least operand stack).2.map (Frame.outline style)) :=
  Pending.settle_map Frame.rank_outline Frame.layout_fill least operand stack

/-- Operators wait on outlines as they do on frames. -/
theorem await_outline {operator : Node → Frame} {least rank : Nat} {before after : Text}
    (writes : ∀ left, (operator left).outline style =
      ⟨rank, before ++ left.layout style ++ after⟩) :
    (Pending.await operator least operand stack).map (Frame.outline style) =
      Joint.await ⟨least, rank, before, after⟩ (operand.layout style)
        (stack.map (Frame.outline style)) :=
  Pending.await_map Frame.rank_outline Frame.layout_fill writes least operand stack

/-- An outline admits a minus sign where its frame does. -/
theorem all_admitsMinus (stack : List Frame) :
    ((stack.map (Frame.outline style)).head?.all fun outline => outline.rank < 5) =
      stack.head?.all Frame.admitsMinus := by
  cases stack with
  | nil => rfl
  | cons frame stack => cases frame <;> rfl

/-- A draft is run word by word. -/
theorem Draft.run_cons (draft : Draft) (lexeme : Word × Text) (words : List (Word × Text)) :
    draft.run style (lexeme :: words) =
      (draft.step style lexeme >>= fun next => next.run style words) := by
  simp [run]

/-- The outcome of reading a displayed formula, without the places of its faults. -/
def outcome (style : NameStyle) (result : Except Diagnostic Node) : Except Fault Text :=
  (result.map (Node.layout style)).mapError Diagnostic.fault

/-- What stops a formula depends on whether a frame is left open. -/
theorem outcome_stopAt (diagnostic : Diagnostic) :
    outcome style (.error (stopAt operand stack diagnostic)) =
      match Pending.settle 1 (operand.layout style) (stack.map (Frame.outline style)) with
      | (_, []) => .error diagnostic.fault
      | (_, _ :: _) => .error .unclosedParenthesis := by
  rw [settle_outline, stopAt]
  cases settled : Pending.settle 1 operand stack with
  | mk whole below =>
      cases below with
      | nil => rfl
      | cons frame below =>
          obtain ⟨span, rfl⟩ := group_of_settle settled
          rfl

/-- An operator of a formula is that of its outline. -/
theorem run_joint {operator : Node → Frame} {least rank : Nat} {before after text : Text}
    {word : Word} {words : List (Word × Text)}
    (sign : word.joint? = some ⟨least, rank, before, after⟩)
    (writes : ∀ left, (operator left).outline style =
      ⟨rank, before ++ left.layout style ++ after⟩) :
    Draft.run style
        ⟨(Pending.await operator least operand stack).map (Frame.outline style), none⟩ words =
      (Draft.step style ⟨stack.map (Frame.outline style), some (operand.layout style)⟩
        (word, text) >>= fun next => next.run style words) := by
  rw [await_outline writes]
  simp only [Draft.step, Draft.proceed, sign]
  rfl

/-- A factor behind an operand waits as that of a product. -/
theorem awaitFactor_outline : (awaitFactor operand stack).map (Frame.outline style) =
    Joint.product.await (operand.layout style) (stack.map (Frame.outline style)) :=
  await_outline fun _ => rfl

/-- A formula that ends is complete on outlines when it is complete. -/
theorem outcome_read_nil (stop : Nat) :
    outcome style (read stop stack (some operand) []) =
      Draft.run style ⟨stack.map (Frame.outline style), some (operand.layout style)⟩ [] := by
  have outlined := @settle_outline style stack operand 1
  rw [read]
  cases settled : Pending.settle 1 operand stack with
  | mk whole below =>
      rw [settled] at outlined
      cases below with
      | nil =>
          show Except.ok _ = _
          simp [Draft.run, Draft.finish, outlined]
      | cons frame below =>
          show outcome style (.error (stopAt ..)) = _
          simp [outcome_stopAt, outlined, Draft.run, Draft.finish]

/-- A word that cannot continue a formula leads to the same fault on outlines. -/
theorem outcome_read_stray (stop : Nat) (text : Text) (span : Span) (words : List Lexeme) :
    outcome style (read stop stack (some operand) (⟨.stray, text, span⟩ :: words)) =
      Draft.run style ⟨stack.map (Frame.outline style), some (operand.layout style)⟩
        ((⟨.stray, text, span⟩ :: words).map Lexeme.content) := by
  rw [read, List.map_cons, Draft.run_cons]
  show outcome style (.error (stopAt ..)) = _
  rw [outcome_stopAt]
  simp only [Draft.step, Draft.proceed, Lexeme.content, Word.joint?, Word.operand?]
  cases Pending.settle 1 (operand.layout style) (stack.map (Frame.outline style)) with
  | mk whole below => cases below <;> rfl

/-- A closing parenthesis closes the outline of the parenthesis that it closes. -/
theorem outcome_read_closeParen (stop : Nat) (text : Text) (span : Span) {words : List Lexeme}
    (later : ∀ stack operand?, outcome style (read stop stack operand? words) =
      Draft.run style ⟨stack.map (Frame.outline style), operand?.map (Node.layout style)⟩
        (words.map Lexeme.content)) :
    outcome style (read stop stack (some operand) (⟨.closeParen, text, span⟩ :: words)) =
      Draft.run style ⟨stack.map (Frame.outline style), some (operand.layout style)⟩
        ((⟨.closeParen, text, span⟩ :: words).map Lexeme.content) := by
  have outlined := @settle_outline style stack operand 1
  rw [read, List.map_cons, Draft.run_cons]
  cases settled : Pending.settle 1 operand stack with
  | mk inner below =>
      rw [settled] at outlined
      cases below with
      | nil =>
          show outcome style (.error (stopAt ..)) = _
          rw [outcome_stopAt]
          simp only [outlined, List.map_nil, Draft.step, Draft.proceed, Lexeme.content, Word.joint?,
            Word.operand?]
          rfl
      | cons frame below =>
          obtain ⟨_, rfl⟩ := group_of_settle settled
          refine (later _ _).trans ?_
          simp only [outlined, List.map_cons, Draft.step, Draft.proceed, Lexeme.content,
            Word.joint?, Word.operand?]
          rfl

/-- Reading words on outlines gives the markup of what is read, or the same fault. -/
theorem outcome_read (stop : Nat) (stack : List Frame) (operand? : Option Node)
    (words : List Lexeme) :
    outcome style (read stop stack operand? words) =
      Draft.run style ⟨stack.map (Frame.outline style), operand?.map (Node.layout style)⟩
        (words.map Lexeme.content) := by
  induction words generalizing stack operand? with
  | nil =>
      cases operand? with
      | none => rfl
      | some operand => exact outcome_read_nil stop
  | cons lexeme rest ih =>
      obtain ⟨word, text, span⟩ := lexeme
      cases operand? with
      | none =>
          rw [List.map_cons, Draft.run_cons]
          cases word with
          | number | name | block | openParen =>
              rw [read]
              exact ih _ _
          | minus =>
              rw [read]
              simp only [Draft.step, Draft.start, Option.map_none, Word.operand?, Lexeme.content,
                all_admitsMinus]
              split
              · exact ih _ _
              · rfl
          | _ => rfl
      | some operand =>
          cases word with
          | equals | plus | minus | times | slash =>
              rw [read, List.map_cons, Draft.run_cons]
              exact (ih _ _).trans (run_joint rfl fun _ => rfl)
          | caret =>
              rw [read, List.map_cons, Draft.run_cons]
              have waits := @run_joint style stack operand .power 7 6 _ _ text .caret
                (rest.map Lexeme.content) rfl fun _ => rfl
              rw [Pending.await, settle_power] at waits
              exact (ih _ _).trans waits
          | number | name | block | openParen =>
              rw [read, List.map_cons, Draft.run_cons]
              refine (ih _ _).trans ?_
              simp only [awaitFactor_outline, List.map_cons]
              rfl
          | closeParen => exact outcome_read_closeParen stop text span ih
          | stray => exact outcome_read_stray stop text span rest

/-- A formula is displayed as its words are, wherever they stand. -/
theorem render_eq_run (style : NameStyle) (source : Text) :
    (render style source).mapError Diagnostic.fault =
      Draft.run style ⟨[], none⟩ ((lexemes 0 source).map Lexeme.content) :=
  outcome_read (Text.byteSize source) [] none (lexemes 0 source)

end MatrixFormula.Markup
