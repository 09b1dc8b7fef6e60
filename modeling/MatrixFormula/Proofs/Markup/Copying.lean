import MatrixFormula.Proofs.Markup.Grammar
import MatrixFormula.Proofs.Markup.Spelling

/-!
# Blocks that are copied

A block of markup is an operand like any other, and is displayed as it is typed. So a text that is
one block is displayed as itself, and in front of a plus sign it is displayed as itself, the sign,
and whatever is displayed for the formula behind the sign.
-/

namespace MatrixFormula.Markup

variable {style : NameStyle} {text source markup : Text}

/-! ## Displayed formulas are derived -/

/-- A formula that the grammar derives is displayed as its layout. -/
theorem Derives.render {node : Node} (derives : Derives 1 (lexemes 0 source) node) :
    render style source = .ok (node.layout style) := by
  rw [Markup.render, parse, derives.read_eq_ok]
  rfl

/-- A formula that is displayed is derived wherever it stands. -/
theorem exists_derives_of_render (shown : render style source = .ok markup) (offset : Nat) :
    ∃ node, Derives 1 (lexemes offset source) node ∧ node.layout style = markup := by
  have here := render_eq_run style source
  have moved : outcome style (read 0 [] none (lexemes offset source)) = .ok markup := by
    rw [outcome_read, content_lexemes source offset 0, List.map_nil, Option.map_none, ← here, shown]
    rfl
  cases done : read 0 [] none (lexemes offset source) with
  | error diagnostic =>
      rw [done] at moved
      cases moved
  | ok node =>
      rw [done] at moved
      exact ⟨node, read_eq_ok_iff.mp done, Except.ok.inj moved⟩

/-- An operand and a plus sign in front of a formula make it the first summand. Sums associate to
the left, so the operand goes down to the first summand of the formula. -/
theorem Derives.behind_plus {rank : Nat} {words : List Lexeme} {node first : Node}
    {operand plus : Lexeme} (derives : Derives rank words node) (loose : rank ≤ 2)
    (atom : Derives 7 [operand] first) (sign : plus.word = .plus) :
    ∃ whole, Derives rank (operand :: plus :: words) whole ∧
      whole.layout style = first.layout style ++ " + " ++ node.layout style := by
  induction derives with
  | number | name | block | group | negation | juxtaposed => omega
  | @binary lexeme operator before behind left right front writes back ih _ =>
      have outer : operator.left ≤ 2 := by
        cases operator <;> first | exact Nat.le_refl 2 | exact absurd loose (by decide)
      obtain ⟨whole, derives, layout⟩ := ih outer
      refine ⟨operator.node whole right, .binary derives writes back, ?_⟩
      cases operator with
      | equation | sum | difference => simp [Operator.node, Node.layout, layout]
      | product | fraction | power => exact absurd loose (by decide)
  | @loosen rank words node tight ih =>
      by_cases inner : rank + 1 ≤ 2
      · obtain ⟨whole, derives, layout⟩ := ih inner
        exact ⟨whole, derives.loosen, layout⟩
      · obtain rfl : rank = 2 := by omega
        have operator : plus.word.operator? = some .sum := by rw [sign]; rfl
        exact ⟨.sum first node, .binary (atom.mono (by decide)) operator tight, rfl⟩

/-! ## Blocks that stand alone -/

/-- No subscript starts with a blank. -/
theorem not_prefix_of_blank {rest : Text} (blank : ∀ char ∈ rest.head?, Text.isBlank char) :
    ¬ ['_', '\x7b'] <+: rest := by
  rintro ⟨more, rfl⟩
  exact absurd (blank '_' rfl) (by decide)

/-- A text that is one block where it ends, and in front of a blank. -/
def StandsAlone (text : Text) : Prop :=
  ∃ run, text = '\\' :: run ∧ ∀ rest : Text, (∀ char ∈ rest.head?, Text.isBlank char) →
    Block.cut (run ++ rest) = (run, rest)

theorem StandsAlone.lexemes_eq (alone : StandsAlone text) (rest : Text)
    (blank : ∀ char ∈ rest.head?, Text.isBlank char) :
    lexemes 0 (text ++ rest) =
      ⟨.block, text, .ofText 0 text⟩ :: lexemes (0 + text.byteSize) rest := by
  obtain ⟨run, rfl, cut⟩ := alone
  have first : cutWord '\\' (run ++ rest) = (run, rest) := cut rest blank
  rw [List.cons_append, lexemes_cons, first]
  rfl

/-- A text that is displayed as it is, alone and as the first summand of any formula. -/
structure Copied (style : NameStyle) (text : Text) : Prop where
  alone : render style text = .ok text
  summand : ∀ formula markup, render style formula = .ok markup →
    render style (text ++ " + " ++ formula) = .ok (text ++ " + " ++ markup)

theorem StandsAlone.copied (alone : StandsAlone text) (style : NameStyle) : Copied style text where
  alone := by
    have words := alone.lexemes_eq [] (by simp)
    rw [List.append_nil, lexemes] at words
    have derives : Derives 1 (lexemes 0 text) (.block text) :=
      words ▸ (Derives.block rfl).mono (by decide)
    exact derives.render
  summand formula markup shown := by
    have blank (offset : Nat) (rest : Text) : lexemes offset (' ' :: rest) =
        lexemes (offset + ' '.utf8Size) rest := lexer.cons_blank rfl
    have sign (offset : Nat) (rest : Text) : lexemes offset ('+' :: rest) =
        ⟨.plus, ['+'], .ofText offset ['+']⟩ :: lexemes (offset + '+'.utf8Size) rest :=
      lexemes_single (by rfl)
    have words := alone.lexemes_eq (' ' :: '+' :: ' ' :: formula) (by simp; rfl)
    rw [blank, sign, blank] at words
    obtain ⟨node, derives, rfl⟩ := exists_derives_of_render shown
      (0 + text.byteSize + ' '.utf8Size + '+'.utf8Size + ' '.utf8Size)
    obtain ⟨whole, together, layout⟩ :
        ∃ whole, Derives 1 (lexemes 0 (text ++ ' ' :: '+' :: ' ' :: formula)) whole ∧
          whole.layout style = text ++ " + " ++ node.layout style := by
      rw [words]
      exact derives.behind_plus (by decide) (.block rfl) rfl
    have spelled : text ++ " + " ++ formula = text ++ ' ' :: '+' :: ' ' :: formula :=
      List.append_assoc ..
    rw [spelled, together.render, layout]

end MatrixFormula.Markup
