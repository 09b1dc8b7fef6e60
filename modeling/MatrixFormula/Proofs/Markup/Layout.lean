import MatrixFormula.Proofs.Markup.Grammar
import MatrixFormula.Proofs.Markup.Spelling

/-!
# Layout follows the grammar

A text spells a displayed formula when it spells words that the grammar derives the formula from.
Every spelling of a formula is shown as the layout of the formula, whatever way names are
written, and a text without a backslash that spells no formula is not shown at all.
-/

namespace MatrixFormula.Markup

/-- The text spells the formula. -/
def Spells (source : Text) (node : Node) : Prop :=
  ∃ words, Spelled 0 source words ∧ Derives 1 words node

theorem Word.ne_stray_of_operator? {word : Word} {operator : Operator}
    (sign : word.operator? = some operator) : word ≠ .stray := by
  rintro rfl
  cases sign

/-- All words that a formula is derived from have a meaning. -/
theorem Derives.ne_stray {rank : Nat} {words : List Lexeme} {node : Node}
    (derives : Derives rank words node) : ∀ lexeme ∈ words, lexeme.word ≠ .stray := by
  induction derives with
  | number word | name word | block word => simp [word]
  | group opens _ closes ih =>
      simp only [List.cons_append, List.mem_cons, List.mem_append, List.not_mem_nil, or_false]
      rintro lexeme (rfl | inside | rfl)
      · simp [opens]
      · exact ih lexeme inside
      · simp [closes]
  | negation sign _ ih => exact List.forall_mem_cons.mpr ⟨by simp [sign], ih⟩
  | binary _ sign _ first second =>
      simp only [List.mem_append, List.mem_cons]
      rintro lexeme (inside | rfl | inside)
      · exact first lexeme inside
      · exact Word.ne_stray_of_operator? sign
      · exact second lexeme inside
  | juxtaposed _ _ first second => exact List.forall_mem_append.mpr ⟨first, second⟩
  | loosen _ ih => exact ih

/-- A spelling of a formula is read as the formula. -/
theorem Spells.parse_eq {source : Text} {node : Node} (spells : Spells source node) :
    parse source = .ok node := by
  obtain ⟨words, spelled, derives⟩ := spells
  rw [parse, spelled.lexemes_eq, derives.read_eq_ok]

/-- A text without a backslash that is read as a formula spells it. -/
theorem spells_of_parse {source : Text} {node : Node} (plain : '\\' ∉ source)
    (read : parse source = .ok node) : Spells source node := by
  have derives : Derives 1 (lexemes 0 source) node := read_eq_ok_iff.mp read
  exact ⟨_, spelled_lexemes plain 0 derives.ne_stray, derives⟩

/-- Every spelling of a formula is shown as its layout, and a text without a backslash that
spells no formula is refused. -/
theorem render_follows_grammar (style : NameStyle) :
    (∀ source node, Spells source node → render style source = .ok (node.layout style)) ∧
    (∀ source, '\\' ∉ source → (∀ node, ¬ Spells source node) →
      ∃ diagnostic, render style source = .error diagnostic) := by
  constructor
  · intro source node spells
    rw [render, spells.parse_eq]
    rfl
  · intro source plain spellsNone
    cases read : parse source with
    | ok node => exact absurd (spells_of_parse plain read) (spellsNone node)
    | error diagnostic => exact ⟨diagnostic, by rw [render, read]; rfl⟩

/-- A minus sign in front of a fraction belongs to the whole fraction, exponents in a row group to
the right, and a denominator cannot have a sign. -/
theorem render_follows_grammar_fraction :
    render .plain "-2/x ^y^3" =
        .ok "-\\frac\x7b2\x7d\x7b\x7bx\x7d^\x7b\x7by\x7d^\x7b3\x7d\x7d\x7d".toList ∧
      ∃ diagnostic, render .plain "x/-2" = .error diagnostic := by
  have shown : parse "-2/x ^y^3" = .ok (.negation (.fraction (.number ['2'])
      (.power (.name ['x']) (.power (.name ['y']) (.number ['3']))))) := by decide +kernel
  have refused (node : Node) : ¬ Spells "x/-2" node := by
    intro spells
    have read : (parse "x/-2").toOption = some node := by rw [spells.parse_eq]; rfl
    have none : (parse "x/-2").toOption = none := by decide +kernel
    rw [none] at read
    cases read
  refine ⟨?_, (render_follows_grammar .plain).2 "x/-2" (by decide) refused⟩
  rw [(render_follows_grammar .plain).1 _ _ (spells_of_parse (by decide) shown)]
  decide +kernel

end MatrixFormula.Markup
