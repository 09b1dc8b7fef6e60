import MatrixFormula.Proofs.Formula.Dependence
import MatrixFormula.Proofs.Markup.Grammar
import MatrixFormula.Proofs.Markup.Regions
import MatrixFormula.Proofs.Markup.StandIn

/-!
# Variables that a formula does not mention

How a formula is read to be displayed does not depend on a store, and a style is asked only for
names that stand in the text: for a name, for the letters that it starts with, and for its
characters. So whatever is saved under a name that does not stand in a formula changes neither how
the formula is displayed nor its value. A report changes at most in the names that it suggests.
-/

namespace MatrixFormula.Markup

variable {source : Text} {first second : NameStyle}

/-- What a style is asked for when a name is displayed is a part of the name. -/
theorem infix_of_mem_consulted {asked name : Text} (member : asked ∈ consulted name) :
    asked <:+: name := by
  rcases List.mem_cons.mp member with rfl | member
  · exact List.infix_rfl
  · rcases List.mem_cons.mp member with rfl | member
    · exact (List.takeWhile_prefix _).isInfix
    · obtain ⟨char, inside, rfl⟩ := List.mem_map.mp member
      obtain ⟨before, behind, rfl⟩ := List.append_of_mem inside
      exact ⟨before, behind, by simp⟩

/-- A formula is laid out alike when its names are written alike. -/
theorem Derives.layout_congr {rank : Nat} {words : List Lexeme} {node : Node}
    (derives : Derives rank words node)
    (same : ∀ lexeme ∈ words, writeName first lexeme.text = writeName second lexeme.text) :
    node.layout first = node.layout second := by
  induction derives with
  | number | block => rfl
  | name => exact same _ (List.mem_singleton_self _)
  | group _ _ _ ih | negation _ _ ih =>
      simp only [Node.layout]
      rw [ih fun lexeme member => same lexeme (by simp [member])]
  | @binary _ operator _ _ _ _ _ _ _ ihLeft ihRight =>
      have left := ihLeft fun lexeme member => same lexeme (by simp [member])
      have right := ihRight fun lexeme member => same lexeme (by simp [member])
      cases operator <;> simp only [Operator.node, Node.layout, left, right]
  | juxtaposed _ _ ihLeft ihRight =>
      have left := ihLeft fun lexeme member => same lexeme (by simp [member])
      have right := ihRight fun lexeme member => same lexeme (by simp [member])
      simp only [Node.layout, left, right]
  | loosen _ ih => exact ih same

/-- Styles that answer alike for all parts of a formula display it alike. -/
theorem render_congr (same : ∀ name, name <:+: source → first name = second name) :
    render first source = render second source := by
  unfold render
  cases parsed : parse source with
  | error diagnostic => rfl
  | ok node =>
      have derives : Derives 1 (lexemes 0 source) node := read_eq_ok_iff.mp parsed
      refine congrArg Except.ok (derives.layout_congr fun lexeme member => ?_)
      have part := (placed_lexemes [] source lexeme member).quotes.isInfix
      exact writeName_congr fun asked consults =>
        same asked ((infix_of_mem_consulted consults).trans part)

/-- Stores that agree on the parts of a formula show it in the same colours. -/
theorem renderColored_agree {store other : Store} (agree : Store.AgreeOn source store other)
    (palette : Palette) : renderColored store palette source = renderColored other palette source := by
  refine render_congr fun name inside => ?_
  funext display
  rw [NameStyle.colored, NameStyle.colored, agree name inside]

/-- A variable whose name does not stand in a formula has no part in its value and in how it is
displayed. At most, a report suggests the name. -/
theorem unmentioned_ignored (ν : Type) [Numeral ν] (store : Store) (palette : Palette)
    (source name : Text) (tensor : Tensor) (absent : ¬ name <:+: source) :
    (Formula.evaluate ν (store.insert name tensor) source).mapError Diagnostic.unadvised =
        (Formula.evaluate ν store source).mapError Diagnostic.unadvised ∧
      renderColored (store.insert name tensor) palette source =
        renderColored store palette source :=
  have agree := Store.agreeOn_insert absent store tensor
  ⟨Formula.evaluate_agree agree, renderColored_agree agree palette⟩

/-- A name that is not defined is spelled like a new variable, which is suggested. Nothing else
changes. -/
theorem unmentioned_ignored_suggested :
    ¬ "bc".toList <:+: "ab - c".toList ∧
      Formula.evaluate ℚ Formula.letters "ab - c" =
        .error ((Fault.undefinedVariable "c" ["a", "b"]).located ⟨5, 6⟩) ∧
      Formula.evaluate ℚ (Formula.letters.insert "bc" (.filled (.generate 2 1 fun _ _ => ['1'])))
          "ab - c" =
        .error ((Fault.undefinedVariable "c" ["a", "b", "bc"]).located ⟨5, 6⟩) ∧
      (Formula.evaluate ℚ (Formula.letters.insert "bc" (.filled (.generate 2 1 fun _ _ => ['1'])))
            "ab - c").mapError Diagnostic.unadvised =
          (Formula.evaluate ℚ Formula.letters "ab - c").mapError Diagnostic.unadvised ∧
      renderColored (Formula.letters.insert "bc" (.filled (.generate 2 1 fun _ _ => ['1']))) {}
          "ab - c" =
        renderColored Formula.letters {} "ab - c" := by
  have absent : ¬ "bc".toList <:+: "ab - c".toList := by decide
  exact ⟨absent, by decide +kernel, by decide +kernel,
    unmentioned_ignored ℚ Formula.letters {} "ab - c" "bc"
      (.filled (.generate 2 1 fun _ _ => ['1'])) absent⟩

end MatrixFormula.Markup
