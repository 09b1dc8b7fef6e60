import MatrixFormula.Proofs.Decimal.Rational
import MatrixFormula.Proofs.Formula.Simulation
import MatrixFormula.Proofs.Markup.Simulation

/-!
# Descents end

Reading a formula by recursive descent ends, whether it is evaluated or displayed. The cursor of the
evaluator moves back into a name that is two variables, and that of the other one jumps over an
environment, but neither comes back to a place where the same routine stood before.
-/

namespace MatrixFormula.Descent

/-- For every store, style and source, the routines that evaluate a formula and those that display
it come to its value and its markup, or to its fault. Every routine for sums, products, factors,
powers or atoms that returns has moved the cursor forward, and so has every pass of a loop after
which it goes around again, over blocks and groups too. There are no more calls and passes together
than eight for each character, and five. More fuel than that is never used up. -/
theorem descents_end (ν : Type) [Numeral ν] (store : Store) (style : Markup.NameStyle)
    {source : Text} {fuel : Nat} (enough : 8 * source.length + 5 < fuel) :
    (Formula.descent ν store fuel).EndsWith source (Formula.evaluate ν store source) ∧
      (Markup.descent style fuel).EndsWith source (Markup.render style source) :=
  ⟨Formula.descent_endsWith ν store enough, Markup.descent_endsWith style enough⟩

/-- Two variables of one letter each. -/
def letters : Store :=
  (Store.empty.insert ['a'] (.filled (.scalar ['2']))).insert ['b'] (.filled (.scalar ['3']))

/-- A name that is evaluated as two variables, and displayed in one piece. -/
theorem descents_end_split :
    8 * ("ab^T" : Text).length + 5 < 38 ∧
      (Formula.descent ℚ letters 38).EndsWith "ab^T" (.ok (.scalar ['6'])) ∧
      (Markup.descent .plain 38).EndsWith "ab^T" (.ok "\x7ba \\cdot b\x7d^\x7bT\x7d".toList) := by
  have enough : 8 * ("ab^T" : Text).length + 5 < 38 := by decide
  have value : Formula.evaluate ℚ letters "ab^T" = .ok (.scalar ['6']) := by decide +kernel
  have markup : Markup.render .plain "ab^T" = .ok "\x7ba \\cdot b\x7d^\x7bT\x7d".toList := by
    decide +kernel
  obtain ⟨evaluated, displayed⟩ := descents_end ℚ letters .plain enough
  exact ⟨enough, value ▸ evaluated, markup ▸ displayed⟩

/-- The first atom ends inside the name, at the place where the second one starts. -/
example :
    ((Formula.descent ℚ letters 22).whole (.start "ab")).2.visits.filter
        (fun visit => visit.activity = .call (.level .atom)) =
      [⟨.call (.level .atom), 1, some 2⟩, ⟨.call (.level .atom), 0, some 1⟩] := by
  decide +kernel

end MatrixFormula.Descent
