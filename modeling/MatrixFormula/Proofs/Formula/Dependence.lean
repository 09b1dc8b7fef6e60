import MatrixFormula.Proofs.Formula.Regions
import MatrixFormula.Proofs.Formula.Replacement

/-!
# What the value of a formula depends on

A formula asks its store only for names that stand in its text: for whole runs of letters, for the
halves of a run that is split, and for the names that its words are. So stores that agree on all
parts of a text lead to the same words, the same expression, and the same value or the same report.
Only the names that a report suggests are looked for among all names of a store.
-/

namespace MatrixFormula

/-- A diagnostic without the names that it suggests. -/
def Diagnostic.unadvised (diagnostic : Diagnostic) : Diagnostic :=
  { diagnostic with fault := diagnostic.fault.unadvised }

/-- A text that a region quotes is a part of the source. -/
theorem Span.Quotes.isInfix {span : Span} {source text : Text} (quotes : span.Quotes source text) :
    text <:+: source := by
  obtain ⟨before, behind, rfl, -⟩ := quotes
  exact List.infix_append before text behind

/-- The stores have the same tensors under all names that are parts of the source. -/
def Store.AgreeOn (source : Text) (first second : Store) : Prop :=
  ∀ name, name <:+: source → first.get? name = second.get? name

/-- A tensor under a name that is no part of the source makes no difference. -/
theorem Store.agreeOn_insert {source name : Text} (absent : ¬ name <:+: source) (store : Store)
    (tensor : Tensor) : Store.AgreeOn source (store.insert name tensor) store := by
  intro other inside
  have apart : other ≠ name := fun same => absent (same ▸ inside)
  rw [get?_insert, if_neg apart]

theorem Store.AgreeOn.contains {source : Text} {first second : Store}
    (agree : AgreeOn source first second) {name : Text} (inside : name <:+: source) :
    first.contains name = second.contains name := by
  rw [Store.contains, Store.contains, agree name inside]

namespace Formula

variable {ν : Type} [Numeral ν] {source : Text} {first second : Store} {words : List Lexeme}

theorem leadingName_agree (agree : Store.AgreeOn source first second) {run : Text}
    (inside : run <:+: source) : leadingName first run = leadingName second run :=
  leadingName_congr fun _ part => agree.contains (part.trans inside)

/-- The names among the words of a text are parts of it. -/
theorem get?_of_mem_lexemes (agree : Store.AgreeOn source first second) {lexeme : Lexeme}
    (member : lexeme ∈ lexemes second 0 source) :
    first.get? lexeme.text = second.get? lexeme.text :=
  agree lexeme.text ((laid_lexemes second [] source).placed member).quotes.isInfix

/-- A name has the same value wherever it stands for the same tensor. -/
theorem nameValue_agree {name : Text} (same : first.get? name = second.get? name) (span : Span) :
    (nameValue first name span).mapError Diagnostic.unadvised =
      (nameValue second name span).mapError Diagnostic.unadvised := by
  unfold nameValue
  rw [same]
  cases second.get? name with
  | none => cases Name.constant? name <;> rfl
  | some tensor => cases tensor <;> rfl

/-- An expression has the same value when the names among its words stand for the same tensors. -/
theorem Derives.value_agree {rank : Nat} {expr : Expr} (derives : Derives rank words expr)
    (same : ∀ lexeme ∈ words, first.get? lexeme.text = second.get? lexeme.text) :
    (expr.value ν first).mapError Diagnostic.unadvised =
      (expr.value ν second).mapError Diagnostic.unadvised := by
  induction derives with
  | number => rfl
  | name => exact nameValue_agree (same _ (List.mem_singleton_self _)) _
  | group _ _ _ ih => exact ih fun lexeme member => same lexeme (by simp [member])
  | transpose _ _ ih | negation _ _ ih =>
      simp only [Expr.value, map_mapError]
      rw [ih fun lexeme member => same lexeme (by simp [member])]
  | binary _ _ _ ihFirst ihSecond =>
      have left := ihFirst fun lexeme member => same lexeme (by simp [member])
      have right := ihSecond fun lexeme member => same lexeme (by simp [member])
      simp only [Expr.value, mapError_bind, left, right]
  | juxtaposed _ _ ihFirst ihSecond =>
      have left := ihFirst fun lexeme member => same lexeme (by simp [member])
      have right := ihSecond fun lexeme member => same lexeme (by simp [member])
      simp only [Expr.value, mapError_bind, left, right]
  | loosen _ ih => exact ih same

/-- Complete operands have the same say. -/
theorem mapM_value_agree (same : ∀ lexeme ∈ words, first.get? lexeme.text = second.get? lexeme.text)
    {exprs : List Expr} (derivable : Derivable words exprs) :
    (exprs.mapM (Expr.value ν first)).mapError Diagnostic.unadvised =
      (exprs.mapM (Expr.value ν second)).mapError Diagnostic.unadvised := by
  induction exprs with
  | nil => rfl
  | cons expr exprs ih =>
      obtain ⟨⟨block, inside, derives⟩, later⟩ := List.forall_mem_cons.mp derivable
      have here := derives.value_agree (ν := ν) fun lexeme member => same lexeme (inside.subset member)
      simp only [List.mapM_cons, mapError_bind, here, ih later]

/-- Stores that agree on the parts of a formula give it the same value or the same report, except
for the names that the report suggests. -/
theorem evaluate_agree (agree : Store.AgreeOn source first second) :
    (evaluate ν first source).mapError Diagnostic.unadvised =
      (evaluate ν second source).mapError Diagnostic.unadvised := by
  have words : lexemes first 0 source = lexemes second 0 source :=
    lexemes_congr (fun run inside => leadingName_agree agree inside) 0
  have same : ∀ lexeme ∈ lexemes second 0 source,
      first.get? lexeme.text = second.get? lexeme.text :=
    fun lexeme member => get?_of_mem_lexemes agree member
  have accounts := (@accounts_read source.byteSize (lexemes second 0 source)).1 .nil (by decide)
  rw [List.nil_append] at accounts
  simp only [evaluate, parse, words]
  cases result : read source.byteSize [] none (lexemes second 0 source) with
  | ok expr =>
      rw [result] at accounts
      exact Derives.value_agree accounts same
  | error stop =>
      rw [result] at accounts
      simp only [mapError_bind, mapError_discard, mapM_value_agree same accounts.1]

end Formula

end MatrixFormula
