import MatrixFormula.Proofs.Store
import MatrixFormula.Session.Basic

/-!
# The order of saves

What a session answers depends on the tensors that were saved last under each name, and not on the
order in which that came about. Where names are enumerated, they are put in increasing order, so it
does not matter either in which order a table keeps them.
-/

namespace MatrixFormula.Session

/-- The stores answer everything that a session asks them in the same way. -/
structure AnswersAlike (first second : Store) : Prop where
  value : ∀ (ν : Type) [Numeral ν] (formula : Text),
    Formula.evaluate ν first formula = Formula.evaluate ν second formula
  colored : ∀ (palette : Markup.Palette) (formula : Text),
    Markup.renderColored first palette formula = Markup.renderColored second palette formula
  expanded : ∀ (ν : Type) [Numeral ν] (formula : Text),
    Markup.renderExpanded ν first formula = Markup.renderExpanded ν second formula
  split : ∀ run, first.split? run = second.split? run
  similar : ∀ name, first.similar name = second.similar name
  numeric : ∀ (ν : Type) [Numeral ν] (name : Text),
    (first.get? name).bind (Tensor.numeric? ν) = (second.get? name).bind (Tensor.numeric? ν)
  listed : listVars first = listVars second

theorem AnswersAlike.refl (store : Store) : AnswersAlike store store :=
  ⟨fun _ _ _ => rfl, fun _ _ => rfl, fun _ _ _ => rfl, fun _ => rfl, fun _ => rfl, fun _ _ _ => rfl,
    rfl⟩

/-- The store enumerates a table in increasing order: the names within an edit of a name, and the
lines of its list. -/
structure Enumerates (store : Store) (table : List (Text × Tensor)) : Prop where
  similar : ∀ name, (store.similar name).Pairwise (· < ·) ∧
    (store.similar name).Perm ((table.map Prod.fst).filter (Store.withinOneEdit name))
  listed : ∃ entries : List (Text × Tensor), entries.Perm table ∧
    entries.Pairwise (fun first second => first.1 < second.1) ∧
    listVars store =
      if entries = [] then ("no variables defined" : Text)
      else Text.joined ['\n'] (entries.map fun (name, tensor) => describe name tensor)

/-- A store enumerates any table of its variables. -/
theorem enumerates_of_lists {store : Store} {table : List (Text × Tensor)}
    (lists : Store.Lists store.get? table) : Enumerates store table := by
  have perm := (Store.lists_entries store).perm lists
  exact ⟨fun name => ⟨store.pairwise_similar name, (perm.map Prod.fst).filter _⟩,
    store.entries, perm, store.ascending, rfl⟩

/-- Saves that leave the same last tensor under each name lead to the same answers. -/
theorem saves_order_ignored (first second : List (Text × Tensor))
    (same : ∀ name, Store.lastSaved first name = Store.lastSaved second name) :
    AnswersAlike (.ofSaves first) (.ofSaves second) ∧
      ∀ table, Store.Lists (Store.lastSaved first) table →
        Enumerates (.ofSaves first) table ∧ Enumerates (.ofSaves second) table := by
  have held (saves : List (Text × Tensor)) : (Store.ofSaves saves).get? = Store.lastSaved saves :=
    funext (Store.get?_ofSaves saves)
  have stores : Store.ofSaves first = .ofSaves second :=
    Store.ext_get? (by rw [held, held, funext same])
  refine ⟨stores ▸ .refl _, fun table lists => ?_⟩
  have enumerates := enumerates_of_lists (held first ▸ lists)
  exact ⟨enumerates, stores ▸ enumerates⟩

/-- A variable is saved a second time, after another one. -/
def saves : List (Text × Tensor) :=
  [(['b'], .filled (.scalar ['1'])), (['a'], .placeholder (.symbolic ['n']) (.fixed 2)),
    (['b'], .placeholder (.fixed 1) (.symbolic ['m']))]

/-- The other variable is saved before it, and once more after it. -/
def otherSaves : List (Text × Tensor) :=
  [(['a'], .filled (.scalar ['x'])), (['b'], .placeholder (.fixed 1) (.symbolic ['m'])),
    (['a'], .placeholder (.symbolic ['n']) (.fixed 2))]

theorem saves_order_ignored_twice :
    (∀ name, Store.lastSaved saves name = Store.lastSaved otherSaves name) ∧
      listVars (.ofSaves saves) = "a: n x 2 matrix\nb: 1 x m vector".toList ∧
      AnswersAlike (.ofSaves saves) (.ofSaves otherSaves) ∧
      -- The table has the names in decreasing order.
      Enumerates (.ofSaves saves) (otherSaves.drop 1) := by
  have same (name : Text) : Store.lastSaved saves name = Store.lastSaved otherSaves name := by
    by_cases first : name = ['a']
    · subst first
      rfl
    · by_cases second : name = ['b']
      · subst second
        rfl
      · have apart {other : Text} (different : name ≠ other) : (name == other) = false :=
          beq_false_of_ne different
        simp [Store.lastSaved, saves, otherSaves, List.lookup_cons, apart first, apart second]
  have entries : (Store.ofSaves saves).entries = (otherSaves.drop 1).reverse := by decide +kernel
  have lists : Store.Lists (Store.lastSaved saves) (otherSaves.drop 1) := by
    refine ⟨by decide, fun name tensor => ?_⟩
    rw [← Store.get?_ofSaves, ← Store.mem_entries_iff, entries, List.mem_reverse]
  obtain ⟨alike, enumerates⟩ := saves_order_ignored saves otherSaves same
  exact ⟨same, by decide +kernel, alike, (enumerates _ lists).1⟩

end MatrixFormula.Session
