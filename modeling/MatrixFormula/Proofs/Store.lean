import Mathlib.Data.List.Induction
import Mathlib.Data.List.Sort
import MatrixFormula.Store

/-!
# What a store holds

A store holds the tensor that was saved last under each name, and nothing else, so the order in
which names were first saved has left no trace. Any list of what it holds, in whatever order, is
its list of entries once it is sorted by names. The names that it suggests for an unknown one are
those that are spelled like it but for one character.
-/

namespace MatrixFormula.Store

/-- The entries of a store are what it answers. -/
theorem mem_entries_iff {store : Store} {name : Text} {tensor : Tensor} :
    (name, tensor) ∈ store.entries ↔ store.get? name = some tensor := by
  rw [get?, List.lookup_eq_some_iff]
  constructor
  · intro member
    obtain ⟨before, after, entries⟩ := List.append_of_mem member
    refine ⟨before, after, entries, fun entry earlier => bne_iff_ne.mpr fun same => ?_⟩
    have ascending := store.ascending
    rw [entries] at ascending
    have smaller : entry.1 < name :=
      (List.pairwise_append.mp ascending).2.2 entry earlier (name, tensor) (List.mem_cons_self ..)
    exact List.lt_irrefl name (same ▸ smaller)
  · rintro ⟨before, after, entries, -⟩
    rw [entries]
    exact List.mem_append_right before (List.mem_cons_self ..)

theorem mem_names_iff {store : Store} {name : Text} : name ∈ store.names ↔ store.contains name := by
  rw [contains, get?, List.lookup_isSome_iff, names, List.mem_map]
  exact exists_congr fun entry => and_congr_right fun _ => eq_comm.trans beq_iff_eq.symm

theorem pairwise_names (store : Store) : store.names.Pairwise (· < ·) :=
  List.pairwise_map.mpr store.ascending

/-- Similar names are the known ones within an edit, in increasing order. -/
theorem pairwise_similar (store : Store) (name : Text) : (store.similar name).Pairwise (· < ·) :=
  (pairwise_names store).sublist List.filter_sublist

/-! ## Edits -/

/-- One character of a text is added, dropped or changed. -/
inductive Edit : Text → Text → Prop where
  | add (before after : Text) (char : Char) : Edit (before ++ after) (before ++ char :: after)
  | drop (before after : Text) (char : Char) : Edit (before ++ char :: after) (before ++ after)
  | change (before after : Text) (char other : Char) :
      Edit (before ++ char :: after) (before ++ other :: after)

/-- A number of edits that lead from one text to another. The distance of two texts is the least
number of edits that do. -/
inductive Edits : Nat → Text → Text → Prop where
  | none (text : Text) : Edits 0 text text
  | more {count : Nat} {left middle right : Text} (edits : Edits count left middle)
      (edit : Edit middle right) : Edits (count + 1) left right

variable {left right : Text} {first second : Char}

/-- An edit of a text is one of the text behind a character. -/
theorem Edit.cons (edit : Edit left right) : Edit (first :: left) (first :: right) := by
  cases edit with
  | add before after char => exact .add (first :: before) after char
  | drop before after char => exact .drop (first :: before) after char
  | change before after char other => exact .change (first :: before) after char other

theorem withinOneEdit_cons :
    withinOneEdit (first :: left) (first :: right) = withinOneEdit left right := by
  rw [withinOneEdit, if_pos rfl]

theorem withinOneEdit_append (before : Text) :
    withinOneEdit (before ++ left) (before ++ right) = withinOneEdit left right := by
  induction before with
  | nil => rfl
  | cons char before ih => rw [List.cons_append, List.cons_append, withinOneEdit_cons, ih]

theorem withinOneEdit_self (text : Text) : withinOneEdit text text := by
  induction text with
  | nil => rfl
  | cons char text ih => rwa [withinOneEdit_cons]

/-- A character in front of a text makes one edit, also where the text starts with it. -/
theorem withinOneEdit_front (text : Text) (char : Char) :
    withinOneEdit text (char :: text) ∧ withinOneEdit (char :: text) text := by
  induction text generalizing char with
  | nil => exact ⟨rfl, rfl⟩
  | cons next text ih =>
      by_cases same : next = char
      · subst same
        rw [withinOneEdit_cons, withinOneEdit_cons]
        exact ih next
      · simp [withinOneEdit, same, Ne.symm same]

/-- The test finds out whether two texts are the same or one edit apart. -/
theorem withinOneEdit_iff_eq_or_edit :
    withinOneEdit left right ↔ left = right ∨ Edit left right := by
  constructor
  · intro near
    fun_induction withinOneEdit left right with
    | case1 right =>
        match right, near with
        | [], _ => exact .inl rfl
        | [char], _ => exact .inr (.add [] [] char)
    | case2 left =>
        match left, near with
        | [], _ => exact .inl rfl
        | [char], _ => exact .inr (.drop [] [] char)
    | case3 first left right ih =>
        rcases ih near with rfl | edit
        · exact .inl rfl
        · exact .inr edit.cons
    -- The first characters differ, so the edit is here and nothing else may differ.
    | case4 first left second right =>
        simp only [Bool.or_eq_true, beq_iff_eq] at near
        rcases near with (rfl | rfl) | rfl
        · exact .inr (.change [] left first second)
        · exact .inr (.add [] (first :: left) second)
        · exact .inr (.drop [] (second :: right) first)
  · rintro (rfl | edit)
    · exact withinOneEdit_self left
    · cases edit with
      | add before after char =>
          rw [withinOneEdit_append]
          exact (withinOneEdit_front after char).1
      | drop before after char =>
          rw [withinOneEdit_append]
          exact (withinOneEdit_front after char).2
      | change before after char other =>
          rw [withinOneEdit_append]
          by_cases same : char = other
          · subst same
            exact withinOneEdit_self _
          · simp [withinOneEdit, same]

/-- The test finds out whether the distance of two texts is less than two. -/
theorem withinOneEdit_iff : withinOneEdit left right ↔ ∃ count < 2, Edits count left right := by
  rw [withinOneEdit_iff_eq_or_edit]
  constructor
  · rintro (rfl | edit)
    · exact ⟨0, by omega, .none left⟩
    · exact ⟨1, by omega, (Edits.none left).more edit⟩
  · rintro ⟨count, few, edits⟩
    cases edits with
    | none => exact .inl rfl
    | more edits edit =>
        cases edits with
        | none => exact .inr edit
        | more => omega

/-- Similar names are the known ones at a distance of less than two. -/
theorem mem_similar_iff {store : Store} {name other : Text} :
    other ∈ store.similar name ↔ store.contains other ∧ ∃ count < 2, Edits count name other := by
  rw [similar, List.mem_filter, mem_names_iff, withinOneEdit_iff]

/-! ## Tables -/

/-- A list of all names that have a tensor, each once and with its tensor, in any order. -/
structure Lists (held : Text → Option Tensor) (table : List (Text × Tensor)) : Prop where
  distinct : (table.map Prod.fst).Nodup
  complete : ∀ name tensor, (name, tensor) ∈ table ↔ held name = some tensor

/-- The entries of a store are a list of what it holds. -/
theorem lists_entries (store : Store) : Lists store.get? store.entries :=
  ⟨(pairwise_names store).nodup, fun _ _ => mem_entries_iff⟩

/-- Two lists of the same tensors differ in their order only. -/
theorem Lists.perm {held : Text → Option Tensor} {first second : List (Text × Tensor)}
    (lists : Lists held first) (listsToo : Lists held second) : first.Perm second := by
  refine (List.perm_ext_iff_of_nodup lists.distinct.of_map listsToo.distinct.of_map).mpr ?_
  rintro ⟨name, tensor⟩
  exact (lists.complete name tensor).trans (listsToo.complete name tensor).symm

/-- A store is known by its answers. -/
theorem ext_get? {first second : Store} (same : first.get? = second.get?) : first = second := by
  have perm := (lists_entries first).perm (same ▸ lists_entries second)
  have entries : first.entries = second.entries :=
    perm.eq_of_pairwise (fun _ _ _ _ before behind => absurd behind (List.lt_asymm before))
      first.ascending second.ascending
  cases first
  cases second
  cases entries
  rfl

/-! ## Saves -/

/-- The tensor that was saved last under a name. -/
def lastSaved (saves : List (Text × Tensor)) (name : Text) : Option Tensor :=
  saves.reverse.lookup name

/-- The store after saving tensors one after the other. -/
def ofSaves (saves : List (Text × Tensor)) : Store :=
  saves.foldl (fun store save => store.insert save.1 save.2) empty

/-- After saving, a store holds the last tensor under each name. -/
theorem get?_ofSaves (saves : List (Text × Tensor)) (name : Text) :
    (ofSaves saves).get? name = lastSaved saves name := by
  induction saves using List.reverseRecOn with
  | nil => rfl
  | append_singleton saves save ih =>
      have stored : ofSaves (saves ++ [save]) = (ofSaves saves).insert save.1 save.2 := by
        rw [ofSaves, List.foldl_append, List.foldl_cons, List.foldl_nil, ofSaves]
      rw [stored, get?_insert, ih, lastSaved, lastSaved, List.reverse_append,
        List.reverse_singleton, List.singleton_append, List.lookup_cons]
      by_cases same : name = save.1
      · simp [same]
      · simp [same, beq_false_of_ne same]

end MatrixFormula.Store
