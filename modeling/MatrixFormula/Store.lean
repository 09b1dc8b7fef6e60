import MatrixFormula.Tensor.Basic

/-!
# Stores of variables

A store gives tensors to names. Its entries are kept in strictly increasing order of
names, by code point, so that a store is determined by what it answers and not by
the order in which variables were defined.
-/

namespace MatrixFormula

/-- Named tensors, in increasing order of names. -/
structure Store where
  entries : List (Text × Tensor)
  ascending : entries.Pairwise fun first second => first.1 < second.1
deriving DecidableEq

namespace Store

/-- The store without variables. -/
def empty : Store := ⟨[], .nil⟩

/-- Puts a tensor at its place among ordered entries, and in place of an entry with
the same name. -/
def insertEntry (name : Text) (tensor : Tensor) : List (Text × Tensor) → List (Text × Tensor)
  | [] => [(name, tensor)]
  | (other, value) :: rest =>
      if name < other then (name, tensor) :: (other, value) :: rest
      else if name = other then (name, tensor) :: rest
      else (other, value) :: insertEntry name tensor rest

/-- An inserted entry is the new one or an old one. -/
theorem mem_of_mem_insertEntry {name : Text} {tensor : Tensor} {entries : List (Text × Tensor)}
    {entry : Text × Tensor} (member : entry ∈ insertEntry name tensor entries) :
    entry = (name, tensor) ∨ entry ∈ entries := by
  fun_induction insertEntry name tensor entries <;> grind

/-- Inserting keeps the order. -/
theorem pairwise_insertEntry {name : Text} {tensor : Tensor} {entries : List (Text × Tensor)}
    (ascending : entries.Pairwise fun first second => first.1 < second.1) :
    (insertEntry name tensor entries).Pairwise fun first second => first.1 < second.1 := by
  fun_induction insertEntry name tensor entries with
  | case1 => simp
  | case2 other value rest before =>
      refine List.pairwise_cons.mpr ⟨fun entry member => ?_, ascending⟩
      rcases List.mem_cons.mp member with rfl | later
      · exact before
      · exact List.lt_trans before ((List.pairwise_cons.mp ascending).1 entry later)
  | case3 value rest before =>
      have ⟨first, others⟩ := List.pairwise_cons.mp ascending
      exact List.pairwise_cons.mpr ⟨first, others⟩
  | case4 former value rest before different ih =>
      have ⟨first, others⟩ := List.pairwise_cons.mp ascending
      refine List.pairwise_cons.mpr ⟨fun entry member => ?_, ih others⟩
      rcases mem_of_mem_insertEntry member with rfl | old
      · exact List.not_le.mp fun atMost =>
          different (List.le_antisymm atMost (List.not_lt.mp before))
      · exact first entry old

/-- The store with a tensor under a name, in place of any former one. -/
def insert (store : Store) (name : Text) (tensor : Tensor) : Store :=
  ⟨insertEntry name tensor store.entries, pairwise_insertEntry store.ascending⟩

/-- The tensor under a name. -/
def get? (store : Store) (name : Text) : Option Tensor := store.entries.lookup name

theorem lookup_insertEntry (name other : Text) (tensor : Tensor) (entries : List (Text × Tensor)) :
    (insertEntry name tensor entries).lookup other =
      if other = name then some tensor else entries.lookup other := by
  have apart {former : Text} (different : other ≠ former) : (other == former) = false :=
    beq_false_of_ne different
  by_cases same : other = name
  · subst same
    fun_induction insertEntry other tensor entries with
    | case1 | case2 | case3 => simp
    | case4 former value rest before different ih =>
        simp [List.lookup_cons, apart different, ih]
  · fun_induction insertEntry name tensor entries with
    | case1 | case2 | case3 => simp [List.lookup_cons, same, apart same]
    | case4 former value rest before different ih => simp [List.lookup_cons, same, ih]

/-- The inserted tensor is found under its name, and all other names keep theirs. -/
theorem get?_insert (store : Store) (name other : Text) (tensor : Tensor) :
    (store.insert name tensor).get? other = if other = name then some tensor else store.get? other :=
  lookup_insertEntry name other tensor store.entries

/-- Whether a name is known. -/
def contains (store : Store) (name : Text) : Bool := (store.get? name).isSome

/-- The known names, in increasing order. -/
def names (store : Store) : List Text := store.entries.map Prod.fst

/-- Whether two texts differ in at most one character that is added, dropped or
changed. -/
def withinOneEdit : Text → Text → Bool
  | [], right => right.length ≤ 1
  | left, [] => left.length ≤ 1
  | first :: left, second :: right =>
      if first = second then withinOneEdit left right
      else left == right || first :: left == right || left == second :: right

/-- The known names that are at most one edit away from a name. -/
def similar (store : Store) (name : Text) : List Text := store.names.filter (withinOneEdit name)

/-- The shortest known name that starts a run of letters of which the rest is a known
name too, together with that rest. -/
def split? (store : Store) (run : Text) : Option (Text × Text) :=
  (Text.properSplits run).find? fun (left, right) => store.contains left && store.contains right

end Store

end MatrixFormula
