import Mathlib.Data.Finmap

/-! # Search trees keyed by a field of their items

`tsearch`, `tfind` and `tdelete` of the C library, for items compared by one key field: a
finite map from the key to an item that carries that key.  Only what they promise
is kept, not the shape of the tree.  Assigning to an item found in the tree goes
through `assign`. -/

namespace KeyValueStore.SearchTree

variable {Item Key : Type} [DecidableEq Key] {key : Item → Key}

/-- The items of a tree by their keys. -/
abbrev Tree (key : Item → Key) := Finmap fun k : Key => { item : Item // key item = k }

/-- The item that compares equal to `k`. -/
def tfind (tree : Tree key) (k : Key) : Option Item :=
  (tree.lookup k).map Subtype.val

/-- `tsearch` that does not return NULL: an item that compares equal stays, otherwise
`item` is added. -/
def tsearch (tree : Tree key) (item : Item) : Tree key :=
  if key item ∈ tree then tree else tree.insert (key item) ⟨item, rfl⟩

/-- `tdelete`: the tree without the item that compares equal to `k`, or NULL if there is
none. -/
def tdelete (tree : Tree key) (k : Key) : Option (Tree key) :=
  if k ∈ tree then some (tree.erase k) else none

/-- The tree after the item with the key of `item` has been overwritten by it. -/
def assign (tree : Tree key) (item : Item) : Tree key :=
  tree.insert (key item) ⟨item, rfl⟩

@[simp] theorem tfind_empty (k : Key) : tfind (∅ : Tree key) k = none := by
  simp [tfind]

theorem key_of_tfind {tree : Tree key} {k : Key} {item : Item} (found : tfind tree k = some item) :
    key item = k := by
  simp only [tfind, Option.map_eq_some_iff] at found
  obtain ⟨entry, _, rfl⟩ := found
  exact entry.2

theorem tfind_eq_none {tree : Tree key} {k : Key} : tfind tree k = none ↔ k ∉ tree := by
  simp [tfind, Finmap.lookup_eq_none]

theorem tsearch_of_absent {tree : Tree key} {item : Item} (absent : tfind tree (key item) = none) :
    tsearch tree item = assign tree item := by
  simp only [tsearch, assign, if_neg (tfind_eq_none.mp absent)]

theorem tfind_assign (tree : Tree key) (item : Item) (k : Key) :
    tfind (assign tree item) k = if k = key item then some item else tfind tree k := by
  by_cases same : k = key item
  · subst same; simp [tfind, assign]
  · simp [tfind, assign, same, Finmap.lookup_insert_of_ne]

theorem keys_assign (tree : Tree key) (item : Item) :
    (assign tree item).keys = insert (key item) tree.keys := by
  ext k
  simp [assign, Finmap.mem_keys, Finmap.mem_insert]

theorem tdelete_of_found {tree : Tree key} {k : Key} {item : Item} (found : tfind tree k = some item) :
    tdelete tree k = some (tree.erase k) := by
  rw [tdelete, if_pos]
  by_contra absent
  rw [tfind_eq_none.mpr absent] at found
  cases found

theorem tfind_erase (tree : Tree key) (k k' : Key) :
    tfind (tree.erase k) k' = if k' = k then none else tfind tree k' := by
  by_cases same : k' = k
  · subst same; simp [tfind]
  · simp [tfind, same, Finmap.lookup_erase_ne]

theorem mem_keys {tree : Tree key} {k : Key} : k ∈ tree.keys ↔ ∃ item, tfind tree k = some item := by
  rw [Finmap.mem_keys, ← not_iff_not, ← tfind_eq_none]
  cases tfind tree k <;> simp

/-- Trees with the same answers are the same tree. -/
theorem ext_tfind {tree tree' : Tree key} (same : ∀ k, tfind tree k = tfind tree' k) :
    tree = tree' := by
  apply Finmap.ext_lookup
  intro k
  have answers := same k
  simp only [tfind] at answers
  exact Option.map_injective Subtype.val_injective answers

/-- Overwriting an item that was just added, or found instead. -/
theorem assign_tsearch (tree : Tree key) {item item' : Item} (same : key item = key item') :
    assign (tsearch tree item) item' = assign tree item' := by
  simp only [tsearch]
  split
  · rfl
  · apply ext_tfind
    intro k
    change tfind (assign (assign tree item) item') k = _
    by_cases here : k = key item'
    · simp [tfind_assign, here]
    · simp [tfind_assign, here, same]

end KeyValueStore.SearchTree
