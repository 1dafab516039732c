import KeyValueStore.Submission.System

/-! # `kv_checker.h`, `kv_checker.c`

The copy that the stress test keeps of what the store should hold: a search tree with a node
for each key, which points to a copy of the value.  The tree is ordered by `kvNodeCompare`,
which is zero for equal keys only (`kvNodeCompare_eq_zero`). -/

namespace KeyValueStore.Stress

open SearchTree

/-- Why the stress test does not return. -/
inductive StressFault where
  /-- The use of a `malloc` that failed. -/
  | nullPointer
  /-- `assert((*entry)->value != NULL)` -/
  | valueMissing
deriving DecidableEq, Repr

structure KvNode where
  key : UInt64
  /-- `none` is NULL. -/
  value : Option Value

def kvNodeCompare (a b : KvNode) : Int :=
  if a.key < b.key then -1 else if a.key > b.key then 1 else 0

/-- Nodes compare as directory entries with their keys do. -/
theorem kvNodeCompare_eq (a b : KvNode) :
    kvNodeCompare a b = dirEntryCompare ⟨a.key, 0, 0, 0⟩ ⟨b.key, 0, 0, 0⟩ := rfl

theorem kvNodeCompare_eq_zero {a b : KvNode} : kvNodeCompare a b = 0 ↔ a.key = b.key := by
  rw [kvNodeCompare_eq, dirEntryCompare_eq_zero]

structure KvChecker where
  valueRoot : Tree KvNode.key

/-- Which allocations of `kv_checker__store_value` deliver: the node to search with, the
copy of the value, and what `tsearch` needs for a node that is new. -/
structure StoreAllocs where
  searchNode : Bool
  valueCopy : Bool
  treeNode : Bool

/-- The copy ends where the value does. -/
def duplicateValue (allocated : Bool) (source : Value) : Option Value :=
  if source.size.toNat = 0 then none
  else if allocated then
    some ⟨source.size, source.data.take source.size.toNat, by simp [source.size_le]⟩
  else none

namespace KvChecker

def init (allocated : Bool) : Except Int KvChecker :=
  if allocated then .ok { valueRoot := ∅ } else .error (-ENOMEM)

def storeValue (checker : KvChecker) (allocs : StoreAllocs) (key : UInt64) (v : Value) :
    Except StressFault (Int × KvChecker) :=
  if ¬ allocs.searchNode then .ok (-ENOMEM, checker)
  else
    let searchNode : KvNode := { key, value := none }
    match duplicateValue allocs.valueCopy v with
    | none => .ok (-ENOMEM, checker)
    | some valueCopy =>
      match tfind checker.valueRoot key with
      | none =>
        -- A new value could not be added.
        if ¬ allocs.treeNode then .ok (-ENOMEM, checker)
        else .ok (0, ⟨assign (tsearch checker.valueRoot searchNode)
          { searchNode with value := some valueCopy }⟩)
      | some entry =>
        if entry.value.isNone then .error .valueMissing
        else .ok (0, ⟨assign checker.valueRoot { entry with value := some valueCopy }⟩)

/-- The code, and whether the values match. -/
def checkValue (checker : KvChecker) (key : UInt64) (v : Value) :
    Except StressFault (Int × Bool) :=
  match tfind checker.valueRoot key with
  | none => .ok (-ENOENT, false)
  | some entry =>
    match entry.value with
    | none => .error .valueMissing
    | some storedValue =>
      .ok (0, storedValue.size = v.size ∧
        storedValue.data.take v.size.toNat = v.data.take v.size.toNat)

def deleteValue (checker : KvChecker) (key : UInt64) : Int × KvChecker :=
  match tfind checker.valueRoot key with
  | none => (-ENOENT, checker)
  | some _ =>
    match tdelete checker.valueRoot key with
    | none => (-ENOENT, checker)
    | some valueRoot => (0, ⟨valueRoot⟩)

/-! ## The map that the checker holds -/

/-- What the checker takes the store to hold. -/
def copy (checker : KvChecker) : Mapping := fun key =>
  (tfind checker.valueRoot key).bind fun node => node.value.map Value.bytes

/-- Every node in the tree has its value: no assertion fails. -/
def Sound (checker : KvChecker) : Prop :=
  ∀ key node, tfind checker.valueRoot key = some node → node.value ≠ none

end KvChecker

/-- Enough memory to store a value, for a key that is there already or not. -/
def StoreAllocs.Suffice (allocs : StoreAllocs) (present : Prop) : Prop :=
  allocs.searchNode = true ∧ allocs.valueCopy = true ∧ (present ∨ allocs.treeNode = true)

theorem duplicateValue_bytes {source copied : Value} {allocated : Bool}
    (duplicated : duplicateValue allocated source = some copied) : copied.bytes = source.bytes := by
  simp only [duplicateValue] at duplicated
  split at duplicated
  · cases duplicated
  · split at duplicated
    · cases duplicated
      simp [Value.bytes]
    · cases duplicated

/-- Sizes and contents agree exactly if the bytes do. -/
theorem sameValue_iff (stored v : Value) :
    (stored.size = v.size ∧ stored.data.take v.size.toNat = v.data.take v.size.toNat) ↔
      stored.bytes = v.bytes := by
  constructor
  · rintro ⟨size, contents⟩
    simpa only [Value.bytes, size] using contents
  · intro bytes
    have lengths := congrArg List.length bytes
    simp only [Value.bytes, List.length_take, min_eq_left stored.size_le,
      min_eq_left v.size_le] at lengths
    have size : stored.size = v.size := UInt64.toNat_inj.mp lengths
    exact ⟨size, by simpa only [Value.bytes, size] using bytes⟩

namespace KvChecker

section Operations

variable {checker : KvChecker} {key : UInt64} {v : Value}

theorem Sound.empty {allocated : Bool} (started : init allocated = .ok checker) :
    checker.Sound ∧ checker.copy = Mapping.empty := by
  cases allocated with
  | false => cases started
  | true =>
    cases started
    exact ⟨fun _ _ found => by simp at found, by funext key; simp [copy, Mapping.empty]⟩

/-- A sound checker has a node for a key exactly if it has a value for it. -/
theorem Sound.tfind_none (sound : checker.Sound) (absent : checker.copy key = none) :
    tfind checker.valueRoot key = none := by
  cases found : tfind checker.valueRoot key with
  | none => rfl
  | some node => exact absurd (by simpa [copy, found] using absent) (sound key node found)

theorem tfind_of_copy {bytes : Bytes}
    (present : checker.copy key = some bytes) :
    ∃ node stored, tfind checker.valueRoot key = some node ∧ node.value = some stored ∧
      stored.bytes = bytes := by
  simp only [copy, Option.bind_eq_some_iff, Option.map_eq_some_iff] at present
  obtain ⟨node, found, stored, value, bytes⟩ := present
  exact ⟨node, stored, found, value, bytes⟩

/-- A node with a value takes the place of its key. -/
theorem assign_spec (sound : checker.Sound) (node : KvNode) {stored : Value}
    (value : node.value = some stored) :
    KvChecker.Sound ⟨assign checker.valueRoot node⟩ ∧
      copy ⟨assign checker.valueRoot node⟩ =
        Function.update checker.copy node.key (some stored.bytes) := by
  constructor
  · intro key' node' found
    rw [tfind_assign] at found
    split at found
    · cases found
      simp [value]
    · exact sound key' node' found
  · funext key'
    by_cases same : key' = node.key
    · subst same
      simp [copy, tfind_assign, value]
    · simp [copy, tfind_assign, same]

theorem storeValue_spec (sound : checker.Sound) {allocs : StoreAllocs}
    (suffice : allocs.Suffice (checker.copy key ≠ none)) (notEmpty : v.size.toNat ≠ 0) :
    ∃ next : KvChecker, checker.storeValue allocs key v = .ok (0, next) ∧ next.Sound ∧
      next.copy = Function.update checker.copy key (some v.bytes) := by
  obtain ⟨searchNode, valueCopy, treeNode⟩ := suffice
  obtain ⟨copied, duplicated⟩ : ∃ copied, duplicateValue true v = some copied := by
    simp [duplicateValue, notEmpty]
  have spec := assign_spec sound ⟨key, some copied⟩ rfl
  rw [duplicateValue_bytes duplicated] at spec
  refine ⟨⟨assign checker.valueRoot ⟨key, some copied⟩⟩, ?_, spec⟩
  cases held : checker.copy key with
  | none =>
    have memory : allocs.treeNode = true := treeNode.resolve_left (by simp [held])
    have added : assign (tsearch checker.valueRoot ⟨key, none⟩) ⟨key, some copied⟩ =
        assign checker.valueRoot ⟨key, some copied⟩ := assign_tsearch _ rfl
    simp [storeValue, searchNode, valueCopy, duplicated, sound.tfind_none held, memory, added]
  | some bytes =>
    obtain ⟨node, stored, found, value, _⟩ := tfind_of_copy held
    have key_eq : node.key = key := key_of_tfind found
    simp [storeValue, searchNode, valueCopy, duplicated, found, value, key_eq]

/-- Without the memory the checker stays as it was. -/
theorem storeValue_noMemory (sound : checker.Sound) {allocs : StoreAllocs}
    (lacks : ¬ allocs.Suffice (checker.copy key ≠ none)) (notEmpty : v.size.toNat ≠ 0) :
    checker.storeValue allocs key v = .ok (-ENOMEM, checker) := by
  by_cases searchNode : allocs.searchNode = true
  · by_cases valueCopy : allocs.valueCopy = true
    · have absent : checker.copy key = none := by
        by_contra present
        exact lacks ⟨searchNode, valueCopy, .inl present⟩
      have treeNode : allocs.treeNode = false := by
        simpa [StoreAllocs.Suffice, searchNode, valueCopy, absent] using lacks
      simp [storeValue, searchNode, valueCopy, duplicateValue, notEmpty, sound.tfind_none absent,
        treeNode]
    · simp [storeValue, searchNode, valueCopy, duplicateValue]
  · simp [storeValue, searchNode]

theorem checkValue_absent (sound : checker.Sound) (absent : checker.copy key = none) (v : Value) :
    checker.checkValue key v = .ok (-ENOENT, false) := by
  simp only [checkValue, sound.tfind_none absent]

theorem checkValue_present {bytes : Bytes} (present : checker.copy key = some bytes) (v : Value) :
    checker.checkValue key v = .ok (0, decide (bytes = v.bytes)) := by
  obtain ⟨node, stored, found, value, rfl⟩ := tfind_of_copy present
  simp only [checkValue, found, value, sameValue_iff]

theorem deleteValue_absent (sound : checker.Sound) (absent : checker.copy key = none) :
    checker.deleteValue key = (-ENOENT, checker) := by
  simp only [deleteValue, sound.tfind_none absent]

theorem deleteValue_present (sound : checker.Sound) (present : checker.copy key ≠ none) :
    ∃ next : KvChecker, checker.deleteValue key = (0, next) ∧ next.Sound ∧
      next.copy = Function.update checker.copy key none := by
  obtain ⟨bytes, held⟩ := Option.ne_none_iff_exists'.mp present
  obtain ⟨node, _, found, _, _⟩ := tfind_of_copy held
  refine ⟨⟨checker.valueRoot.erase key⟩, ?_, ?_, ?_⟩
  · simp only [deleteValue, found, tdelete_of_found found]
  · intro key' node' found'
    rw [tfind_erase] at found'
    split at found'
    · cases found'
    · exact sound key' node' found'
  · funext key'
    by_cases same : key' = key
    · subst same
      simp [copy, tfind_erase]
    · simp [copy, tfind_erase, same]

end Operations

end KvChecker

end KeyValueStore.Stress
