import KeyValueStore.Class.Store
import KeyValueStore.Windows.Destroy

/-! # `kv_directory.c`, `Directory.cpp` on `tsearch.cpp`

The directory of the class store for the platform that brings no search tree.  An entry is on
the heap; the tree has a pointer to it, through which it is overwritten.  What `KvDirectory`
takes for granted is proved here of `tsearch.cpp`: the callers cannot tell the tree from the
finite map (`directory_on_tree`), and every entry is freed, once (`cleanup_frees_entries`). -/

namespace KeyValueStore.Tsearch.Directory

open Runs Resources

/-- A pointer to a `directory_entry`, with what it points to. -/
structure EntryPtr where
  address : Nat
  entry : DirectoryEntry
deriving DecidableEq

/-- `dir_entry_compare` -/
def compareEntries (a b : EntryPtr) : Int := dirEntryCompare a.entry b.entry

/-- `entries_root` -/
abbrev Root := Option (TRoot EntryPtr)

/-- The entry on the stack of `find_entry_for_key`.  Its address plays no part. -/
def entryKey (key : UInt64) : EntryPtr := ⟨0, ⟨key, 0, 0, 0⟩⟩

def findEntryForKey (root : Root) (key : UInt64) : Option EntryPtr :=
  (tfind (entryKey key) (some root) compareEntries).map TNode.data

/-- A node after the entry at that address has been overwritten. -/
def overwrite (written : EntryPtr) (node : TNode EntryPtr) : TNode EntryPtr :=
  if node.data.address = written.address then { node with data := written } else node

def writeEntry (root : Root) (written : EntryPtr) : Root :=
  root.map fun base => { base with nodes := base.nodes.map (overwrite written) }

/-- Where `malloc` puts a new entry, and `new` its node; `none` if there is no memory for it.
The first node comes with the root of the tree. -/
structure NewMemory where
  entry : Option Nat
  node : Option Nat

/-- The code of `store_key` and its two out-parameters. -/
structure Stored where
  ret : Int
  setAsCurrentKeyEntry : Bool
  replacedBlock : Nat

def storeKey (root : Root) (memory : NewMemory) (key : UInt64) (block : Nat)
    (bytes sequence : UInt64) : Except Fault (Stored × Root) :=
  match findEntryForKey root key with
  | some found => do
    assert .sequenceNotReused (sequence ≠ found.entry.sequence)
    if sequence > found.entry.sequence then
      let written := { found.entry with
        sequence := sequence, dataBlock := block, dataBytes := bytes.toUInt16 }
      return (⟨0, true, found.entry.dataBlock⟩, writeEntry root ⟨found.address, written⟩)
    else
      return (⟨0, false, UINT32_MAX⟩, root)
  | none =>
    match memory.entry with
    | none => .error .nullPointer
    | some address =>
      let newEntry : EntryPtr := ⟨address, ⟨key, sequence, block, bytes.toUInt16⟩⟩
      match memory.node with
      -- A `new` of `tsearch` throws, and nothing catches it.
      | none => .error .nullPointer
      | some node =>
        let (newNode, after) := tsearch node newEntry (some root) compareEntries
        match newNode with
        | none => .ok (⟨-ENOMEM, true, UINT32_MAX⟩, after.join)
        | some _ => .ok (⟨0, true, UINT32_MAX⟩, after.join)

def lookupKey (root : Root) (key : UInt64) : Except Int (Nat × UInt64) :=
  match findEntryForKey root key with
  | none => .error (-ENOENT)
  | some found =>
    if ¬ KvStore.isAllocated found.entry then .error (-ENOENT)
    else .ok (found.entry.dataBlock, found.entry.dataBytes.toUInt64)

def removeKey (root : Root) (key : UInt64) : Int × Root :=
  match findEntryForKey root key with
  | none => (-ENOENT, root)
  | some found =>
    if ¬ KvStore.isAllocated found.entry then (-ENOENT, root)
    else
      let (deleted, after) := tdelete found (some root) compareEntries
      match deleted with
      | none => (-EFAULT, after.join)
      | some _ => (0, after.join)

/-! ## Calls -/

inductive Call where
  | storeKey (memory : NewMemory) (key : UInt64) (block : Nat) (bytes sequence : UInt64)
  | lookupKey (key : UInt64)
  | removeKey (key : UInt64)

inductive Response where
  | stored (stored : Stored)
  | found (found : Except Int (Nat × UInt64))
  | removed (ret : Int)

def exec (root : Root) : Call → EStateM.Result Fault Root Response
  | .storeKey memory key block bytes sequence =>
    match storeKey root memory key block bytes sequence with
    | .error fault => .error fault root
    | .ok (stored, next) => .ok (.stored stored) next
  | .lookupKey key => .ok (.found (lookupKey root key)) root
  | .removeKey key =>
    let (ret, next) := removeKey root key
    .ok (.removed ret) next

/-- Without memory `store_key` ends in the same way wherever it is short of it. -/
def NewMemory.insertResult (memory : NewMemory) : InsertResult :=
  if memory.entry.isSome ∧ memory.node.isSome then .inserted else .mallocNull

/-- The same call of the directory that is a finite map. -/
def execMap (directory : KvDirectory) : Call → EStateM.Result Fault KvDirectory Response
  | .storeKey memory key block bytes sequence =>
    match directory.storeKey memory.insertResult key block bytes sequence with
    | .error fault => .error fault directory
    | .ok stored =>
      .ok (.stored ⟨stored.ret, stored.setAsCurrentKeyEntry, stored.replacedBlock⟩)
        stored.directory
  | .lookupKey key => .ok (.found (KvStore.lookupKey directory key)) directory
  | .removeKey key =>
    let (ret, next) := KvStore.removeKey directory key
    .ok (.removed ret) next

/-- `malloc` returns no pointer to an entry that has not been freed. -/
def Fresh (root : Root) : Call → Prop
  | .storeKey memory .. => ∀ node ∈ nodesOf root, memory.entry ≠ some node.data.address
  | .lookupKey _ | .removeKey _ => True

/-! ## The heap -/

inductive HeapCell where
  | tree (cell : Cell)
  | entry (address : Nat)
deriving DecidableEq

def entryCell (found : EntryPtr) : HeapCell := .entry found.address

/-- What is on the heap for a directory, but for the directory itself. -/
def heap (root : Root) : Multiset HeapCell :=
  (cells root).map .tree + Multiset.ofList ((nodesOf root).map fun node => entryCell node.data)

/-- `free(new_entry)` unless it is what `tsearch` returned; where that is NULL it stays. -/
def freeUnstored (newEntry : EntryPtr) : Option (TNode EntryPtr) → Footprint HeapCell
  | none => ⟨[], {entryCell newEntry}⟩
  | some newNode =>
    if newNode.data.address ≠ newEntry.address then ⟨[.release {entryCell newEntry}], 0⟩ else .none

/-- What a call that returns uses of the heap. -/
def heapFootprint (root : Root) : Call → Footprint HeapCell
  | .storeKey memory key block bytes sequence =>
    match findEntryForKey root key with
    | some _ => .none
    | none =>
      match memory.entry with
      | none => .none
      | some address =>
        let newEntry : EntryPtr := ⟨address, ⟨key, sequence, block, bytes.toUInt16⟩⟩
        match memory.node with
        | none => .none
        | some node =>
          Footprint.append ⟨[.acquire {entryCell newEntry}], 0⟩ <|
            ((Tsearch.footprint compareEntries root (.tsearch node newEntry)).map .tree).append <|
              freeUnstored newEntry (tsearch node newEntry (some root) compareEntries).1
  | .lookupKey _ => .none
  | .removeKey key =>
    match findEntryForKey root key with
    | none => .none
    | some found =>
      if ¬ KvStore.isAllocated found.entry then .none
      else
        match (tdelete found (some root) compareEntries).1 with
        | none => .none
        | some _ =>
          ((Tsearch.footprint compareEntries root (.tdelete found)).map .tree).append
            ⟨[.release {entryCell found}], 0⟩

/-- `kv_directory__cleanup`, `~Directory`.  The loop of `tdestroy` frees the entry of each node
with it; here the entries come last. -/
def cleanup (root : Root) : Footprint HeapCell :=
  let (freed, uses) := tdestroy root
  (uses.map .tree).append ⟨(freed.map entryCell).map fun cell => .release {cell}, 0⟩

/-! ## The tree and the map -/

theorem compareEntries_legal : Tsearch.Legal compareEntries where
  swap a b := dirEntryCompare_legal.swap a.entry b.entry
  trans a b c := dirEntryCompare_legal.trans a.entry b.entry c.entry

theorem compareEntries_minusOne : MinusOneWithin compareEntries Set.univ :=
  fun a _ b _ => dirEntryCompare_minusOne a.entry b.entry

theorem compareEntries_eq_zero {a b : EntryPtr} :
    compareEntries a b = 0 ↔ a.entry.keyId = b.entry.keyId :=
  dirEntryCompare_eq_zero

/-- The tree at the root has the entries of the map, each at an address of its own. -/
structure Implements (root : Root) (present : Present EntryPtr) (directory : KvDirectory) :
    Prop where
  represents : Represents compareEntries Set.univ root present
  entries : ∀ x, (present x).map (fun node => node.data.entry) =
    directory.findEntryForKey x.entry.keyId
  apart : ∀ a ∈ nodesOf root, ∀ b ∈ nodesOf root, a.data.address = b.data.address → a = b

section Step

variable {root : Root} {present : Present EntryPtr} {directory : KvDirectory} {key : UInt64}
  {found : EntryPtr} {node : TNode EntryPtr}

theorem Implements.find (implements : Implements root present directory) (key : UInt64) :
    findEntryForKey root key = (present (entryKey key)).map TNode.data := by
  rw [findEntryForKey, implements.represents.tfind compareEntries_legal compareEntries_minusOne
    (Set.mem_univ _)]

theorem Implements.find_entry (implements : Implements root present directory) (key : UInt64) :
    (findEntryForKey root key).map EntryPtr.entry = directory.findEntryForKey key := by
  rw [implements.find, Option.map_map]
  exact implements.entries (entryKey key)

theorem Implements.find_none (implements : Implements root present directory)
    (absent : findEntryForKey root key = none) : directory.findEntryForKey key = none := by
  rw [← implements.find_entry, absent, Option.map_none]

theorem Implements.find_some (implements : Implements root present directory)
    (here : findEntryForKey root key = some found) :
    directory.findEntryForKey key = some found.entry := by
  rw [← implements.find_entry, here, Option.map_some]

/-- What is found for a key is found for every item with that key. -/
theorem Implements.present_eq (implements : Implements root present directory) {x y : EntryPtr}
    (same : x.entry.keyId = y.entry.keyId) : present x = present y := by
  ext node
  rw [implements.represents.named, implements.represents.named, compareEntries_eq_zero,
    compareEntries_eq_zero, same]

theorem Implements.node_of_find (implements : Implements root present directory)
    (here : findEntryForKey root key = some found) :
    ∃ node, present (entryKey key) = some node ∧ node.data = found ∧ node ∈ nodesOf root ∧
      found.entry.keyId = key := by
  rw [implements.find, Option.map_eq_some_iff] at here
  obtain ⟨node, held, rfl⟩ := here
  obtain ⟨member, same⟩ := (implements.represents.named _ node).mp held
  exact ⟨node, held, rfl, member, compareEntries_eq_zero.mp same⟩

/-! ### An entry is overwritten -/

@[simp] theorem overwrite_address (written : EntryPtr) (node : TNode EntryPtr) :
    (overwrite written node).address = node.address := by
  rw [overwrite]
  split <;> rfl

@[simp] theorem overwrite_data_address (written : EntryPtr) (node : TNode EntryPtr) :
    (overwrite written node).data.address = node.data.address := by
  rw [overwrite]
  split
  · rename_i same
    exact same.symm
  · rfl

theorem nodesOf_writeEntry (root : Root) (written : EntryPtr) :
    nodesOf (writeEntry root written) = (nodesOf root).map (overwrite written) := by
  cases root <;> rfl

theorem Implements.present_of_mem (implements : Implements root present directory)
    (member : node ∈ nodesOf root) {x : EntryPtr} (same : x.entry.keyId = node.data.entry.keyId) :
    present x = some node :=
  (implements.represents.named x node).mpr ⟨member, compareEntries_eq_zero.mpr same.symm⟩

theorem Implements.written (implements : Implements root present directory)
    (member : node ∈ nodesOf root) {entry : DirectoryEntry}
    (same : entry.keyId = node.data.entry.keyId) :
    Implements (writeEntry root ⟨node.data.address, entry⟩)
      (fun x => (present x).map (overwrite ⟨node.data.address, entry⟩))
      (directory.withEntry entry) := by
  have others : ∀ a ∈ nodesOf root, a ≠ node → overwrite ⟨node.data.address, entry⟩ a = a :=
    fun a member' different =>
      if_neg fun equal => different (implements.apart a member' node member equal)
  have itself : overwrite ⟨node.data.address, entry⟩ node =
      { node with data := ⟨node.data.address, entry⟩ } := if_pos rfl
  have keeps : ∀ a ∈ nodesOf root,
      (overwrite ⟨node.data.address, entry⟩ a).data.entry.keyId = a.data.entry.keyId := by
    intro a member'
    by_cases equal : a = node
    · rw [equal, itself]
      exact same
    · rw [others a member' equal]
  refine ⟨implements.represents.overwritten ?_ ?_, ?_, ?_⟩
  · intro a member' x
    simp only [compareEntries, dirEntryCompare, keeps a member']
  · intro a member' x
    simp only [compareEntries, dirEntryCompare, keeps a member']
  · intro x
    rw [KvDirectory.find_withEntry, ← implements.entries x, Option.map_map]
    cases held : present x with
    | none =>
      have different : x.entry.keyId ≠ entry.keyId := by
        intro equal
        have found := implements.present_of_mem member (equal.trans same)
        rw [held] at found
        cases found
      rw [if_neg different]
      rfl
    | some a =>
      obtain ⟨member', equal⟩ := (implements.represents.named x a).mp held
      have key := compareEntries_eq_zero.mp equal
      by_cases here : a = node
      · rw [if_pos (by rw [← key, here, same]), Option.map_some, Function.comp_apply, here, itself]
      · -- Another node has another key.
        have different : x.entry.keyId ≠ entry.keyId := by
          intro equal'
          have found := implements.present_of_mem member (equal'.trans same)
          rw [held, Option.some.injEq] at found
          exact here found
        rw [if_neg different, Option.map_some, Function.comp_apply, others a member' here,
          Option.map_some]
  · rw [nodesOf_writeEntry]
    intro a member' b member'' equal
    obtain ⟨a, first, rfl⟩ := List.mem_map.mp member'
    obtain ⟨b, second, rfl⟩ := List.mem_map.mp member''
    rw [overwrite_data_address, overwrite_data_address] at equal
    rw [implements.apart a first b second equal]

/-! ### An entry is added, or removed -/

theorem Implements.added (implements : Implements root present directory)
    {address nodeAddress : Nat} {entry : DirectoryEntry} (absent : present ⟨address, entry⟩ = none)
    (fresh : ∀ node ∈ nodesOf root, node.data.address ≠ address) :
    ∃ next, tsearch nodeAddress ⟨address, entry⟩ (some root) compareEntries =
        (some ⟨nodeAddress, ⟨address, entry⟩⟩, some next) ∧
      (nodesOf next).Perm (⟨nodeAddress, ⟨address, entry⟩⟩ :: nodesOf root) ∧
      ∃ present', Implements next present' (directory.withEntry entry) := by
  obtain ⟨next, returned, represents⟩ := implements.represents.tsearch compareEntries_legal
    compareEntries_minusOne (Set.mem_univ ⟨address, entry⟩) nodeAddress (.deleted none)
  rw [absent, Option.getD_none] at returned
  have perm := implements.represents.perm_inserted represents compareEntries_legal absent
  refine ⟨next, returned, perm, _, represents, ?_, ?_⟩
  · intro x
    rw [KvDirectory.find_withEntry, ← implements.entries x]
    simp only [record, absent, if_true]
    by_cases same : x.entry.keyId = entry.keyId
    · rw [if_pos same, if_pos (compareEntries_eq_zero.mpr same), Option.map_some]
    · rw [if_neg same, if_neg fun equal => same (compareEntries_eq_zero.mp equal)]
  · intro a member b member' equal
    rw [perm.mem_iff, List.mem_cons] at member member'
    rcases member with rfl | old
    · rcases member' with rfl | old'
      · rfl
      · exact absurd equal.symm (fresh b old')
    · rcases member' with rfl | old'
      · exact absurd equal (fresh a old)
      · exact implements.apart a old b old' equal

theorem Implements.removed (implements : Implements root present directory)
    (held : present node.data = some node) :
    ∃ next, tdelete node.data (some root) compareEntries = (some node.address, some next) ∧
      (nodesOf root).Perm (node :: nodesOf next) ∧
      ∃ present', Implements next present' (KvStore.without directory node.data.entry.keyId) := by
  obtain ⟨next, returned, represents⟩ := implements.represents.tdelete compareEntries_legal
    compareEntries_minusOne (Set.mem_univ node.data) (.deleted none)
  rw [held, Option.map_some] at returned
  have perm := implements.represents.perm_deleted represents compareEntries_legal held
  refine ⟨next, returned, perm, _, represents, ?_, ?_⟩
  · intro x
    rw [KvStore.find_without, ← implements.entries x]
    simp only [record]
    by_cases same : x.entry.keyId = node.data.entry.keyId
    · rw [if_pos same, if_pos (compareEntries_eq_zero.mpr same), Option.map_none]
    · rw [if_neg same, if_neg fun equal => same (compareEntries_eq_zero.mp equal)]
  · intro a member b member' equal
    exact implements.apart a (perm.mem_iff.mpr (List.mem_cons_of_mem _ member)) b
      (perm.mem_iff.mpr (List.mem_cons_of_mem _ member')) equal

/-! ### What is on the heap -/

theorem heap_writeEntry (root : Root) (written : EntryPtr) :
    heap (writeEntry root written) = heap root := by
  have entries : (nodesOf (writeEntry root written)).map (fun node => entryCell node.data) =
      (nodesOf root).map fun node => entryCell node.data := by
    rw [nodesOf_writeEntry, List.map_map]
    refine List.map_congr_left fun node _ => ?_
    simp only [Function.comp_apply, entryCell, overwrite_data_address]
  have nodes : cells (writeEntry root written) = cells root := by
    cases root with
    | none => rfl
    | some base =>
      have same : (base.nodes.map (overwrite written)).map TNode.cell =
          base.nodes.map TNode.cell := by
        rw [List.map_map]
        refine List.map_congr_left fun node _ => ?_
        simp only [Function.comp_apply, TNode.cell, overwrite_address]
      simp only [writeEntry, Option.map_some, cells, same]
  rw [heap, heap, entries, nodes]

/-- A tree with one node more has one entry more. -/
theorem entries_perm {next : Root} (perm : (nodesOf next).Perm (node :: nodesOf root)) :
    Multiset.ofList ((nodesOf next).map fun node => entryCell node.data) =
      Multiset.ofList ((nodesOf root).map fun node => entryCell node.data) +
        {entryCell node.data} := by
  rw [add_comm, Multiset.singleton_add, Multiset.cons_coe]
  exact Multiset.coe_eq_coe.mpr (perm.map fun node => entryCell node.data)

/-- The new entry and its node. -/
theorem added_takes {nodeAddress : Nat} {newEntry : EntryPtr} {next : Root}
    (returned : tsearch nodeAddress newEntry (some root) compareEntries =
      (some ⟨nodeAddress, newEntry⟩, some next))
    (perm : (nodesOf next).Perm (⟨nodeAddress, newEntry⟩ :: nodesOf root)) :
    (Footprint.append ⟨[.acquire {entryCell newEntry}], 0⟩ <|
      ((Tsearch.footprint compareEntries root (.tsearch nodeAddress newEntry)).map .tree).append <|
        freeUnstored newEntry (tsearch nodeAddress newEntry (some root) compareEntries).1).Takes
      (heap root) (heap next) := by
  have made : Tsearch.exec compareEntries root (.tsearch nodeAddress newEntry) =
      .ok (.node (some ⟨nodeAddress, newEntry⟩)) next := by
    simp only [Tsearch.exec, returned, Option.join_some]
  have first : (⟨[.acquire {entryCell newEntry}], 0⟩ : Footprint HeapCell).Takes (heap root)
      (heap root + {entryCell newEntry}) := by
    simp only [Footprint.Takes, account_acquire, account_nil, add_zero]
  have second := ((footprint_takes made).1.map HeapCell.tree).frame
    (Multiset.ofList ((nodesOf root).map fun node => entryCell node.data) + {entryCell newEntry})
  rw [← add_assoc, ← entries_perm perm] at second
  have third : freeUnstored newEntry (tsearch nodeAddress newEntry (some root) compareEntries).1 =
      .none := by
    rw [returned]
    exact if_neg (not_not.mpr rfl)
  rw [third]
  exact first.append (second.append Footprint.takes_none)

/-- The entry that is removed, and its node. -/
theorem removed_takes {next : Root}
    (returned : tdelete node.data (some root) compareEntries = (some node.address, some next))
    (perm : (nodesOf root).Perm (node :: nodesOf next)) :
    (((Tsearch.footprint compareEntries root (.tdelete node.data)).map .tree).append
      ⟨[.release {entryCell node.data}], 0⟩).Takes (heap root) (heap next) := by
  have made : Tsearch.exec compareEntries root (.tdelete node.data) =
      .ok (.deleted (some node.address)) next := by
    simp only [Tsearch.exec, returned, Option.join_some]
  have first := ((footprint_takes made).1.map HeapCell.tree).frame
    (Multiset.ofList ((nodesOf root).map fun node => entryCell node.data))
  rw [entries_perm perm, ← add_assoc, ← add_assoc] at first
  have second : (⟨[.release {entryCell node.data}], 0⟩ : Footprint HeapCell).Takes
      (heap next + {entryCell node.data}) (heap next) := by
    simp only [Footprint.Takes, account_release, account_nil, add_zero]
  have whole : heap root = (cells root).map .tree +
      Multiset.ofList ((nodesOf next).map fun node => entryCell node.data) +
        {entryCell node.data} := by
    rw [heap, entries_perm perm, add_assoc]
  rw [whole]
  exact first.append second

/-! ### One call -/

/-- What a call leaves implements the map, and has on the heap what it should. -/
def Yields (root : Root) (call : Call) (next : Root) (directory : KvDirectory) : Prop :=
  (∃ present, Implements next present directory) ∧
    (heapFootprint root call).Takes (heap root) (heap next)

theorem Implements.storeKey (implements : Implements root present directory) {memory : NewMemory}
    {block : Nat} {bytes sequence : UInt64}
    (fresh : Fresh root (.storeKey memory key block bytes sequence)) :
    Alike (Yields root (.storeKey memory key block bytes sequence))
      (exec root (.storeKey memory key block bytes sequence))
      (execMap directory (.storeKey memory key block bytes sequence)) := by
  cases here : findEntryForKey root key with
  | some found =>
    have known := implements.find_some here
    obtain ⟨node, held, rfl, member, same⟩ := implements.node_of_find here
    have nothing : heapFootprint root (.storeKey memory key block bytes sequence) = .none := by
      simp only [heapFootprint, here]
    rcases lt_trichotomy sequence.toNat node.data.entry.sequence.toNat with older | equal | newer
    · have different : sequence ≠ node.data.entry.sequence := by rintro rfl; omega
      have notGreater : ¬ sequence > node.data.entry.sequence := by
        simp only [gt_iff_lt, UInt64.lt_iff_toNat_lt]; omega
      simp only [exec, Directory.storeKey, here, assert_true different, if_neg notGreater, bind,
        Except.bind, pure, Except.pure, execMap,
        KvDirectory.storeKey_older _ block bytes known older]
      refine .ok ⟨⟨present, implements⟩, ?_⟩
      rw [nothing]
      exact Footprint.takes_none
    · have same' : sequence = node.data.entry.sequence := UInt64.toNat_inj.mp equal
      have fails : ¬ sequence ≠ node.data.entry.sequence := not_not.mpr same'
      simp only [exec, Directory.storeKey, here, assert_false fails, bind, Except.bind, execMap,
        KvDirectory.storeKey_equal _ block bytes known same']
      exact .error
    · have different : sequence ≠ node.data.entry.sequence := by rintro rfl; omega
      have greater : sequence > node.data.entry.sequence := UInt64.lt_iff_toNat_lt.mpr newer
      simp only [exec, Directory.storeKey, here, assert_true different, if_pos greater, bind,
        Except.bind, pure, Except.pure, execMap,
        KvDirectory.storeKey_newer _ block bytes known newer]
      rw [← same] at nothing ⊢
      refine .ok ⟨⟨_, implements.written member rfl⟩, ?_⟩
      rw [nothing, heap_writeEntry]
      exact Footprint.takes_none
  | none =>
    have unknown := implements.find_none here
    obtain ⟨entry, nodeAddress⟩ := memory
    cases entry with
    | none =>
      have short : NewMemory.insertResult ⟨none, nodeAddress⟩ = .mallocNull := rfl
      simp only [exec, Directory.storeKey, here, execMap, short,
        KvDirectory.storeKey_mallocNull block bytes sequence unknown]
      exact .error
    | some address =>
      cases nodeAddress with
      | none =>
        have short : NewMemory.insertResult ⟨some address, none⟩ = .mallocNull := rfl
        simp only [exec, Directory.storeKey, here, execMap, short,
          KvDirectory.storeKey_mallocNull block bytes sequence unknown]
        exact .error
      | some nodeAddress =>
        have enough : NewMemory.insertResult ⟨some address, some nodeAddress⟩ = .inserted := rfl
        have absent : present ⟨address, ⟨key, sequence, block, bytes.toUInt16⟩⟩ = none := by
          have keyed : present ⟨address, ⟨key, sequence, block, bytes.toUInt16⟩⟩ =
            present (entryKey key) := implements.present_eq rfl
          rw [keyed, ← Option.map_eq_none_iff, ← implements.find, here]
        obtain ⟨next, returned, perm, implements'⟩ := @Implements.added _ _ _ implements address
          nodeAddress ⟨key, sequence, block, bytes.toUInt16⟩ absent
          fun node member equal => fresh node member (congrArg some equal.symm)
        simp only [exec, Directory.storeKey, here, returned, Option.join_some, execMap, enough,
          KvDirectory.storeKey_absent block bytes sequence unknown]
        refine .ok ⟨implements', ?_⟩
        simp only [heapFootprint, here]
        exact added_takes returned perm

theorem Implements.lookupKey (implements : Implements root present directory) (key : UInt64) :
    Alike (Yields root (.lookupKey key)) (exec root (.lookupKey key))
      (execMap directory (.lookupKey key)) := by
  have same : Directory.lookupKey root key = KvStore.lookupKey directory key := by
    cases here : findEntryForKey root key with
    | none => simp only [Directory.lookupKey, KvStore.lookupKey, here, implements.find_none here]
    | some found =>
      simp only [Directory.lookupKey, KvStore.lookupKey, here, implements.find_some here]
  simp only [exec, execMap, same]
  exact .ok ⟨⟨present, implements⟩, Footprint.takes_none⟩

theorem Implements.removeKey (implements : Implements root present directory) (key : UInt64) :
    Alike (Yields root (.removeKey key)) (exec root (.removeKey key))
      (execMap directory (.removeKey key)) := by
  cases here : findEntryForKey root key with
  | none =>
    simp only [exec, Directory.removeKey, here, execMap, KvStore.removeKey,
      implements.find_none here]
    refine .ok ⟨⟨present, implements⟩, ?_⟩
    simp only [heapFootprint, here]
    exact Footprint.takes_none
  | some found =>
    have known := implements.find_some here
    obtain ⟨node, held, rfl, member, same⟩ := implements.node_of_find here
    by_cases live : KvStore.isAllocated node.data.entry
    · have held' : present node.data = some node := (implements.present_eq same).trans held
      obtain ⟨next, returned, perm, implements'⟩ := implements.removed held'
      rw [same] at implements'
      simp only [exec, Directory.removeKey, here, live, not_true_eq_false, if_false, returned,
        Option.join_some, execMap, KvStore.removeKey_live known (KvStore.isAllocated_iff.mp live)]
      refine .ok ⟨implements', ?_⟩
      have taken := removed_takes returned perm
      simp only [heapFootprint, here, live, not_true_eq_false, if_false, returned]
      exact taken
    · simp only [exec, Directory.removeKey, here, execMap, KvStore.removeKey, known,
        if_pos live]
      refine .ok ⟨⟨present, implements⟩, ?_⟩
      simp only [heapFootprint, here, if_pos live]
      exact Footprint.takes_none

/-- A call of the tree and the same call of the map. -/
theorem Implements.step (implements : Implements root present directory) {call : Call}
    (fresh : Fresh root call) :
    Alike (Yields root call) (exec root call) (execMap directory call) := by
  cases call with
  | storeKey memory key block bytes sequence => exact implements.storeKey fresh
  | lookupKey key => exact implements.lookupKey key
  | removeKey key => exact implements.removeKey key

theorem Implements.yields (implements : Implements root present directory) {call : Call}
    {response : Response} {next : Root} (fresh : Fresh root call)
    (returned : exec root call = .ok response next) :
    ∃ directory', Yields root call next directory' := by
  have alike := implements.step fresh
  rw [returned] at alike
  generalize execMap directory call = result at alike
  cases alike with
  | ok yields => exact ⟨_, yields⟩

end Step

/-! ## Runs -/

/-- The tree implements some map. -/
def Sound (root : Root) : Prop := ∃ present directory, Implements root present directory

theorem implements_null : Implements none (fun _ => none) ⟨∅⟩ := by
  refine ⟨represents_null compareEntries Set.univ, ?_, ?_⟩
  · intro x
    exact (SearchTree.tfind_empty x.entry.keyId).symm
  · intro a member
    cases member

/-- Every run of the directory on `tsearch.cpp` ends as that of the finite map does, with the
same responses or in the same fault, and in the same entries. -/
theorem directory_on_tree {calls : List Call} (fresh : Allowed exec Fresh none calls) :
    Alike (fun root directory => ∀ key,
        (findEntryForKey root key).map EntryPtr.entry = directory.findEntryForKey key)
      (run exec none calls) (run execMap ⟨∅⟩ calls) := by
  have alike : Alike (fun root directory => ∃ present, Implements root present directory)
      (run exec none calls) (run execMap ⟨∅⟩ calls) :=
    run_simulates (fun ⟨_, implements⟩ now => (implements.step now).mono fun _ _ => And.left)
      ⟨_, implements_null⟩ fresh
  refine alike.mono ?_
  rintro root directory ⟨present, implements⟩ key
  exact implements.find_entry key

/-- Two keys; the entry of one is overwritten, that of the other removed. -/
def twoKeys : List Call :=
  [.storeKey ⟨some 100, some 200⟩ 1 0 5 1, .storeKey ⟨some 101, some 201⟩ 2 1 5 2,
    .storeKey ⟨none, none⟩ 1 2 7 3, .removeKey 2, .lookupKey 1]

theorem twoKeys_run : run exec none twoKeys = .ok
    [.stored ⟨0, true, UINT32_MAX⟩, .stored ⟨0, true, UINT32_MAX⟩, .stored ⟨0, true, 0⟩,
      .removed 0, .found (.ok (2, 7))]
    (some ⟨[⟨200, ⟨100, ⟨1, 3, 2, 7⟩⟩⟩], compareEntries⟩) := rfl

theorem twoKeys_fresh : Allowed exec Fresh none twoKeys := by
  refine .cons ?_ rfl (.cons ?_ rfl (.cons ?_ rfl (.cons trivial rfl (.cons trivial rfl trivial))))
  · show ∀ node ∈ _, _ ≠ _
    decide
  · show ∀ node ∈ _, _ ≠ _
    decide
  · show ∀ node ∈ _, _ ≠ _
    decide

/-- The map has overwritten and removed the same entries. -/
theorem directory_on_tree_two_keys : ∃ responses directory,
    run execMap ⟨∅⟩ twoKeys = .ok responses directory ∧
      directory.findEntryForKey 1 = some ⟨1, 3, 2, 7⟩ ∧ directory.findEntryForKey 2 = none := by
  have alike := directory_on_tree twoKeys_fresh
  rw [twoKeys_run] at alike
  generalize run execMap ⟨∅⟩ twoKeys = result at alike
  cases alike with
  | ok same => exact ⟨_, _, rfl, (same 1).symm, (same 2).symm⟩

/-! ## The end of the directory -/

theorem cleanup_takes (root : Root) :
    (cleanup root).Takes (heap root) 0 ∧ (cleanup root).loses = 0 := by
  obtain ⟨takes, freed, kept⟩ := tdestroy_takes root
  have first := (takes.map HeapCell.tree).frame
    (Multiset.ofList ((nodesOf root).map fun node => entryCell node.data))
  have second : (⟨((tdestroy root).1.map entryCell).map fun cell => .release {cell}, 0⟩ :
      Footprint HeapCell).Takes
      (0 + Multiset.ofList ((nodesOf root).map fun node => entryCell node.data)) 0 := by
    have entries : (tdestroy root).1.map entryCell =
        (nodesOf root).map fun node => entryCell node.data :=
      (congrArg (List.map entryCell) freed).trans List.map_map
    have each := account_release_each ((nodesOf root).map fun node => entryCell node.data)
    rw [zero_add, entries]
    exact each
  refine ⟨first.append second, ?_⟩
  simp only [cleanup, Footprint.append_loses, Footprint.map, kept, Multiset.map_zero, add_zero]

theorem freeUnstored_loses (root : Root) (nodeAddress : Nat) (newEntry : EntryPtr) :
    (freeUnstored newEntry
      (tsearch nodeAddress newEntry (some root) compareEntries).1).loses = 0 := by
  cases returned : (tsearch nodeAddress newEntry (some root) compareEntries).1 with
  | none =>
    simp only [tsearch] at returned
    split at returned <;> cases returned
  | some newNode =>
    simp only [freeUnstored]
    split <;> rfl

/-- Even with a tree that is none. -/
theorem heapFootprint_loses (root : Root) (call : Call) : (heapFootprint root call).loses = 0 := by
  cases call with
  | storeKey memory key block bytes sequence =>
    simp only [heapFootprint]
    cases findEntryForKey root key with
    | some found => rfl
    | none =>
      obtain ⟨entry, node⟩ := memory
      cases entry with
      | none => rfl
      | some address =>
        cases node with
        | none => rfl
        | some node =>
          simp only [Footprint.append_loses, freeUnstored_loses, Footprint.map, footprint_loses,
            Multiset.map_zero, add_zero]
  | lookupKey key => rfl
  | removeKey key =>
    simp only [heapFootprint]
    cases findEntryForKey root key with
    | none => rfl
    | some found =>
      dsimp only
      split
      · rfl
      · cases (tdelete found (some root) compareEntries).1 with
        | none => rfl
        | some deleted =>
          simp only [Footprint.append_loses, Footprint.map, footprint_loses, Multiset.map_zero,
            add_zero]

/-- At the end every entry, every node and the root are free: each of them was freed once. -/
theorem cleanup_frees_entries {calls : List Call} {responses : List Response} {last : Root}
    (fresh : Allowed exec Fresh none calls) (returned : run exec none calls = .ok responses last) :
    account 0 ((runFootprint exec heapFootprint none calls).append (cleanup last)).uses =
      some 0 := by
  have keeps : ∀ {root call response next}, Sound root → Fresh root call →
      exec root call = .ok response next → Sound next := by
    rintro root call response next ⟨present, directory, implements⟩ now ended
    obtain ⟨directory', ⟨present', implements'⟩, _⟩ := implements.yields now ended
    exact ⟨present', directory', implements'⟩
  have permitted : Allowed exec (fun root call => Sound root ∧ Fresh root call) none calls :=
    .of_invariant keeps (fun sound now => ⟨sound, now⟩) ⟨_, _, implements_null⟩ fresh
  have takes : ∀ {root call response next}, Sound root ∧ Fresh root call →
      exec root call = .ok response next →
      (heapFootprint root call).Takes (heap root) (heap next) := by
    rintro root call response next ⟨⟨present, directory, implements⟩, now⟩ ended
    obtain ⟨_, _, taken⟩ := implements.yields now ended
    exact taken
  have runs : (runFootprint exec heapFootprint none calls).Takes (heap none) (heap last) :=
    runFootprint_takes takes permitted returned
  have loses : (runFootprint exec heapFootprint none calls).loses = 0 :=
    (runFootprint_loses_iff (fun _ _ => False)
      (fun _ => iff_of_true (heapFootprint_loses _ _) id) returned).mpr fun _ _ => id
  obtain ⟨ends, kept⟩ := cleanup_takes last
  have all := runs.append ends
  rw [Footprint.Takes, Footprint.append_loses, loses, kept] at all
  exact all

theorem cleanup_frees_entries_two_keys :
    account 0 ((runFootprint exec heapFootprint none twoKeys).append
      (cleanup (some ⟨[⟨200, ⟨100, ⟨1, 3, 2, 7⟩⟩⟩], compareEntries⟩))).uses = some 0 :=
  cleanup_frees_entries twoKeys_fresh twoKeys_run

end KeyValueStore.Tsearch.Directory
