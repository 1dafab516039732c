import KeyValueStore.Lib.SearchTree
import KeyValueStore.Submission.Platform

/-! # `kv_directory.h`, `kv_directory.c`

The in-memory map from a key to the block of its latest version.  Deleted keys keep
an entry, with no data bytes.  The tree of the source is ordered by
`dirEntryCompare`, which is zero for equal key ids only (`dirEntryCompare_eq_zero`);
here it is the finite map that `tsearch` and `tfind` promise. -/

namespace KeyValueStore

open SearchTree

structure DirectoryEntry where
  keyId : UInt64
  sequence : UInt64
  dataBlock : Nat
  dataBytes : UInt16
deriving DecidableEq

def dirEntryCompare (a b : DirectoryEntry) : Int :=
  if a.keyId < b.keyId then -1 else if a.keyId > b.keyId then 1 else 0

theorem dirEntryCompare_eq_zero {a b : DirectoryEntry} :
    dirEntryCompare a b = 0 ↔ a.keyId = b.keyId := by
  simp only [dirEntryCompare, gt_iff_lt, UInt64.lt_iff_toNat_lt, ← UInt64.toNat_inj]
  split
  · simp; omega
  · split
    · simp; omega
    · simp; omega

structure KvDirectory where
  entriesRoot : Tree DirectoryEntry.keyId

namespace KvDirectory

def init (allocated : Bool) : Except Int KvDirectory :=
  if allocated then .ok { entriesRoot := ∅ } else .error (-ENOMEM)

def findEntryForKey (directory : KvDirectory) (key : UInt64) : Option DirectoryEntry :=
  tfind directory.entriesRoot key

/-- The code of `kv_directory__store_key` with its two out-parameters and the directory. -/
structure Stored where
  ret : Int
  directory : KvDirectory
  setAsCurrentKeyEntry : Bool
  replacedBlock : Nat

def storeKey (directory : KvDirectory) (insert : InsertResult) (key : UInt64) (block : Nat)
    (bytes sequence : UInt64) : Except Fault Stored :=
  match directory.findEntryForKey key with
  | some entry => do
    -- A sequence number should never be used more than once.
    assert .sequenceNotReused (sequence ≠ entry.sequence)
    -- Only update the entry if the new sequence is greater than the one stored.
    if sequence > entry.sequence then
      let replacement := { entry with
        sequence := sequence, dataBlock := block, dataBytes := bytes.toUInt16 }
      return ⟨0, ⟨assign directory.entriesRoot replacement⟩, true, entry.dataBlock⟩
    else
      return ⟨0, directory, false, UINT32_MAX⟩
  | none =>
    let newEntry := { keyId := key, sequence, dataBlock := block, dataBytes := bytes.toUInt16 }
    match insert with
    -- The new entry is filled in without a look at what `malloc` returned.
    | .mallocNull => .error .nullPointer
    | .tsearchNull => .ok ⟨-ENOMEM, directory, true, UINT32_MAX⟩
    | .inserted => .ok ⟨0, ⟨tsearch directory.entriesRoot newEntry⟩, true, UINT32_MAX⟩

/-- The block and size of the entry, or the code. -/
def lookupKey (directory : KvDirectory) (key : UInt64) : Except Int (Nat × UInt64) :=
  match directory.findEntryForKey key with
  | none => .error (-ENOENT)
  | some entry => .ok (entry.dataBlock, entry.dataBytes.toUInt64)

/-- The keys that have an entry, live or deleted. -/
def keys (directory : KvDirectory) : Finset UInt64 := directory.entriesRoot.keys

/-- The directory with `entry` in the place of its key. -/
def withEntry (directory : KvDirectory) (entry : DirectoryEntry) : KvDirectory :=
  ⟨assign directory.entriesRoot entry⟩

theorem keyId_of_find {directory : KvDirectory} {key : UInt64} {entry : DirectoryEntry}
    (found : directory.findEntryForKey key = some entry) : entry.keyId = key :=
  key_of_tfind found

theorem mem_keys {directory : KvDirectory} {key : UInt64} :
    key ∈ directory.keys ↔ ∃ entry, directory.findEntryForKey key = some entry :=
  SearchTree.mem_keys

@[simp] theorem find_withEntry (directory : KvDirectory) (entry : DirectoryEntry) (key : UInt64) :
    (directory.withEntry entry).findEntryForKey key =
      if key = entry.keyId then some entry else directory.findEntryForKey key :=
  tfind_assign directory.entriesRoot entry key

@[simp] theorem keys_withEntry (directory : KvDirectory) (entry : DirectoryEntry) :
    (directory.withEntry entry).keys = insert entry.keyId directory.keys :=
  keys_assign directory.entriesRoot entry

theorem ext_find {left right : KvDirectory}
    (same : ∀ key, left.findEntryForKey key = right.findEntryForKey key) : left = right := by
  cases left; cases right
  simp only [mk.injEq]
  exact ext_tfind same

/-! ## The outcomes of `storeKey`, one by one -/

section StoreKey

variable {directory : KvDirectory} {key : UInt64} {entry : DirectoryEntry}

theorem storeKey_newer (insert : InsertResult) (block : Nat) (bytes : UInt64) {sequence : UInt64}
    (found : directory.findEntryForKey key = some entry)
    (newer : entry.sequence.toNat < sequence.toNat) :
    directory.storeKey insert key block bytes sequence =
      .ok ⟨0, directory.withEntry ⟨key, sequence, block, bytes.toUInt16⟩, true, entry.dataBlock⟩ := by
  have different : sequence ≠ entry.sequence := by rintro rfl; omega
  have greater : sequence > entry.sequence := UInt64.lt_iff_toNat_lt.mpr newer
  simp only [storeKey, found, assert_true different, if_pos greater, bind, Except.bind, pure,
    Except.pure, withEntry]
  rw [keyId_of_find found]

theorem storeKey_older (insert : InsertResult) (block : Nat) (bytes : UInt64) {sequence : UInt64}
    (found : directory.findEntryForKey key = some entry)
    (older : sequence.toNat < entry.sequence.toNat) :
    directory.storeKey insert key block bytes sequence = .ok ⟨0, directory, false, UINT32_MAX⟩ := by
  have different : sequence ≠ entry.sequence := by rintro rfl; omega
  have notGreater : ¬ sequence > entry.sequence := by
    simp only [gt_iff_lt, UInt64.lt_iff_toNat_lt]; omega
  simp only [storeKey, found, assert_true different, if_neg notGreater, bind, Except.bind, pure,
    Except.pure]

theorem storeKey_equal (insert : InsertResult) (block : Nat) (bytes : UInt64) {sequence : UInt64}
    (found : directory.findEntryForKey key = some entry) (same : sequence = entry.sequence) :
    directory.storeKey insert key block bytes sequence =
      .error (.assertion .sequenceNotReused) := by
  have fails : ¬ sequence ≠ entry.sequence := not_not.mpr same
  simp only [storeKey, found, assert_false fails, bind, Except.bind]

theorem storeKey_absent (block : Nat) (bytes sequence : UInt64)
    (absent : directory.findEntryForKey key = none) :
    directory.storeKey .inserted key block bytes sequence =
      .ok ⟨0, directory.withEntry ⟨key, sequence, block, bytes.toUInt16⟩, true, UINT32_MAX⟩ := by
  have added : tsearch directory.entriesRoot ⟨key, sequence, block, bytes.toUInt16⟩ =
      assign directory.entriesRoot ⟨key, sequence, block, bytes.toUInt16⟩ :=
    tsearch_of_absent absent
  simp only [storeKey, absent, withEntry, added]

theorem storeKey_tsearchNull (block : Nat) (bytes sequence : UInt64)
    (absent : directory.findEntryForKey key = none) :
    directory.storeKey .tsearchNull key block bytes sequence =
      .ok ⟨-ENOMEM, directory, true, UINT32_MAX⟩ := by
  simp only [storeKey, absent]

theorem storeKey_mallocNull (block : Nat) (bytes sequence : UInt64)
    (absent : directory.findEntryForKey key = none) :
    directory.storeKey .mallocNull key block bytes sequence = .error .nullPointer := by
  simp only [storeKey, absent]

end StoreKey

end KvDirectory

end KeyValueStore
