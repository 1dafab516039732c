import KeyValueStore.Submission.Store

/-! # `KvStore.cpp` of `kv_pp`, and its C port `kv_store_class.c`

The store that `submission` grew out of.  It has one block more than it has keys, a
deletion removes the entry of its key, and the counter of sequence numbers is not taken
from the file when a store is opened.

Blocks, block arrays, allocators, append points and `store_key` are, statement for
statement, those of the other modules; here is what differs.  Where the C++ and the C
text differ from each other a function takes the `Port`.  Two members of the class that
no function reads (`_current_append_point`, `_last_scanned_sequence_number`) are left
out.  A `new` that throws ends a run like the use of a `malloc` that failed. -/

namespace KeyValueStore.KvStore

open SearchTree

/-- The text that is compiled: `kv_pp`, or `kv_store_class.c`. -/
inductive Port where
  | cpp
  | c
deriving DecidableEq

/-! ## The directory -/

/-- `directory_entry::is_allocated` -/
def isAllocated (entry : DirectoryEntry) : Bool := decide (entry.dataBytes > 0)

/-- A deletion counts as no entry. -/
def lookupKey (directory : KvDirectory) (key : UInt64) : Except Int (Nat × UInt64) :=
  match directory.findEntryForKey key with
  | none => .error (-ENOENT)
  | some entry =>
    if ¬ isAllocated entry then .error (-ENOENT)
    else .ok (entry.dataBlock, entry.dataBytes.toUInt64)

/-- The code, and the directory. -/
def removeKey (directory : KvDirectory) (key : UInt64) : Int × KvDirectory :=
  match directory.findEntryForKey key with
  | none => (-ENOENT, directory)
  | some entry =>
    if ¬ isAllocated entry then (-ENOENT, directory)
    else
      match tdelete directory.entriesRoot entry.keyId with
      | none => (-EFAULT, directory)
      | some entriesRoot => (0, ⟨entriesRoot⟩)

/-- The directory without the entry of `key`. -/
def without (directory : KvDirectory) (key : UInt64) : KvDirectory :=
  ⟨directory.entriesRoot.erase key⟩

@[simp] theorem find_without (directory : KvDirectory) (key key' : UInt64) :
    (without directory key).findEntryForKey key' =
      if key' = key then none else directory.findEntryForKey key' :=
  tfind_erase directory.entriesRoot key key'

theorem isAllocated_iff {entry : DirectoryEntry} :
    isAllocated entry = true ↔ entry.dataBytes ≠ 0 := by
  simp only [isAllocated, decide_eq_true_eq, gt_iff_lt, UInt16.lt_iff_toNat_lt, Ne,
    ← UInt16.toNat_inj, UInt16.toNat_zero]
  omega

theorem lookupKey_live {directory : KvDirectory} {key : UInt64} {entry : DirectoryEntry}
    (found : directory.findEntryForKey key = some entry) (live : entry.dataBytes ≠ 0) :
    lookupKey directory key = .ok (entry.dataBlock, entry.dataBytes.toUInt64) := by
  simp only [lookupKey, found, isAllocated_iff.mpr live, not_true_eq_false, if_false]

theorem lookupKey_deleted {directory : KvDirectory} {key : UInt64} {entry : DirectoryEntry}
    (found : directory.findEntryForKey key = some entry) (deleted : entry.dataBytes = 0) :
    lookupKey directory key = .error (-ENOENT) := by
  have notLive : ¬ isAllocated entry = true := fun live => isAllocated_iff.mp live deleted
  simp only [lookupKey, found, if_pos notLive]

theorem lookupKey_absent {directory : KvDirectory} {key : UInt64}
    (absent : directory.findEntryForKey key = none) :
    lookupKey directory key = .error (-ENOENT) := by
  simp only [lookupKey, absent]

theorem removeKey_live {directory : KvDirectory} {key : UInt64} {entry : DirectoryEntry}
    (found : directory.findEntryForKey key = some entry) (live : entry.dataBytes ≠ 0) :
    removeKey directory key = (0, without directory key) := by
  have deleted : tdelete directory.entriesRoot key = some (directory.entriesRoot.erase key) :=
    tdelete_of_found found
  simp only [removeKey, found, isAllocated_iff.mpr live, not_true_eq_false, if_false,
    KvDirectory.keyId_of_find found, deleted, without]

/-! ## Opening and scan -/

/-- What the environment decides during `open`.  `arrayRet` is what stands where
`kv_block_array__init` of the port, which has no last `return`, would have left its
result. -/
structure OpenEnv extends KeyValueStore.OpenEnv where
  arrayRet : Int

/-- The constructor of `KvStore`, or `kv_store__init`. -/
def init : Port → OpenEnv → Except Fault (Except Int KvStor)
  | .cpp, env =>
    let mallocs := env.mallocs
    if mallocs.stor ∧ mallocs.blockAllocator ∧ mallocs.bits ∧ mallocs.blockArray ∧
        mallocs.directory ∧ mallocs.appendPoint then do
      match ← KvBlockAllocator.init true true (MAXKEYS + 1) with
      | .error ret => return .error ret
      | .ok blockAllocator => return do
        let blockArray ← KvBlockArray.init true sizeofKvBlock
        let directory ← KvDirectory.init true
        let appendPoint ← KvAppendPoint.init true
        .ok { blockArray, directory, blockAllocator, appendPoint, currentSequenceNumber := 0 }
    -- One of the calls of `new` throws.
    else .error .nullPointer
  | .c, env => do
    if ¬ env.mallocs.stor then return .error (-ENOMEM)
    match ← KvBlockAllocator.init env.mallocs.blockAllocator env.mallocs.bits (MAXKEYS + 1) with
    | .error ret => return .error ret
    | .ok blockAllocator => return do
      let blockArray ← KvBlockArray.init env.mallocs.blockArray sizeofKvBlock
      if env.arrayRet ≠ 0 then .error env.arrayRet
      let directory ← KvDirectory.init env.mallocs.directory
      let appendPoint ← KvAppendPoint.init env.mallocs.appendPoint
      .ok { blockArray, directory, blockAllocator, appendPoint, currentSequenceNumber := 0 }

/-- The body of the loop of `scan` for a block that is valid.  The sequence number goes
to the append point alone. -/
def scanBlock (insert : InsertResult) (b : Nat) (header : KvBlockHeader) (stor : KvStor) :
    Except Fault (Int × KvStor) := do
  let stored ← stor.directory.storeKey insert header.keyId b header.dataBytes.toUInt64
    header.sequence
  if stored.ret ≠ 0 then return (stored.ret, { stor with directory := stored.directory })
  let freed ← freeReplaced stor.blockAllocator stored.replacedBlock
  -- The block of a deletion is not marked.
  let marked ←
    if stored.setAsCurrentKeyEntry ∧ header.dataBytes > 0 then freed.markBlockAsAllocated b
    else .ok freed
  return (0,
    { stor with
      directory := stored.directory
      blockAllocator := marked
      appendPoint := stor.appendPoint.updateAppendPoint b header.sequence })

/-- The loop of `scan`: `remaining` rounds from block `b`. -/
def scanFrom (env : OpenEnv) (file : Bytes) :
    (remaining b : Nat) → KvStor → Except Fault (Int × KvStor)
  | 0, _, stor => .ok (0, stor)
  | remaining + 1, b, stor =>
    match stor.blockArray.readBlock (env.read b) file b with
    | .error ret => .ok (ret, stor)
    | .ok bytes =>
      let block := KvBlock.ofBytes bytes
      if block.validate then
        match scanBlock (env.insert b) b block.header stor with
        | .error fault => .error fault
        | .ok (ret, next) =>
          if ret ≠ 0 then .ok (ret, next) else scanFrom env file remaining (b + 1) next
      else scanFrom env file remaining (b + 1) stor

/-- `KvStore::scan`, `kv_store__scan` -/
def scan (env : OpenEnv) (file : Bytes) (stor : KvStor) : Except Fault (Int × KvStor) :=
  match stor.blockArray.getFileBlockCount env.seekEnd file with
  | .error ret => .ok (ret, stor)
  | .ok totalBlocks => scanFrom env file totalBlocks 0 stor

/-- `KvStore::open` of a new `KvStore`, or `kv_open`. -/
def «open» (port : Port) (create : Bool) (argc : Nat) (env : OpenEnv) : StoreM Int := do
  -- Only the port is given `argc`.
  if port = .c ∧ argc < 2 then return -EINVAL
  match ← lift (init port env) with
  | .error ret => return ret
  | .ok stor =>
    let (ret, blockArray, file) := stor.blockArray.open create env.open (← getFile)
    let stor := { stor with blockArray := blockArray }
    setStor stor
    onFile (set file)
    if ret ≠ 0 then return ret
    if ¬ create then
      let (ret, stor) ← lift (scan env file stor)
      setStor stor
      return ret
    return 0

/-! ## Get, set, delete -/

/-- The value that was copied is no longer than the buffer. -/
theorem size_le_copied {v : Value} {storedValueSize : UInt64} (small : ¬ v.size < storedValueSize)
    (copied : { result : Bytes // result.length = v.data.length }) :
    storedValueSize.toNat ≤ copied.1.length := by
  rw [copied.2]
  have fits := v.size_le
  rw [UInt64.lt_iff_toNat_lt] at small
  omega

/-- `KvStore::get`, `kv_get`; `allocated` says whether there is memory for a block. -/
def get (allocated : Bool) (read : ReadResult) (stor : KvStor) (file : Bytes) (key : UInt64)
    (v : Value) : Except Fault (Int × Value) :=
  match lookupKey stor.directory key with
  | .error ret => .ok (ret, v)
  | .ok (block, storedValueSize) =>
    if small : v.size < storedValueSize then .ok (-EINVAL, v)
    else if ¬ allocated then .error .nullPointer
    else
      match stor.blockArray.readBlock read file block with
      | .error ret => .ok (ret, v)
      | .ok bytes =>
        let blockData := KvBlock.ofBytes bytes
        if ¬ blockData.validate then .ok (-EFAULT, v)
        else do
          let copied ← memcpy v.data blockData.data storedValueSize.toNat
          return (0,
            { size := storedValueSize
              data := copied.1
              size_le := size_le_copied small copied })

/-- What the environment decides while a block is appended. -/
structure BlockWrite extends KeyValueStore.BlockWrite where
  allocated : Bool

/-- `KvStore::set`, `kv_set`; there is no value if the pointer to it is NULL.  From the new
sequence number on the statements are those of `kvAppend`. -/
def set (port : Port) (env : BlockWrite) (key : UInt64) (v : Option Value) : StoreM Int :=
  match v with
  | none =>
    match port with
    | .cpp => return -EINVAL
    -- `v->size`
    | .c => lift (.error .nullPointer)
  | some v => do
    if v.size.toNat = 0 ∨ v.size.toNat > MAXBLOB then return -EINVAL
    -- By now the source has taken the sequence number, but nothing of that is left.
    if ¬ env.allocated then lift (.error .nullPointer)
    kvAppend env.toBlockWrite key v.size (some v.data)

/-- `KvStore::del`, `kv_del` -/
def del (env : BlockWrite) (key : UInt64) : StoreM Int := do
  let stor ← getStor
  match lookupKey stor.directory key with
  | .error ret => return ret
  | .ok (oldBlock, _) =>
    if ¬ env.allocated then lift (.error .nullPointer)
    -- `current_sequence_number++`: the block gets the number that is there.
    let mySequence := stor.currentSequenceNumber
    setStor { stor with currentSequenceNumber := mySequence + 1 }
    let blockData ← lift (env.memory.init key 0 none mySequence)
    let (destinationBlock, appendPoint) ← lift (stor.appendPoint.getAppendPoint stor.blockAllocator)
    setStor { stor with currentSequenceNumber := mySequence + 1, appendPoint := appendPoint }
    if destinationBlock = UINT32_MAX then return -ENOSPC
    let ret ← onFile (stor.blockArray.writeBlock env.write destinationBlock blockData.toBytes)
    if ret ≠ 0 then return ret
    let (ret, directory) := removeKey stor.directory key
    setStor { stor with
      currentSequenceNumber := mySequence + 1, appendPoint := appendPoint, directory := directory }
    if ret ≠ 0 then return ret
    let freed ← lift (stor.blockAllocator.freeBlock oldBlock)
    -- The block with the deletion is not marked.
    setStor { stor with
      currentSequenceNumber := mySequence + 1
      appendPoint := appendPoint
      directory := directory
      blockAllocator := freed }
    return 0

end KeyValueStore.KvStore
