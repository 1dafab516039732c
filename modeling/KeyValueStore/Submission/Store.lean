import KeyValueStore.Submission.AppendPoint
import KeyValueStore.Submission.BlockArray
import KeyValueStore.Submission.Directory

/-! # `kv_store.h`, `kv_store.c`, `kv_store_replay.c`

The public operations.  A `Machine` is a process with its store and the file it has
open; a call either returns or faults, and in both cases leaves a machine behind, of
which only the file survives a fault.

`kv_set` and `kv_del` run through the same statements once their arguments are
checked: these are `kvAppend`.  `BlockWrite` is what the environment decides in one
such pass. -/

namespace KeyValueStore

def MAXKEYS : Nat := 100000

structure KvStor where
  blockArray : KvBlockArray
  directory : KvDirectory
  blockAllocator : KvBlockAllocator
  appendPoint : KvAppendPoint
  currentSequenceNumber : UInt64

/-- `struct value`: a buffer of at least `size` bytes. -/
structure Value where
  size : UInt64
  data : Bytes
  size_le : size.toNat ≤ data.length

structure Machine where
  file : Bytes
  stor : KvStor
  /-- The last `kv_open` returned 0 and `kv_close` has not been called since. -/
  opened : Bool

abbrev StoreM := EStateM Fault Machine

/-! ## Plumbing -/

/-- A check or computation that does not touch the machine. -/
def lift {α : Type} (result : Except Fault α) : StoreM α := fun machine =>
  match result with
  | .ok value => .ok value machine
  | .error fault => .error fault machine

def getStor : StoreM KvStor := fun machine => .ok machine.stor machine

def setStor (stor : KvStor) : StoreM Unit := fun machine => .ok () { machine with stor := stor }

def getFile : StoreM Bytes := fun machine => .ok machine.file machine

/-- A computation on the file alone. -/
def onFile {α : Type} (action : EStateM Fault Bytes α) : StoreM α := fun machine =>
  match action machine.file with
  | .ok value file => .ok value { machine with file := file }
  | .error fault file => .error fault { machine with file := file }

section Apply

variable {α β : Type} (m : Machine)

@[simp] theorem lift_ok (value : α) : lift (.ok value) m = .ok value m := rfl

@[simp] theorem lift_error (fault : Fault) : lift (.error fault : Except Fault α) m = .error fault m :=
  rfl

@[simp] theorem getStor_apply : getStor m = .ok m.stor m := rfl

@[simp] theorem setStor_apply (stor : KvStor) : setStor stor m = .ok () { m with stor := stor } := rfl

@[simp] theorem getFile_apply : getFile m = .ok m.file m := rfl

@[simp] theorem onFile_set (file : Bytes) : onFile (set file) m = .ok () { m with file := file } :=
  rfl

@[simp] theorem pure_apply (value : α) : (pure value : StoreM α) m = .ok value m := rfl

@[simp] theorem bind_apply (action : StoreM α) (rest : α → StoreM β) :
    (action >>= rest) m =
      match action m with
      | .ok value next => rest value next
      | .error fault next => .error fault next := by
  cases result : action m <;> simp only [bind, EStateM.bind, result]

@[simp] theorem map_apply (f : α → β) (action : StoreM α) :
    (f <$> action) m =
      match action m with
      | .ok value next => .ok (f value) next
      | .error fault next => .error fault next := by
  cases result : action m <;> simp only [Functor.map, EStateM.map, result]

end Apply

/-! ## Opening and replay -/

/-- Whether each `malloc` of `kv_store__init` delivers. -/
structure InitMallocs where
  stor : Bool
  blockAllocator : Bool
  bits : Bool
  blockArray : Bool
  directory : Bool
  appendPoint : Bool

/-- What the environment decides during `kv_open`: `read` and `insert` by block number. -/
structure OpenEnv where
  mallocs : InitMallocs
  «open» : OpenResult
  seekEnd : Except Errno Unit
  read : Nat → ReadResult
  insert : Nat → InsertResult

def kvStoreInit (mallocs : InitMallocs) : Except Fault (Except Int KvStor) := do
  if ¬ mallocs.stor then return .error (-ENOMEM)
  -- The allocator's two allocations come first, and only one of them is checked.
  match ← KvBlockAllocator.init mallocs.blockAllocator mallocs.bits (2 * MAXKEYS + 1) with
  | .error ret => return .error ret
  | .ok blockAllocator => return do
    let blockArray ← KvBlockArray.init mallocs.blockArray sizeofKvBlock
    let directory ← KvDirectory.init mallocs.directory
    let appendPoint ← KvAppendPoint.init mallocs.appendPoint
    .ok { blockArray, directory, blockAllocator, appendPoint, currentSequenceNumber := 0 }

/-- `if (replaced_block != UINT32_MAX) kv_block_allocator__free_block(…)` -/
def freeReplaced (allocator : KvBlockAllocator) (replacedBlock : Nat) :
    Except Fault KvBlockAllocator :=
  if replacedBlock ≠ UINT32_MAX then allocator.freeBlock replacedBlock else .ok allocator

/-- The body of the replay loop for a block that is valid. -/
def replayBlock (insert : InsertResult) (b : Nat) (header : KvBlockHeader) (stor : KvStor) :
    Except Fault (Int × KvStor) := do
  let stored ← stor.directory.storeKey insert header.keyId b header.dataBytes.toUInt64
    header.sequence
  if stored.ret ≠ 0 then return (stored.ret, { stor with directory := stored.directory })
  -- A block for a previous version of this key was replaced.
  let freed ← freeReplaced stor.blockAllocator stored.replacedBlock
  -- Only mark the block allocated if it is the latest version.
  let marked ← if stored.setAsCurrentKeyEntry then freed.markBlockAsAllocated b else .ok freed
  return (0,
    { stor with
      directory := stored.directory
      blockAllocator := marked
      appendPoint := stor.appendPoint.updateAppendPoint b header.sequence
      -- Keep the sequence number one ahead of the highest sequence seen.
      currentSequenceNumber :=
        if header.sequence ≥ stor.currentSequenceNumber then header.sequence + 1
        else stor.currentSequenceNumber })

/-- The replay loop: `remaining` rounds from block `b`. -/
def replayFrom (env : OpenEnv) (file : Bytes) :
    (remaining b : Nat) → KvStor → Except Fault (Int × KvStor)
  | 0, _, stor => .ok (0, stor)
  | remaining + 1, b, stor =>
    match stor.blockArray.readBlock (env.read b) file b with
    | .error ret => .ok (ret, stor)
    | .ok bytes =>
      let block := KvBlock.ofBytes bytes
      -- Only evaluate the block if it is valid.
      if block.validate then
        match replayBlock (env.insert b) b block.header stor with
        | .error fault => .error fault
        | .ok (ret, next) =>
          if ret ≠ 0 then .ok (ret, next) else replayFrom env file remaining (b + 1) next
      else replayFrom env file remaining (b + 1) stor

def kvStoreReplayLog (env : OpenEnv) (file : Bytes) (stor : KvStor) :
    Except Fault (Int × KvStor) :=
  match stor.blockArray.getFileBlockCount env.seekEnd file with
  | .error ret => .ok (ret, stor)
  | .ok totalBlocks => replayFrom env file totalBlocks 0 stor

def kvOpen (create : Bool) (argc : Nat) (env : OpenEnv) : StoreM Int := do
  if argc < 2 then return -EINVAL
  match ← lift (kvStoreInit env.mallocs) with
  | .error ret => return ret
  | .ok stor =>
    let (ret, blockArray, file) := stor.blockArray.open create env.open (← getFile)
    let stor := { stor with blockArray := blockArray }
    setStor stor
    onFile (set file)
    if ret ≠ 0 then return ret
    -- A new log has nothing to replay.
    if create then return 0
    let (ret, stor) ← lift (kvStoreReplayLog env file stor)
    setStor stor
    return ret

/-- The memory of the store is gone; only the file is left. -/
def kvClose : StoreM Unit := fun machine =>
  .ok () { machine with
    stor := { machine.stor with blockArray := { machine.stor.blockArray with fd := none } }
    opened := false }

/-! ## Get, set, delete -/

def kvGet (read : ReadResult) (stor : KvStor) (file : Bytes) (key : UInt64) (v : Value) :
    Except Fault (Int × Value) :=
  match stor.directory.lookupKey key with
  | .error ret => .ok (ret, v)
  | .ok (block, storedValueSize) =>
    -- This is an entry for a deleted key.
    if storedValueSize = 0 then .ok (-ENOENT, v)
    else if small : v.size < storedValueSize then .ok (-EINVAL, v)
    else
      match stor.blockArray.readBlock read file block with
      | .error ret => .ok (ret, v)
      | .ok bytes =>
        let blockData := KvBlock.ofBytes bytes
        if ¬ blockData.validate then .ok (-EFAULT, v)
        else do
          let copied ← memcpy v.data blockData.data storedValueSize.toNat
          return (0,
            { size := storedValueSize
              data := copied.1
              size_le := by
                rw [copied.2]
                have fits := v.size_le
                rw [UInt64.lt_iff_toNat_lt] at small
                omega })

/-- What the environment decides while a block is appended: what the block's memory
held before it was initialised, and the outcomes of the write and the insertion. -/
structure BlockWrite where
  memory : KvBlock
  write : WriteResult
  insert : InsertResult

/-- The statements that `kv_set` and `kv_del` share, from the new sequence number on. -/
def kvAppend (env : BlockWrite) (key size : UInt64) (valueData : Option Bytes) : StoreM Int := do
  let stor ← getStor
  -- The sequence number is taken even if the call fails later.
  let mySequence := stor.currentSequenceNumber + 1
  setStor { stor with currentSequenceNumber := mySequence }
  let blockData ← lift (env.memory.init key size.toUInt32 valueData mySequence)
  let (destinationBlock, appendPoint) ← lift (stor.appendPoint.getAppendPoint stor.blockAllocator)
  -- So is the move of the append point.
  setStor { stor with currentSequenceNumber := mySequence, appendPoint := appendPoint }
  if destinationBlock = UINT32_MAX then return -ENOSPC
  let ret ← onFile (stor.blockArray.writeBlock env.write destinationBlock blockData.toBytes)
  -- From here on the block stays in the file, whatever is returned.
  if ret ≠ 0 then return ret
  let stored ← lift (stor.directory.storeKey env.insert key destinationBlock size mySequence)
  setStor { stor with
    currentSequenceNumber := mySequence, appendPoint := appendPoint, directory := stored.directory }
  if stored.ret ≠ 0 then return stored.ret
  -- The replaced block is freed before the assertion is made.
  let freed ← lift (freeReplaced stor.blockAllocator stored.replacedBlock)
  lift (assert .setAsLatestEntryForKey (stored.setAsCurrentKeyEntry = true))
  let marked ← lift (freed.markBlockAsAllocated destinationBlock)
  setStor { stor with
    currentSequenceNumber := mySequence
    appendPoint := appendPoint
    directory := stored.directory
    blockAllocator := marked }
  return 0

def kvSet (env : BlockWrite) (key : UInt64) (v : Value) : StoreM Int := do
  if v.size.toNat = 0 ∨ v.size.toNat > MAXBLOB then return -EINVAL
  kvAppend env key v.size (some v.data)

def kvDel (env : BlockWrite) (key : UInt64) : StoreM Int := do
  match (← getStor).directory.lookupKey key with
  | .error ret => return ret
  | .ok (_, size) =>
    -- This is an entry for a deleted key.
    if size = 0 then return -ENOENT
    kvAppend env key 0 none

end KeyValueStore
