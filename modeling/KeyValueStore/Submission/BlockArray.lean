import KeyValueStore.Submission.Block

/-! # `kv_block_array.h`, `kv_block_array.c`

A file as an array of blocks.  Functions that deliver something on success return
`Except Int`, where `.error` holds the non-zero code; the file goes in and, for
`writeBlock`, comes out as the state. -/

namespace KeyValueStore

open ByteFile

structure KvBlockArray where
  rawBlockBytes : Nat
  /-- `none` for -1 -/
  fd : Option Nat
deriving DecidableEq

/-- The code that the functions return for `errno`. -/
def Errno.code (errno : Errno) : Int := (errno : Nat)

theorem Errno.code_ne_zero (errno : Errno) : errno.code ≠ 0 := by
  have positive : 0 < (errno : Nat) := errno.2
  simp only [Errno.code]
  omega

namespace KvBlockArray

def init (allocated : Bool) (rawBlockBytes : Nat) : Except Int KvBlockArray :=
  if allocated then .ok { rawBlockBytes := rawBlockBytes, fd := none } else .error (-ENOMEM)

/-- `open` with `O_CREAT | O_TRUNC` for `create`. -/
def «open» (array : KvBlockArray) (create : Bool) (result : OpenResult) (file : Bytes) :
    Int × KvBlockArray × Bytes :=
  match result with
  | .failed errno => (errno.code, { array with fd := none }, file)
  | .opened fd => (0, { array with fd := some fd }, if create then [] else file)

/-- `block * block_array->raw_block_bytes`, a `size_t`. -/
def byteOffset (array : KvBlockArray) (block : Nat) : Nat :=
  (block * array.rawBlockBytes) % 2 ^ 64

def getFileBlockCount (array : KvBlockArray) (seek : Except Errno Unit) (file : Bytes) :
    Except Int Nat :=
  match array.fd, seek with
  | none, _ => .error (-EBADF)
  | some _, .error errno => .error errno.code
  | some _, .ok () => .ok ((file.length / array.rawBlockBytes) % 2 ^ 32)

def readBlock (array : KvBlockArray) (result : ReadResult) (file : Bytes) (block : Nat) :
    Except Int Bytes :=
  match array.fd with
  | none => .error (-EBADF)
  | some _ =>
    -- `read` returns less at the end of the file.
    let available := readAt file (array.byteOffset block) array.rawBlockBytes
    let transferred (bytes : Bytes) : Except Int Bytes :=
      if bytes.length = array.rawBlockBytes then .ok bytes else .error (- EIO)
    match result with
    | .seekFailed errno => .error errno.code
    | .failed errno => .error errno.code
    | .full => transferred available
    | .short count => transferred (available.take count)

def writeBlock (array : KvBlockArray) (result : WriteResult) (destinationBlock : Nat)
    (blockData : Bytes) : EStateM Fault Bytes Int := fun file =>
  match array.fd with
  | none => .ok (-EBADF) file
  | some _ =>
    let after (count : Nat) : Bytes :=
      writeAt 0 file (array.byteOffset destinationBlock)
        ((blockData.take array.rawBlockBytes).take count)
    match result with
    | .seekFailed errno => .ok errno.code file
    | .failed errno count => .ok errno.code (after count)
    | .full => .ok 0 (after array.rawBlockBytes)
    -- What a short write has transferred stays in the file.
    | .short count =>
      .ok (if min count array.rawBlockBytes = array.rawBlockBytes then 0 else - EIO) (after count)
    | .stopped count => .error .stopped (after count)

end KvBlockArray

/-- The read brings in the whole block. -/
def ReadResult.Delivers : ReadResult → Prop
  | .full => True
  | .short count => sizeofKvBlock ≤ count
  | .failed _ | .seekFailed _ => False

/-- The write returned, having changed the whole block or nothing. -/
def WriteResult.AllOrNothing : WriteResult → Prop
  | .full => True
  | .short count => count = 0
  | .failed _ count => count = 0
  | .seekFailed _ => True
  | .stopped _ => False

end KeyValueStore
