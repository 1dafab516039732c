import Mathlib.Algebra.Group.Nat.Defs
import Mathlib.Data.PNat.Notation
import KeyValueStore.Lib.ByteFile

/-! # What the store stands on

Error numbers, the ways a C call can end without returning, and the outcomes of the
system calls and allocations that the environment chooses.  A file is the list of
its bytes; files and stores are 64-bit, so `size_t` is `UInt64` and block numbers,
which are `uint32_t` in the source, are naturals with `UINT32_MAX` as the marker. -/

namespace KeyValueStore

abbrev Bytes := List UInt8

def ENOENT : Int := 2
def EIO : Int := 5
def EBADF : Int := 9
def ENOMEM : Int := 12
def EFAULT : Int := 14
def EINVAL : Int := 22
def ENOSPC : Int := 28

def UINT32_MAX : Nat := 4294967295

/-- `errno` after a failed system call. -/
abbrev Errno := ℕ+

/-- The assertions of the store, one for each condition asserted. -/
inductive Assertion where
  /-- `sequence != entry->sequence` -/
  | sequenceNotReused
  /-- `set_as_latest_entry_for_key` -/
  | setAsLatestEntryForKey
  /-- `block < block_allocator->number_of_blocks` -/
  | blockInRange
  /-- `starting_block <= block_allocator->number_of_blocks` -/
  | startingBlockInRange
  /-- `data_bytes <= 4096` -/
  | dataBytesFit
deriving DecidableEq, Repr

/-- Why a call does not return: `outOfBounds` is a `memcpy` past one of its objects,
`bitmapOutOfBounds` an index past the bitmap, `nullPointer` the use of a `malloc` that
failed and `stopped` the process being killed from outside. -/
inductive Fault where
  | assertion (which : Assertion)
  | outOfBounds
  | bitmapOutOfBounds
  | nullPointer
  | stopped
deriving DecidableEq, Repr

/-- `assert(condition)` -/
def assert (which : Assertion) (condition : Prop) [Decidable condition] : Except Fault Unit :=
  if condition then .ok () else .error (.assertion which)

/-- `memcpy` into a buffer: the sizes of both sides are those of their objects. -/
def memcpy (target source : Bytes) (count : Nat) :
    Except Fault { result : Bytes // result.length = target.length } :=
  if fits : count ≤ source.length ∧ count ≤ target.length then
    .ok ⟨source.take count ++ target.drop count, by simp; omega⟩
  else .error .outOfBounds

/-! ## Outcomes chosen by the environment -/

/-- `lseek` followed by `read`.  Even a `full` read ends at the end of the file. -/
inductive ReadResult where
  | full
  | short (count : Nat)
  | failed (errno : Errno)
  | seekFailed (errno : Errno)
deriving DecidableEq

/-- `lseek` followed by `write`.  A failed write may have changed the first `count`
bytes of its range; `stopped` kills the process when that many have been changed. -/
inductive WriteResult where
  | full
  | short (count : Nat)
  | failed (errno : Errno) (count : Nat)
  | seekFailed (errno : Errno)
  | stopped (count : Nat)
deriving DecidableEq

inductive OpenResult where
  | opened (fd : Nat)
  | failed (errno : Errno)
deriving DecidableEq

/-- Adding a directory entry: its `malloc`, then the node of `tsearch`. -/
inductive InsertResult where
  | inserted
  | mallocNull
  | tsearchNull
deriving DecidableEq

@[simp] theorem assert_true {which : Assertion} {condition : Prop} [Decidable condition]
    (holds : condition) : assert which condition = .ok () := if_pos holds

@[simp] theorem assert_false {which : Assertion} {condition : Prop} [Decidable condition]
    (fails : ¬ condition) : assert which condition = .error (.assertion which) := if_neg fails

theorem memcpy_eq {target source : Bytes} {count : Nat} (fromSource : count ≤ source.length)
    (intoTarget : count ≤ target.length) :
    memcpy target source count =
      .ok ⟨source.take count ++ target.drop count, by simp; omega⟩ :=
  dif_pos ⟨fromSource, intoTarget⟩

end KeyValueStore
