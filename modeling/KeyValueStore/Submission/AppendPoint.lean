import KeyValueStore.Submission.BlockAllocator

/-! # `kv_append_point.h`, `kv_append_point.c`

Where the log grows next.  The pointer to the block allocator that the source keeps
in the append point is an argument here. -/

namespace KeyValueStore

structure KvAppendPoint where
  currentAppendPoint : Nat
  lastScannedSequenceNumber : UInt64
deriving DecidableEq

namespace KvAppendPoint

def init (allocated : Bool) : Except Int KvAppendPoint :=
  if allocated then .ok { currentAppendPoint := 0, lastScannedSequenceNumber := 0 }
  else .error (-ENOMEM)

def getAppendPoint (appendPoint : KvAppendPoint) (allocator : KvBlockAllocator) :
    Except Fault (Nat × KvAppendPoint) := do
  -- If we ran out of space before, start back at 0.
  let start :=
    if appendPoint.currentAppendPoint = UINT32_MAX then 0 else appendPoint.currentAppendPoint
  let block ← allocator.findNextFreeBlock start
  return (block, { appendPoint with currentAppendPoint := block })

def updateAppendPoint (appendPoint : KvAppendPoint) (block : Nat) (sequence : UInt64) :
    KvAppendPoint :=
  if sequence ≥ appendPoint.lastScannedSequenceNumber then
    { currentAppendPoint := block, lastScannedSequenceNumber := sequence }
  else appendPoint

/-- The append point is a block of the allocator, or marks a full log. -/
def InRange (appendPoint : KvAppendPoint) (allocator : KvBlockAllocator) : Prop :=
  appendPoint.currentAppendPoint ≤ allocator.numberOfBlocks ∨
    appendPoint.currentAppendPoint = UINT32_MAX

/-- Where the search of `getAppendPoint` starts. -/
def start (appendPoint : KvAppendPoint) : Nat :=
  if appendPoint.currentAppendPoint = UINT32_MAX then 0 else appendPoint.currentAppendPoint

/-- The free block that the append point stands for, if there is one. -/
def next (appendPoint : KvAppendPoint) (allocator : KvBlockAllocator) : Option Nat :=
  allocator.nextFree appendPoint.start

variable {appendPoint : KvAppendPoint} {allocator : KvBlockAllocator}

theorem InRange.start_le (inRange : appendPoint.InRange allocator) :
    appendPoint.start ≤ allocator.numberOfBlocks := by
  rw [start]
  rcases inRange with below | full
  · split <;> omega
  · rw [if_pos full]; omega

theorem getAppendPoint_eq (fits : allocator.Fits) (inRange : appendPoint.InRange allocator) :
    appendPoint.getAppendPoint allocator =
      .ok ((appendPoint.next allocator).getD UINT32_MAX,
        { appendPoint with
          currentAppendPoint := (appendPoint.next allocator).getD UINT32_MAX }) := by
  have searched := KvBlockAllocator.findNextFreeBlock_eq fits inRange.start_le
  simp only [start] at searched
  simp only [getAppendPoint, searched, bind, Except.bind, pure, Except.pure, next, start]

theorem next_free (inRange : appendPoint.InRange allocator) {d : Nat}
    (found : appendPoint.next allocator = some d) :
    d < allocator.numberOfBlocks ∧ d ∉ allocator.allocated :=
  KvBlockAllocator.nextFree_free inRange.start_le found

theorem next_eq_none (inRange : appendPoint.InRange allocator) :
    appendPoint.next allocator = none ↔ ∀ b, b < allocator.numberOfBlocks → b ∈ allocator.allocated :=
  KvBlockAllocator.nextFree_eq_none inRange.start_le

/-- Moving the append point to the block it stands for changes nothing. -/
theorem next_moved (inRange : appendPoint.InRange allocator) (fits : allocator.Fits) (scanned : UInt64) :
    next ⟨(appendPoint.next allocator).getD UINT32_MAX, scanned⟩ allocator =
      appendPoint.next allocator := by
  cases found : appendPoint.next allocator with
  | none =>
    have full := (next_eq_none inRange).mp found
    simp only [Option.getD_none, next, start, if_pos]
    exact (KvBlockAllocator.nextFree_eq_none (Nat.zero_le _)).mpr full
  | some d =>
    obtain ⟨small, free⟩ := next_free inRange found
    have notMax : d ≠ UINT32_MAX := by
      simp only [KvBlockAllocator.Fits, UINT32_MAX] at *
      omega
    simp only [Option.getD_some, next, start, if_neg notMax]
    exact KvBlockAllocator.nextFree_of_free small free

end KvAppendPoint

end KeyValueStore
