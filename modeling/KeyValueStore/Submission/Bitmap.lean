import KeyValueStore.Lib.Runs
import KeyValueStore.Submission.AppendPoint

/-! # The bitmap as a set of blocks

Calls of `kv_block_allocator__mark_block_as_allocated` and `kv_block_allocator__free_block`
in any order: every bit says what the last call for its block did (`bitmap_refines_set`).
`first_free_search` is about the search for a free block, whatever the bits are. -/

namespace KeyValueStore

open Runs CyclicSearch

/-! ## Histories of the bitmap -/

inductive BitCall where
  | markBlockAsAllocated (block : Nat)
  | freeBlock (block : Nat)
deriving DecidableEq

namespace BitCall

def block : BitCall → Nat
  | markBlockAsAllocated block | freeBlock block => block

/-- What the call leaves in the bit. -/
def marks : BitCall → Bool
  | markBlockAsAllocated _ => true
  | freeBlock _ => false

def perform (allocator : KvBlockAllocator) : BitCall → Except Fault KvBlockAllocator
  | markBlockAsAllocated block => allocator.markBlockAsAllocated block
  | freeBlock block => allocator.freeBlock block

def issue (allocator : KvBlockAllocator) (call : BitCall) :
    EStateM.Result Fault KvBlockAllocator Unit :=
  match call.perform allocator with
  | .ok next => .ok () next
  | .error fault => .error fault allocator

theorem marks_iff {call : BitCall} {b : Nat} (here : call.block = b) :
    call.marks = decide (call = .markBlockAsAllocated b) := by
  subst here
  cases call <;> simp [marks, block]

end BitCall

open BitCall

section Bitmap

variable {allocator : KvBlockAllocator} {call : BitCall}

/-- The set that a call leaves. -/
theorem BitCall.perform_spec (fits : allocator.Fits) (inside : call.block < allocator.numberOfBlocks) :
    ∃ next, call.perform allocator = .ok next ∧ next.numberOfBlocks = allocator.numberOfBlocks ∧
      ∀ b, b ∈ next.allocated ↔
        if b = call.block then call.marks = true else b ∈ allocator.allocated := by
  cases call with
  | markBlockAsAllocated block =>
    obtain ⟨next, returned, size, set⟩ := KvBlockAllocator.markBlockAsAllocated_spec fits inside
    refine ⟨next, returned, size, fun b => ?_⟩
    rw [set, Finset.mem_insert]
    by_cases here : b = block <;> simp [here, BitCall.block, marks]
  | freeBlock block =>
    obtain ⟨next, returned, size, set⟩ := KvBlockAllocator.freeBlock_spec fits inside
    refine ⟨next, returned, size, fun b => ?_⟩
    rw [set, Finset.mem_erase]
    by_cases here : b = block <;> simp [here, BitCall.block, marks]

/-- A call sets its own bit, and no other changes. -/
theorem BitCall.issue_spec (fits : allocator.Fits) (inside : call.block < allocator.numberOfBlocks) :
    ∃ next, issue allocator call = .ok () next ∧
      next.numberOfBlocks = allocator.numberOfBlocks ∧
      next.isSet call.block = .ok call.marks ∧
      ∀ b, b ≠ call.block → next.isSet b = allocator.isSet b := by
  obtain ⟨next, returned, size, set⟩ := perform_spec fits inside
  have fits' : next.Fits := by
    rw [KvBlockAllocator.Fits, size]
    exact fits
  have bit : ∀ b, b < allocator.numberOfBlocks →
      next.isSet b = .ok (decide (b ∈ next.allocated)) := by
    intro b inside'
    rw [← size] at inside'
    rw [KvBlockAllocator.isSet_eq fits' inside']
    simp [KvBlockAllocator.mem_allocated, inside']
  refine ⟨next, by rw [issue, returned], size, ?_, ?_⟩
  · simp [bit _ inside, set]
  · intro b other
    by_cases inside' : b < allocator.numberOfBlocks
    · rw [bit b inside', KvBlockAllocator.isSet_eq fits inside']
      simp [set, other, KvBlockAllocator.mem_allocated, inside']
    · rw [KvBlockAllocator.isSet_out_of_range inside', KvBlockAllocator.isSet_out_of_range]
      rw [size]
      exact inside'

end Bitmap

/-- The bitmap of `numberOfBlocks` blocks shows `status`. -/
structure Shows (numberOfBlocks : Nat) (allocator : KvBlockAllocator) (status : Nat → Bool) : Prop where
  fits : allocator.Fits
  size : allocator.numberOfBlocks = numberOfBlocks
  bits : ∀ b, b < numberOfBlocks → allocator.isSet b = .ok (status b)

section Shows

variable {numberOfBlocks : Nat} {allocator : KvBlockAllocator} {status : Nat → Bool}

theorem Shows.step {call : BitCall} (shows_ : Shows numberOfBlocks allocator status)
    (inside : call.block < numberOfBlocks) :
    ∃ next, issue allocator call = .ok () next ∧
      Shows numberOfBlocks next (Function.update status call.block call.marks) := by
  obtain ⟨next, returned, size, here, others⟩ :=
    issue_spec shows_.fits (by rw [shows_.size]; exact inside)
  refine ⟨next, returned, ?_, size.trans shows_.size, ?_⟩
  · rw [KvBlockAllocator.Fits, size]
    exact shows_.fits
  · intro b inside'
    by_cases same : b = call.block
    · subst same
      rw [here, Function.update_self]
    · rw [others b same, Function.update_of_ne same]
      exact shows_.bits b inside'

/-- Every call of a run returns, and the bits are those of the last calls. -/
theorem Shows.run {calls : List BitCall} (shows_ : Shows numberOfBlocks allocator status)
    (inside : ∀ call ∈ calls, call.block < numberOfBlocks) :
    ∃ responses last, Runs.run issue allocator calls = .ok responses last ∧
      Shows numberOfBlocks last
        (fun b => ((lastAt BitCall.block calls b).map BitCall.marks).getD (status b)) := by
  induction calls generalizing allocator status with
  | nil => exact ⟨[], allocator, rfl, shows_⟩
  | cons call calls ih =>
    obtain ⟨next, returned, shown⟩ := shows_.step (inside call (List.mem_cons_self ..))
    obtain ⟨responses, last, rest, final⟩ :=
      ih shown fun call member => inside call (List.mem_cons_of_mem _ member)
    refine ⟨() :: responses, last, by simp only [Runs.run, returned, rest], ?_⟩
    simp only [← foldl_update_eq_lastAt] at final ⊢
    exact final

theorem shows_init {allocated bitsAllocated : Bool} (small : numberOfBlocks ≤ UINT32_MAX - 7)
    (initialised : KvBlockAllocator.init allocated bitsAllocated numberOfBlocks = .ok (.ok allocator)) :
    Shows numberOfBlocks allocator fun _ => false := by
  obtain rfl := KvBlockAllocator.eq_empty_of_init initialised
  have fits : (KvBlockAllocator.empty numberOfBlocks).Fits := small
  refine ⟨fits, rfl, fun b inside => ?_⟩
  rw [KvBlockAllocator.isSet_eq_false fits, KvBlockAllocator.allocated_empty]
  exact ⟨inside, Finset.notMem_empty b⟩

end Shows

/-- After these calls every bit says what the last call for its block did. -/
structure RefinesSet (numberOfBlocks : Nat) (calls : List BitCall) (allocator : KvBlockAllocator) :
    Prop where
  bits : ∀ b, b < numberOfBlocks → allocator.isSet b =
    .ok (decide (lastAt BitCall.block calls b = some (.markBlockAsAllocated b)))
  bytes : allocator.bits.length = (numberOfBlocks + 7) / 8
  /-- The bytes that the functions use are there. -/
  index : ∀ b, b < numberOfBlocks →
    ∃ byte, allocator.blockToByte b = .ok byte ∧ byte < (numberOfBlocks + 7) / 8
  /-- One more call leaves every other block as it is. -/
  frame : ∀ call : BitCall, call.block < numberOfBlocks →
    ∃ next, issue allocator call = .ok () next ∧
      ∀ b, b ≠ call.block → next.isSet b = allocator.isSet b

theorem lastAt_block {calls : List BitCall} {b : Nat} {call : BitCall}
    (last : lastAt BitCall.block calls b = some call) : call.block = b := by
  have member := List.mem_of_getLast? last
  exact of_decide_eq_true (List.mem_filter.mp member).2

/-- Any calls for blocks of the bitmap, in any order, after it was initialised. -/
theorem bitmap_refines_set {numberOfBlocks : Nat} (small : numberOfBlocks ≤ UINT32_MAX - 7)
    {allocated bitsAllocated : Bool} {allocator : KvBlockAllocator}
    (initialised : KvBlockAllocator.init allocated bitsAllocated numberOfBlocks = .ok (.ok allocator))
    {calls : List BitCall} (inside : ∀ call ∈ calls, call.block < numberOfBlocks) :
    ∃ responses last, run issue allocator calls = .ok responses last ∧
      RefinesSet numberOfBlocks calls last := by
  obtain ⟨responses, last, returned, final⟩ := (shows_init small initialised).run inside
  have bytes : last.bits.length = (numberOfBlocks + 7) / 8 := by
    rw [last.bits_length, final.size, Nat.mod_eq_of_lt]
    rw [UINT32_MAX] at small
    omega
  refine ⟨responses, last, returned, ?_, bytes, ?_, ?_⟩
  · intro b inside'
    rw [final.bits b inside']
    cases found : lastAt BitCall.block calls b with
    | none => rfl
    | some call => simp [marks_iff (lastAt_block found)]
  · intro b inside'
    have inside'' : b < last.numberOfBlocks := by
      rw [final.size]
      exact inside'
    refine ⟨b / 8, ?_, by omega⟩
    simp only [KvBlockAllocator.blockToByte, assert_true inside'', bind, Except.bind, pure,
      Except.pure]
  · intro call inside'
    obtain ⟨next, returned', _, _, others⟩ :=
      issue_spec final.fits (by rw [final.size]; exact inside')
    exact ⟨next, returned', others⟩

theorem bitmap_refines_set_shared_byte :
    ∃ allocator, KvBlockAllocator.init true true 12 = .ok (.ok allocator) ∧
      ∃ responses last, run issue allocator
          [.markBlockAsAllocated 9, .markBlockAsAllocated 10, .freeBlock 9] = .ok responses last ∧
        RefinesSet 12 [.markBlockAsAllocated 9, .markBlockAsAllocated 10, .freeBlock 9] last :=
  ⟨.empty 12, rfl, @bitmap_refines_set 12 (by decide) true true (.empty 12) rfl _ (by decide)⟩

/-! ## The first free block -/

/-- The first block with a clear bit on the walk from `startingBlock`, or `UINT32_MAX` if
all bits are set. -/
structure FirstFree (allocator : KvBlockAllocator) (startingBlock found : Nat) : Prop where
  full : found = UINT32_MAX ↔ ∀ b, b < allocator.numberOfBlocks → allocator.isSet b = .ok true
  free : found ≠ UINT32_MAX → found < allocator.numberOfBlocks ∧ allocator.isSet found = .ok false ∧
    ∃ before after, walk allocator.numberOfBlocks startingBlock = before ++ found :: after ∧
      ∀ b ∈ before, allocator.isSet b = .ok true

theorem walk_wraps (size : Nat) : walk size size = walk size 0 := by
  simp [walk, List.range_eq_range']

theorem KvBlockAllocator.nextFree_eq_find? (allocator : KvBlockAllocator) (startingBlock : Nat) :
    allocator.nextFree startingBlock =
      (walk allocator.numberOfBlocks startingBlock).find? fun b => !allocator.isAllocated b := by
  rw [nextFree, search_eq_find?]
  split
  · rename_i atEnd
    rw [atEnd, walk_wraps]
  · rfl

theorem KvBlockAllocator.firstFree {allocator : KvBlockAllocator} (fits : allocator.Fits)
    {startingBlock : Nat} (inRange : startingBlock ≤ allocator.numberOfBlocks) :
    FirstFree allocator startingBlock ((allocator.nextFree startingBlock).getD UINT32_MAX) := by
  cases found : allocator.nextFree startingBlock with
  | none =>
    refine ⟨iff_of_true rfl fun b inside => ?_, fun impossible => absurd rfl impossible⟩
    exact (isSet_iff fits b).mpr ((nextFree_eq_none inRange).mp found b inside)
  | some d =>
    obtain ⟨inside, free⟩ := nextFree_free inRange found
    have clear := (isSet_eq_false fits).mpr ⟨inside, free⟩
    have notMax : d ≠ UINT32_MAX := by
      simp only [Fits, UINT32_MAX] at *
      omega
    refine ⟨iff_of_false notMax fun full => ?_, fun _ => ⟨inside, clear, ?_⟩⟩
    · have marked := full d inside
      rw [clear] at marked
      cases marked
    · rw [nextFree_eq_find?, List.find?_eq_some_iff_append] at found
      obtain ⟨_, before, after, order, passed⟩ := found
      refine ⟨before, after, order, fun b member => ?_⟩
      have taken := passed b member
      rw [Bool.not_not, isAllocated_eq_true] at taken
      exact (isSet_iff fits b).mpr taken

/-- For any bits: the search finds the first free block of the walk, and the append point
moves there. -/
theorem first_free_search {allocator : KvBlockAllocator}
    (small : allocator.numberOfBlocks ≤ UINT32_MAX - 7) :
    (∀ startingBlock, startingBlock ≤ allocator.numberOfBlocks →
      ∃ found, allocator.findNextFreeBlock startingBlock = .ok found ∧
        FirstFree allocator startingBlock found) ∧
    ∀ appendPoint : KvAppendPoint, appendPoint.currentAppendPoint < allocator.numberOfBlocks ∨
        appendPoint.currentAppendPoint = UINT32_MAX →
      ∃ found, allocator.findNextFreeBlock (if appendPoint.currentAppendPoint = UINT32_MAX then 0
          else appendPoint.currentAppendPoint) = .ok found ∧
        appendPoint.getAppendPoint allocator =
          .ok (found, { appendPoint with currentAppendPoint := found }) := by
  constructor
  · intro startingBlock inRange
    exact ⟨_, KvBlockAllocator.findNextFreeBlock_eq small inRange,
      KvBlockAllocator.firstFree small inRange⟩
  · intro appendPoint position
    have inRange : appendPoint.InRange allocator := position.imp_left Nat.le_of_lt
    exact ⟨_, KvBlockAllocator.findNextFreeBlock_eq small inRange.start_le,
      KvAppendPoint.getAppendPoint_eq small inRange⟩

/-- Of twelve blocks, 0, 1, 10 and 11 are marked. -/
def KvBlockAllocator.marked : KvBlockAllocator := ⟨12, [3, 12], rfl⟩

/-- From block 10 the search goes past the end to block 2. -/
theorem first_free_search_wrapped :
    run issue (.empty 12) [.markBlockAsAllocated 10, .markBlockAsAllocated 11,
      .markBlockAsAllocated 0, .markBlockAsAllocated 1] = .ok [(), (), (), ()] .marked ∧
    FirstFree .marked 10 2 ∧
    KvAppendPoint.getAppendPoint ⟨10, 0⟩ .marked = .ok (2, ⟨2, 0⟩) := by
  obtain ⟨search, append⟩ := @first_free_search .marked (by decide)
  have wraps : KvBlockAllocator.marked.findNextFreeBlock 10 = .ok 2 := rfl
  refine ⟨rfl, ?_, ?_⟩
  · obtain ⟨found, returned, first⟩ := search 10 (by decide)
    rw [wraps] at returned
    cases returned
    exact first
  · obtain ⟨found, returned, moved⟩ := append ⟨10, 0⟩ (.inl (by decide))
    rw [if_neg (by decide), wraps] at returned
    cases returned
    exact moved

end KeyValueStore
