import Mathlib.Data.Finset.Basic
import Mathlib.Data.Finset.Range
import KeyValueStore.Lib.CyclicSearch
import KeyValueStore.Submission.Platform

/-! # `kv_block_allocator.h`, `kv_block_allocator.c`

The bitmap of allocated blocks, kept in bytes.  `allocated` is the set of block
numbers it stands for: `isSet_eq`, `freeBlock_spec` and `markBlockAsAllocated_spec`
say how the functions read and change it, and `findNextFreeBlock_eq` that the two
loops of the source are one cyclic search. -/

namespace KeyValueStore

open CyclicSearch

structure KvBlockAllocator where
  numberOfBlocks : Nat
  bits : List UInt8
  /-- The `uint32_t` sum in `(number_of_blocks + 7) / 8` may wrap. -/
  bits_length : bits.length = (numberOfBlocks + 7) % 2 ^ 32 / 8

namespace KvBlockAllocator

/-- The outer result is a fault of the unchecked second `malloc`, the inner the code. -/
def init (allocated bitsAllocated : Bool) (numberOfBlocks : Nat) :
    Except Fault (Except Int KvBlockAllocator) :=
  if allocated then
    if bitsAllocated then
      .ok (.ok
        { numberOfBlocks := numberOfBlocks
          bits := List.replicate ((numberOfBlocks + 7) % 2 ^ 32 / 8) 0
          bits_length := List.length_replicate })
    else .error .nullPointer
  else .ok (.error (-ENOMEM))

def blockToByte (allocator : KvBlockAllocator) (block : Nat) : Except Fault Nat := do
  assert .blockInRange (block < allocator.numberOfBlocks)
  return block / 8

def blockToBit (allocator : KvBlockAllocator) (block : Nat) : Except Fault Nat := do
  assert .blockInRange (block < allocator.numberOfBlocks)
  return block % 8

/-- `bits[byte]` -/
def byteAt (allocator : KvBlockAllocator) (byte : Nat) : Except Fault UInt8 :=
  match allocator.bits[byte]? with
  | some bits => .ok bits
  | none => .error .bitmapOutOfBounds

/-- `1 << bit` as an `int` -/
def maskOf (bit : Nat) : UInt32 := 1 <<< UInt32.ofNat bit

def isSet (allocator : KvBlockAllocator) (block : Nat) : Except Fault Bool := do
  let bit ← allocator.blockToBit block
  let bits ← allocator.byteAt (← allocator.blockToByte block)
  return (maskOf bit &&& bits.toUInt32) != 0

/-- `bits[byte] = …`, where the new value is an `int` that is stored in 8 bits. -/
def update (allocator : KvBlockAllocator) (block : Nat) (change : UInt32 → UInt32 → UInt32) :
    Except Fault KvBlockAllocator := do
  let bit ← allocator.blockToBit block
  let byte ← allocator.blockToByte block
  let bits ← allocator.byteAt byte
  return { allocator with
    bits := allocator.bits.set byte (change bits.toUInt32 (maskOf bit)).toUInt8
    bits_length := by rw [List.length_set]; exact allocator.bits_length }

def set (allocator : KvBlockAllocator) (block : Nat) : Except Fault KvBlockAllocator :=
  allocator.update block fun bits mask => bits ||| mask

def clear (allocator : KvBlockAllocator) (block : Nat) : Except Fault KvBlockAllocator :=
  allocator.update block fun bits mask => bits &&& ~~~mask

/-- The body of both loops of `find_next_free_block`: `remaining` rounds from `block`. -/
def scanForFreeBlock (allocator : KvBlockAllocator) :
    (remaining block : Nat) → Except Fault (Option Nat)
  | 0, _ => .ok none
  | remaining + 1, block => do
    if ← allocator.isSet block then allocator.scanForFreeBlock remaining (block + 1)
    else return some block

def findNextFreeBlock (allocator : KvBlockAllocator) (startingBlock : Nat) : Except Fault Nat := do
  assert .startingBlockInRange (startingBlock ≤ allocator.numberOfBlocks)
  let start := if startingBlock = allocator.numberOfBlocks then 0 else startingBlock
  match ← allocator.scanForFreeBlock (allocator.numberOfBlocks - start) start with
  | some block => return block
  | none =>
    -- Nothing from there to the end: wrap around.
    match ← allocator.scanForFreeBlock start 0 with
    | some block => return block
    | none => return UINT32_MAX

def freeBlock (allocator : KvBlockAllocator) (block : Nat) : Except Fault KvBlockAllocator := do
  assert .blockInRange (block < allocator.numberOfBlocks)
  allocator.clear block

def markBlockAsAllocated (allocator : KvBlockAllocator) (block : Nat) :
    Except Fault KvBlockAllocator := do
  assert .blockInRange (block < allocator.numberOfBlocks)
  allocator.set block

/-! ## The set of allocated blocks -/

/-- The bit of `block`, without the checks. -/
def bit (allocator : KvBlockAllocator) (block : Nat) : Bool :=
  (allocator.bits.getD (block / 8) 0).toNat.testBit (block % 8)

/-- The blocks whose bit is set. -/
def allocated (allocator : KvBlockAllocator) : Finset Nat :=
  (Finset.range allocator.numberOfBlocks).filter fun block => allocator.bit block

/-- The bitmap has a byte for every block: what the `uint32_t` sum needs to not wrap. -/
def Fits (allocator : KvBlockAllocator) : Prop := allocator.numberOfBlocks ≤ UINT32_MAX - 7

theorem mem_allocated {allocator : KvBlockAllocator} {block : Nat} :
    block ∈ allocator.allocated ↔ block < allocator.numberOfBlocks ∧ allocator.bit block = true := by
  simp [allocated]

theorem byte_lt {allocator : KvBlockAllocator} (fits : allocator.Fits) {block : Nat}
    (inRange : block < allocator.numberOfBlocks) : block / 8 < allocator.bits.length := by
  rw [allocator.bits_length]
  simp only [Fits, UINT32_MAX] at fits
  omega

theorem byteAt_eq {allocator : KvBlockAllocator} (fits : allocator.Fits) {block : Nat}
    (inRange : block < allocator.numberOfBlocks) :
    allocator.byteAt (block / 8) = .ok (allocator.bits.getD (block / 8) 0) := by
  have inside := byte_lt fits inRange
  simp [byteAt, List.getElem?_eq_getElem inside, List.getD_eq_getElem?_getD]

/-! ## One byte of the bitmap -/

theorem toBitVec_maskOf {bit : Nat} (small : bit < 8) :
    (maskOf bit).toBitVec = BitVec.twoPow 32 bit := by
  -- A shift of `UInt32` is taken modulo the width.
  have shift : (UInt32.ofNat bit).toBitVec % 32#32 = BitVec.ofNat 32 bit := by
    apply BitVec.eq_of_toNat_eq
    simp [UInt32.toBitVec_ofNat']
    omega
  change 1#32 <<< ((UInt32.ofNat bit).toBitVec % 32#32) = 1#32 <<< bit
  rw [shift, BitVec.shiftLeft_eq', BitVec.toNat_ofNat, Nat.mod_eq_of_lt (by omega)]

theorem mask_and_ne_zero (bits : UInt8) {bit : Nat} (small : bit < 8) :
    ((maskOf bit &&& bits.toUInt32) != 0) = bits.toNat.testBit bit := by
  have inWord : (BitVec.twoPow 32 bit).getLsbD bit = true := by
    simp only [BitVec.getLsbD_twoPow, decide_true, Bool.and_true, decide_eq_true_eq]
    omega
  have nonzero : BitVec.twoPow 32 bit ≠ 0#32 := by
    intro zero
    rw [zero] at inWord
    simp at inWord
  have toWord : maskOf bit &&& bits.toUInt32 = 0 ↔
      (maskOf bit &&& bits.toUInt32).toBitVec = 0#32 := by
    rw [← UInt32.toBitVec_inj]; rfl
  rw [← UInt8.toNat_toBitVec, BitVec.testBit_toNat, bne, Bool.eq_iff_iff]
  simp only [Bool.not_eq_true', beq_eq_false_iff_ne, ne_eq, toWord, UInt32.toBitVec_and,
    toBitVec_maskOf small, BitVec.twoPow_and]
  have wide : bit < 32 := by omega
  simp [nonzero, wide]

theorem testBit_or_mask (bits : UInt8) {bit other : Nat} (small : bit < 8) (small' : other < 8) :
    ((bits.toUInt32 ||| maskOf bit).toUInt8).toNat.testBit other =
      (decide (other = bit) || bits.toNat.testBit other) := by
  have wide : bit < 32 := by omega
  rw [← UInt8.toNat_toBitVec, BitVec.testBit_toNat, ← UInt8.toNat_toBitVec, BitVec.testBit_toNat]
  simp [toBitVec_maskOf small, BitVec.getLsbD_twoPow, wide, small', eq_comm, Bool.or_comm]

theorem testBit_and_not_mask (bits : UInt8) {bit other : Nat} (small : bit < 8)
    (small' : other < 8) :
    ((bits.toUInt32 &&& ~~~maskOf bit).toUInt8).toNat.testBit other =
      (!decide (other = bit) && bits.toNat.testBit other) := by
  have wide : bit < 32 := by omega
  rw [← UInt8.toNat_toBitVec, BitVec.testBit_toNat, ← UInt8.toNat_toBitVec, BitVec.testBit_toNat]
  simp [toBitVec_maskOf small, BitVec.getLsbD_twoPow, wide, small', eq_comm, Bool.and_comm]

/-! ## What the functions do to the set -/

theorem isSet_eq {allocator : KvBlockAllocator} (fits : allocator.Fits) {block : Nat}
    (inRange : block < allocator.numberOfBlocks) :
    allocator.isSet block = .ok (allocator.bit block) := by
  simp only [isSet, blockToBit, blockToByte, assert_true inRange, byteAt_eq fits inRange,
    bind, Except.bind, pure, Except.pure]
  rw [mask_and_ne_zero _ (Nat.mod_lt _ (by decide)), bit]

theorem isSet_out_of_range {allocator : KvBlockAllocator} {b : Nat}
    (outOfRange : ¬ b < allocator.numberOfBlocks) :
    allocator.isSet b = .error (.assertion .blockInRange) := by
  simp only [isSet, blockToBit, assert_false outOfRange, bind, Except.bind]

/-- The bit of a block, through the accessor of the source. -/
theorem isSet_iff {allocator : KvBlockAllocator} (fits : allocator.Fits)
    (b : Nat) : allocator.isSet b = .ok true ↔ b ∈ allocator.allocated := by
  by_cases inside : b < allocator.numberOfBlocks
  · rw [isSet_eq fits inside, mem_allocated, Except.ok.injEq]
    exact ⟨fun set => ⟨inside, set⟩, And.right⟩
  · simp [isSet_out_of_range inside, mem_allocated, inside]

theorem isSet_congr {allocator other : KvBlockAllocator} (fits : allocator.Fits)
    (size : other.numberOfBlocks = allocator.numberOfBlocks)
    (same : other.allocated = allocator.allocated) (b : Nat) :
    other.isSet b = allocator.isSet b := by
  have fits' : other.Fits := by rw [Fits, size]; exact fits
  by_cases inside : b < allocator.numberOfBlocks
  · have bits : other.bit b = true ↔ allocator.bit b = true := by
      have member : b ∈ other.allocated ↔ b ∈ allocator.allocated := by rw [same]
      simpa only [mem_allocated, size, inside, true_and] using member
    rw [isSet_eq fits' (by rw [size]; exact inside), isSet_eq fits inside,
      Bool.eq_iff_iff.mpr bits]
  · rw [isSet_out_of_range inside, isSet_out_of_range (by rw [size]; exact inside)]

theorem isSet_eq_false {allocator : KvBlockAllocator} (fits : allocator.Fits)
    {b : Nat} : allocator.isSet b = .ok false ↔ b < allocator.numberOfBlocks ∧
      b ∉ allocator.allocated := by
  by_cases inside : b < allocator.numberOfBlocks
  · simp [isSet_eq fits inside, mem_allocated, inside]
  · simp [isSet_out_of_range inside, inside]

/-- A byte of the bitmap is replaced; `onBit` says what that does to its bits. -/
theorem update_spec {allocator : KvBlockAllocator} (fits : allocator.Fits) {block : Nat}
    (inRange : block < allocator.numberOfBlocks) (change : UInt32 → UInt32 → UInt32)
    (onBit : Bool → Bool → Bool) (frame : ∀ old, onBit false old = old)
    (bitwise : ∀ (bits : UInt8) {bit other : Nat}, bit < 8 → other < 8 →
      (change bits.toUInt32 (maskOf bit)).toUInt8.toNat.testBit other =
        onBit (decide (other = bit)) (bits.toNat.testBit other)) :
    ∃ changed, allocator.update block change = .ok changed ∧
      changed.numberOfBlocks = allocator.numberOfBlocks ∧
      ∀ other, changed.bit other = onBit (decide (other = block)) (allocator.bit other) := by
  have inside := byte_lt fits inRange
  simp only [update, blockToBit, blockToByte, assert_true inRange, byteAt_eq fits inRange,
    bind, Except.bind, pure, Except.pure]
  refine ⟨_, rfl, rfl, ?_⟩
  intro other
  simp only [bit, List.getD_eq_getElem?_getD, List.getElem?_set]
  -- Bits of other bytes are out of reach, bits of this byte are those of `change`.
  by_cases sameByte : block / 8 = other / 8
  · rw [if_pos sameByte, if_pos inside, Option.getD_some,
      bitwise _ (Nat.mod_lt _ (by decide)) (Nat.mod_lt _ (by decide)), sameByte]
    have sameBit : other % 8 = block % 8 ↔ other = block := by omega
    simp only [sameBit]
  · have apart : other ≠ block := by rintro rfl; exact sameByte rfl
    rw [if_neg sameByte, decide_eq_false apart, frame]

theorem freeBlock_spec {allocator : KvBlockAllocator} (fits : allocator.Fits) {block : Nat}
    (inRange : block < allocator.numberOfBlocks) :
    ∃ freed, allocator.freeBlock block = .ok freed ∧
      freed.numberOfBlocks = allocator.numberOfBlocks ∧
      freed.allocated = allocator.allocated.erase block := by
  obtain ⟨freed, returned, size, bits⟩ := update_spec fits inRange
    (fun bits mask => bits &&& ~~~mask) (fun here old => !here && old) (by simp)
    testBit_and_not_mask
  refine ⟨freed, ?_, size, ?_⟩
  · simp only [freeBlock, assert_true inRange, bind, Except.bind]
    exact returned
  · ext other
    simp only [mem_allocated, Finset.mem_erase, size, bits, Bool.and_eq_true, Bool.not_eq_true',
      decide_eq_false_iff_not]
    tauto

theorem markBlockAsAllocated_spec {allocator : KvBlockAllocator} (fits : allocator.Fits)
    {block : Nat} (inRange : block < allocator.numberOfBlocks) :
    ∃ marked, allocator.markBlockAsAllocated block = .ok marked ∧
      marked.numberOfBlocks = allocator.numberOfBlocks ∧
      marked.allocated = insert block allocator.allocated := by
  obtain ⟨marked, returned, size, bits⟩ := update_spec fits inRange
    (fun bits mask => bits ||| mask) (fun here old => here || old) (by simp) testBit_or_mask
  refine ⟨marked, ?_, size, ?_⟩
  · simp only [markBlockAsAllocated, assert_true inRange, bind, Except.bind]
    exact returned
  · ext other
    simp only [mem_allocated, Finset.mem_insert, size, bits, Bool.or_eq_true, decide_eq_true_eq]
    constructor
    · tauto
    · rintro (rfl | held)
      · exact ⟨inRange, .inl rfl⟩
      · exact ⟨held.1, .inr held.2⟩

/-- The assertion stops a block beyond the bitmap. -/
theorem markBlockAsAllocated_out_of_range {allocator : KvBlockAllocator} {block : Nat}
    (outOfRange : ¬ block < allocator.numberOfBlocks) :
    allocator.markBlockAsAllocated block = .error (.assertion .blockInRange) := by
  simp only [markBlockAsAllocated, assert_false outOfRange, bind, Except.bind]

theorem length_clearBits (numberOfBlocks : Nat) :
    (List.replicate ((numberOfBlocks + 7) % 2 ^ 32 / 8) (0 : UInt8)).length =
      (numberOfBlocks + 7) % 2 ^ 32 / 8 :=
  List.length_replicate

/-- The bitmap that `kv_block_allocator__init` makes. -/
def empty (numberOfBlocks : Nat) : KvBlockAllocator where
  numberOfBlocks := numberOfBlocks
  bits := List.replicate ((numberOfBlocks + 7) % 2 ^ 32 / 8) 0
  bits_length := length_clearBits numberOfBlocks

theorem eq_empty_of_init {allocated bitsAllocated : Bool} {numberOfBlocks : Nat}
    {allocator : KvBlockAllocator}
    (initialised : init allocated bitsAllocated numberOfBlocks = .ok (.ok allocator)) :
    allocator = empty numberOfBlocks := by
  cases allocated <;> cases bitsAllocated <;> cases initialised
  rfl

theorem allocated_empty (numberOfBlocks : Nat) :
    (empty numberOfBlocks).allocated = ∅ := by
  ext b
  have clear : (empty numberOfBlocks).bit b = false := by
    simp only [bit, empty, List.getD_eq_getElem?_getD, List.getElem?_replicate]
    split <;> simp
  simp [mem_allocated, clear]

/-! ## The search -/

def isAllocated (allocator : KvBlockAllocator) (block : Nat) : Bool :=
  decide (block ∈ allocator.allocated)

/-- The block that the search finds, if one is free. -/
def nextFree (allocator : KvBlockAllocator) (startingBlock : Nat) : Option Nat :=
  search allocator.isAllocated allocator.numberOfBlocks
    (if startingBlock = allocator.numberOfBlocks then 0 else startingBlock)

section NextFree

variable {allocator : KvBlockAllocator} {startingBlock d : Nat}

/-- The index that the search really starts from. -/
theorem normalised_le (inRange : startingBlock ≤ allocator.numberOfBlocks) :
    (if startingBlock = allocator.numberOfBlocks then 0 else startingBlock) ≤
      allocator.numberOfBlocks := by
  split <;> omega

theorem isAllocated_eq_false : allocator.isAllocated d = false ↔ d ∉ allocator.allocated := by
  simp [isAllocated]

theorem isAllocated_eq_true : allocator.isAllocated d = true ↔ d ∈ allocator.allocated := by
  simp [isAllocated]

theorem nextFree_free (inRange : startingBlock ≤ allocator.numberOfBlocks)
    (found : allocator.nextFree startingBlock = some d) :
    d < allocator.numberOfBlocks ∧ d ∉ allocator.allocated :=
  ⟨search_lt (normalised_le inRange) found,
    isAllocated_eq_false.mp (search_free (normalised_le inRange) found)⟩

theorem nextFree_eq_none (inRange : startingBlock ≤ allocator.numberOfBlocks) :
    allocator.nextFree startingBlock = none ↔
      ∀ b, b < allocator.numberOfBlocks → b ∈ allocator.allocated := by
  rw [nextFree, search_eq_none (normalised_le inRange)]
  simp only [isAllocated_eq_true]

/-- The search does not go past a free block that is not below its start. -/
theorem nextFree_le {bound : Nat} (startLe : startingBlock ≤ bound)
    (inRange : bound < allocator.numberOfBlocks) (free : bound ∉ allocator.allocated)
    (found : allocator.nextFree startingBlock = some d) : d ≤ bound := by
  rw [nextFree, if_neg (by omega)] at found
  exact search_le startLe inRange (isAllocated_eq_false.mpr free) found

theorem nextFree_of_free (inRange : d < allocator.numberOfBlocks) (free : d ∉ allocator.allocated) :
    allocator.nextFree d = some d := by
  rw [nextFree, if_neg (by omega)]
  exact search_of_free inRange (isAllocated_eq_false.mpr free)

theorem nextFree_of_free_succ (inRange : d + 1 < allocator.numberOfBlocks)
    (here : d ∈ allocator.allocated) (free : d + 1 ∉ allocator.allocated) :
    allocator.nextFree d = some (d + 1) := by
  rw [nextFree, if_neg (by omega)]
  exact search_of_free_succ inRange (isAllocated_eq_true.mpr here) (isAllocated_eq_false.mpr free)

/-- Only the set of allocated blocks matters. -/
theorem nextFree_congr {other : KvBlockAllocator} (size : allocator.numberOfBlocks = other.numberOfBlocks)
    (same : allocator.allocated = other.allocated) (startingBlock : Nat) :
    allocator.nextFree startingBlock = other.nextFree startingBlock := by
  have bits : allocator.isAllocated = other.isAllocated := by
    funext b
    simp only [isAllocated, same]
  rw [nextFree, nextFree, size, bits]

end NextFree

theorem scanForFreeBlock_eq {allocator : KvBlockAllocator} (fits : allocator.Fits)
    {remaining block : Nat} (inRange : block + remaining ≤ allocator.numberOfBlocks) :
    allocator.scanForFreeBlock remaining block = .ok (scan allocator.isAllocated remaining block) := by
  induction remaining generalizing block with
  | zero => rfl
  | succ remaining ih =>
    have here : block < allocator.numberOfBlocks := by omega
    have same : allocator.isAllocated block = allocator.bit block := by
      rw [Bool.eq_iff_iff]
      simp [isAllocated, mem_allocated, here]
    simp only [scanForFreeBlock, isSet_eq fits here, bind, Except.bind, scan, same]
    split
    · exact ih (by omega)
    · rfl

theorem findNextFreeBlock_eq {allocator : KvBlockAllocator} (fits : allocator.Fits)
    {startingBlock : Nat} (inRange : startingBlock ≤ allocator.numberOfBlocks) :
    allocator.findNextFreeBlock startingBlock =
      .ok ((allocator.nextFree startingBlock).getD UINT32_MAX) := by
  have start := normalised_le inRange
  simp only [findNextFreeBlock, nextFree, search, assert_true inRange, bind, Except.bind]
  rw [scanForFreeBlock_eq fits (by omega), scanForFreeBlock_eq fits (by omega)]
  cases scan allocator.isAllocated _ _ with
  | some block => rfl
  | none =>
    simp only
    cases scan allocator.isAllocated _ 0 <;> rfl

end KvBlockAllocator

end KeyValueStore
