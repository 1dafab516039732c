import KeyValueStore.Submission.Log

/-! # What appending a block can do

`Owns` ties the bitmap to the directory: the allocated blocks are the blocks of the
entries, one for each key.  `Sound` adds what a store needs to run at all; less than
that, and enough for one call, is `Usable`.  From a usable store `kvAppend` has the
outcomes of `AppendOutcome` and no others (`Usable.kvAppend_outcome`); everything later
is derived from these. -/

namespace KeyValueStore

open ByteFile

/-- The blocks that the bitmap of a store covers. -/
def capacity : Nat := 2 * MAXKEYS + 1

/-- The allocated blocks are exactly the blocks of the directory's entries, live or
deleted, and no two keys share one. -/
structure Owns (directory : KvDirectory) (allocator : KvBlockAllocator) : Prop where
  size : allocator.numberOfBlocks = capacity
  owned : ∀ b, b ∈ allocator.allocated ↔
    ∃ key entry, directory.findEntryForKey key = some entry ∧ entry.dataBlock = b
  injective : ∀ {key key' entry entry'}, directory.findEntryForKey key = some entry →
    directory.findEntryForKey key' = some entry' → entry.dataBlock = entry'.dataBlock → key = key'

/-- A store with an open file whose memory is consistent. -/
structure Sound (stor : KvStor) : Prop where
  opened : stor.blockArray.fd ≠ none
  raw : stor.blockArray.rawBlockBytes = sizeofKvBlock
  owns : Owns stor.directory stor.blockAllocator
  inRange : stor.appendPoint.InRange stor.blockAllocator

/-- The bitmap has a bit for the block of every entry. -/
structure Covers (directory : KvDirectory) (allocator : KvBlockAllocator) : Prop where
  fits : allocator.Fits
  inside : ∀ {key entry}, directory.findEntryForKey key = some entry →
    entry.dataBlock < allocator.numberOfBlocks

/-- A store with an open file in which every block number has its bit, set or not. -/
structure Usable (stor : KvStor) : Prop where
  opened : stor.blockArray.fd ≠ none
  raw : stor.blockArray.rawBlockBytes = sizeofKvBlock
  covers : Covers stor.directory stor.blockAllocator
  inRange : stor.appendPoint.InRange stor.blockAllocator

/-- The bitmap `marked` is `allocator` once block `d` has taken the place of the block of
`key`. -/
structure Marks (directory : KvDirectory) (allocator : KvBlockAllocator) (key : UInt64) (d : Nat)
    (marked : KvBlockAllocator) : Prop where
  size : marked.numberOfBlocks = allocator.numberOfBlocks
  allocated : ∀ b, b ∈ marked.allocated ↔ b = d ∨ b ∈ allocator.allocated ∧
    ∀ old, directory.findEntryForKey key = some old → b ≠ old.dataBlock

namespace Owns

variable {directory : KvDirectory} {allocator : KvBlockAllocator}

theorem fits (owns : Owns directory allocator) : allocator.Fits := by
  rw [KvBlockAllocator.Fits, owns.size]
  decide

theorem mem_of_find (owns : Owns directory allocator) {key : UInt64} {entry : DirectoryEntry}
    (found : directory.findEntryForKey key = some entry) : entry.dataBlock ∈ allocator.allocated :=
  (owns.owned _).mpr ⟨key, entry, found, rfl⟩

theorem block_lt (owns : Owns directory allocator) {key : UInt64} {entry : DirectoryEntry}
    (found : directory.findEntryForKey key = some entry) :
    entry.dataBlock < allocator.numberOfBlocks :=
  (KvBlockAllocator.mem_allocated.mp (owns.mem_of_find found)).1

theorem covers (owns : Owns directory allocator) : Covers directory allocator :=
  ⟨owns.fits, owns.block_lt⟩

/-- A key moves to a free block, which is marked, and its old block is freed. -/
theorem move (owns : Owns directory allocator) {entry : DirectoryEntry}
    {marked : KvBlockAllocator} (free : entry.dataBlock ∉ allocator.allocated)
    (marks : Marks directory allocator entry.keyId entry.dataBlock marked) :
    Owns (directory.withEntry entry) marked where
  size := marks.size.trans owns.size
  owned := by
    intro b
    rw [marks.allocated]
    constructor
    · rintro (rfl | ⟨held, kept⟩)
      · exact ⟨entry.keyId, entry, by simp, rfl⟩
      · obtain ⟨key, other, found, rfl⟩ := (owns.owned b).mp held
        have apart : key ≠ entry.keyId := by
          rintro rfl
          exact kept other found rfl
        exact ⟨key, other, by simp [apart, found], rfl⟩
    · rintro ⟨key, other, found, rfl⟩
      rw [KvDirectory.find_withEntry] at found
      by_cases same : key = entry.keyId
      · rw [if_pos same, Option.some.injEq] at found
        exact .inl (found ▸ rfl)
      · rw [if_neg same] at found
        refine .inr ⟨owns.mem_of_find found, ?_⟩
        intro old foundOld shared
        exact same (owns.injective found foundOld shared)
  injective := by
    intro key key' first second found found' shared
    rw [KvDirectory.find_withEntry] at found found'
    by_cases here : key = entry.keyId <;> by_cases here' : key' = entry.keyId
    · rw [here, here']
    · rw [if_pos here, Option.some.injEq] at found
      rw [if_neg here'] at found'
      subst found
      exact absurd (shared ▸ owns.mem_of_find found') free
    · rw [if_neg here] at found
      rw [if_pos here', Option.some.injEq] at found'
      subst found'
      exact absurd (shared ▸ owns.mem_of_find found) free
    · rw [if_neg here] at found
      rw [if_neg here'] at found'
      exact owns.injective found found' shared

end Owns

theorem Sound.usable {stor : KvStor} (sound : Sound stor) : Usable stor :=
  ⟨sound.opened, sound.raw, sound.owns.covers, sound.inRange⟩

theorem KvBlockAllocator.Fits.ne_max {allocator : KvBlockAllocator} (fits : allocator.Fits) {b : Nat}
    (inside : b < allocator.numberOfBlocks) : b ≠ UINT32_MAX := by
  simp only [KvBlockAllocator.Fits, UINT32_MAX] at *
  omega

theorem freeReplaced_spec {directory : KvDirectory} {allocator : KvBlockAllocator}
    (covers : Covers directory allocator) (key : UInt64) {replacedBlock : Nat}
    (replaced : replacedBlock = match directory.findEntryForKey key with
      | some old => old.dataBlock
      | none => UINT32_MAX) :
    ∃ freed, freeReplaced allocator replacedBlock = .ok freed ∧
      freed.numberOfBlocks = allocator.numberOfBlocks ∧
      ∀ b, b ∈ freed.allocated ↔ b ∈ allocator.allocated ∧
        ∀ old, directory.findEntryForKey key = some old → b ≠ old.dataBlock := by
  cases found : directory.findEntryForKey key with
  | none =>
    simp only [found] at replaced
    refine ⟨allocator, by simp [freeReplaced, replaced], rfl, ?_⟩
    intro b
    simp
  | some old =>
    simp only [found] at replaced
    obtain ⟨freed, cleared, size, set⟩ :=
      KvBlockAllocator.freeBlock_spec covers.fits (covers.inside found)
    refine ⟨freed, ?_, size, ?_⟩
    · rw [freeReplaced, replaced, if_pos (covers.fits.ne_max (covers.inside found)),
        cleared]
    · intro b
      simp only [set, Finset.mem_erase, Option.some.injEq, forall_eq']
      exact And.comm

/-- `freeReplaced`, then `markBlockAsAllocated`, as one change of the set. -/
theorem freeReplaced_mark {directory : KvDirectory} {allocator : KvBlockAllocator}
    (covers : Covers directory allocator) (key : UInt64) {replacedBlock d : Nat}
    (inRange : d < allocator.numberOfBlocks)
    (replaced : replacedBlock = match directory.findEntryForKey key with
      | some old => old.dataBlock
      | none => UINT32_MAX) :
    ∃ freed marked, freeReplaced allocator replacedBlock = .ok freed ∧
      freed.markBlockAsAllocated d = .ok marked ∧ Marks directory allocator key d marked := by
  obtain ⟨freed, freeing, freedSize, freedSet⟩ := freeReplaced_spec covers key replaced
  have fits : freed.Fits := by rw [KvBlockAllocator.Fits, freedSize]; exact covers.fits
  have freedRange : d < freed.numberOfBlocks := by rw [freedSize]; exact inRange
  obtain ⟨marked, marking, size, set⟩ :=
    KvBlockAllocator.markBlockAsAllocated_spec fits freedRange
  refine ⟨freed, marked, freeing, marking, size.trans freedSize, ?_⟩
  intro b
  rw [set, Finset.mem_insert, freedSet]

/-! ## The block that is written -/

/-- The block holds version `sequence` of `key` with these data; `none` is a deletion. -/
structure Carries (block : KvBlock) (key size : UInt64) (valueData : Option Bytes)
    (sequence : UInt64) : Prop where
  valid : block.validate = true
  keyId : block.header.keyId = key
  sequence_eq : block.header.sequence = sequence
  dataBytes : block.header.dataBytes.toNat = size.toNat
  data : ∀ source, valueData = some source → block.data.take size.toNat = source.take size.toNat

/-- What `kv_set` and `kv_del` pass on: at most a block of data, all of it there. -/
structure Payload (size : UInt64) (valueData : Option Bytes) : Prop where
  fits : size.toNat ≤ 4096
  present : ∀ source, valueData = some source → size.toNat ≤ source.length

theorem init_carries (memory : KvBlock) (key : UInt64) {size : UInt64} {valueData : Option Bytes}
    (sequence : UInt64) (payload : Payload size valueData) :
    ∃ block, memory.init key size.toUInt32 valueData sequence = .ok block ∧
      Carries block key size valueData sequence := by
  have small := payload.fits
  have cast : size.toUInt32.toNat = size.toNat := by
    rw [UInt64.toNat_toUInt32]
    omega
  have header : (size.toUInt32.toUInt16).toNat = size.toNat := by
    rw [UInt32.toNat_toUInt16, cast]
    omega
  have fits : size.toUInt32.toNat ≤ 4096 := by omega
  cases valueData with
  | none =>
    refine ⟨{ memory with header := memory.header.init key size.toUInt32 sequence }, ?_, ?_⟩
    · simp only [KvBlock.init, assert_true fits, bind, Except.bind]
    · refine ⟨by simp [KvBlock.validate, KvBlockHeader.validate, KvBlockHeader.init], rfl, rfl,
        header, ?_⟩
      intro source impossible
      cases impossible
  | some source =>
    have present := payload.present source rfl
    have inside : size.toUInt32.toNat ≤ source.length := by omega
    have copied := memcpy_eq inside (show _ ≤ memory.data.length by rw [memory.data_length]; omega)
    refine ⟨_, by simp only [KvBlock.init, assert_true fits, copied, bind, Except.bind]; rfl, ?_⟩
    refine ⟨by simp [KvBlock.validate, KvBlockHeader.validate, KvBlockHeader.init], rfl, rfl,
      header, ?_⟩
    intro source' same
    cases same
    simp only [cast]
    rw [List.take_append_of_le_length (by simp; omega), List.take_of_length_le (by simp)]

/-! ## The write -/

/-- The code of `writeBlock` on an open file; `none` when the process is stopped. -/
def WriteResult.code : WriteResult → Option Int
  | .full => some 0
  | .short count => some (if sizeofKvBlock ≤ count then 0 else - EIO)
  | .failed errno _ => some errno.code
  | .seekFailed errno => some errno.code
  | .stopped _ => none

/-- How many bytes of the block reach the file. -/
def WriteResult.changed : WriteResult → Nat
  | .full => sizeofKvBlock
  | .short count => count
  | .failed _ count => count
  | .seekFailed _ => 0
  | .stopped count => count

theorem WriteResult.changed_of_code_zero {write : WriteResult} (complete : write.code = some 0) :
    sizeofKvBlock ≤ write.changed := by
  cases write with
  | full => exact Nat.le_refl _
  | short count =>
    simp only [code, changed, Option.some.injEq] at *
    split at complete
    · assumption
    · cases complete
  | failed errno _ | seekFailed errno =>
    simp only [code, Option.some.injEq] at complete
    exact absurd complete errno.code_ne_zero
  | stopped _ => cases complete

theorem writeBlock_eq {array : KvBlockArray} (raw : array.rawBlockBytes = sizeofKvBlock)
    (opened : array.fd ≠ none) {d : Nat} (small : d < 2 ^ 32) (write : WriteResult)
    (block : KvBlock) (file : Bytes) :
    array.writeBlock write d block.toBytes file =
      match write.code with
      | some ret => .ok ret (overwritten file d block write.changed)
      | none => .error .stopped (overwritten file d block write.changed) := by
  have all : block.toBytes.take sizeofKvBlock = block.toBytes :=
    List.take_of_length_le (by simp)
  cases fd : array.fd with
  | none => exact absurd fd opened
  | some _ =>
    cases write with
    | short count =>
      have whole : min count sizeofKvBlock = sizeofKvBlock ↔ sizeofKvBlock ≤ count := by omega
      simp only [KvBlockArray.writeBlock, fd, byteOffset_eq raw small, raw, all, overwritten,
        WriteResult.code, WriteResult.changed, whole]
    | _ =>
      simp [KvBlockArray.writeBlock, fd, byteOffset_eq raw small, raw, all, overwritten,
        WriteResult.code, WriteResult.changed]

/-! ## The outcomes -/

/-- The machine once the sequence number is taken and the append point moved. -/
def Machine.searched (m : Machine) : Machine :=
  { m with stor := { m.stor with
      currentSequenceNumber := m.stor.currentSequenceNumber + 1
      appendPoint := { m.stor.appendPoint with
        currentAppendPoint := (m.stor.appendPoint.next m.stor.blockAllocator).getD UINT32_MAX } } }

/-- The sequence number that the next block carries. -/
def Machine.nextSequence (m : Machine) : UInt64 := m.stor.currentSequenceNumber + 1

/-- The free block that the next write goes to. -/
def Machine.destination (m : Machine) : Option Nat :=
  m.stor.appendPoint.next m.stor.blockAllocator

/-- The machine after `block` has gone to block `d` of the file as far as `write` let it. -/
def Machine.wrote (m : Machine) (d : Nat) (block : KvBlock) (write : WriteResult) : Machine :=
  { m.searched with file := overwritten m.file d block write.changed }

/-- The machine after the block has also been entered in the directory and the bitmap. -/
def Machine.committed (m : Machine) (d : Nat) (block : KvBlock) (write : WriteResult)
    (entry : DirectoryEntry) (allocator : KvBlockAllocator) : Machine :=
  { m.wrote d block write with stor := { m.searched.stor with
      directory := m.stor.directory.withEntry entry
      blockAllocator := allocator } }

/-- Every way `kvAppend` can end, with the machine it leaves. -/
inductive AppendOutcome (env : BlockWrite) (key size : UInt64) (block : KvBlock) (m : Machine) :
    EStateM.Result Fault Machine Int → Prop where
  -- No block is free.
  | full : m.destination = none →
      AppendOutcome env key size block m (.ok (-ENOSPC) m.searched)
  -- The write came back with a code; part of the block may be in the file.
  | failed {d : Nat} {ret : Int} : m.destination = some d → env.write.code = some ret → ret ≠ 0 →
      AppendOutcome env key size block m (.ok ret (m.wrote d block env.write))
  | stopped {d : Nat} : m.destination = some d → env.write.code = none →
      AppendOutcome env key size block m (.error .stopped (m.wrote d block env.write))
  -- The entry is not older than the new version: one of the two assertions fails.
  | reused {d : Nat} {entry : DirectoryEntry} : m.destination = some d →
      env.write.code = some 0 → m.stor.directory.findEntryForKey key = some entry →
      m.nextSequence = entry.sequence →
      AppendOutcome env key size block m
        (.error (.assertion .sequenceNotReused) (m.wrote d block env.write))
  | stale {d : Nat} {entry : DirectoryEntry} : m.destination = some d →
      env.write.code = some 0 → m.stor.directory.findEntryForKey key = some entry →
      m.nextSequence.toNat < entry.sequence.toNat →
      AppendOutcome env key size block m
        (.error (.assertion .setAsLatestEntryForKey) (m.wrote d block env.write))
  -- The entry of a new key cannot be made, but its block is written.
  | mallocNull {d : Nat} : m.destination = some d → env.write.code = some 0 →
      m.stor.directory.findEntryForKey key = none → env.insert = .mallocNull →
      AppendOutcome env key size block m (.error .nullPointer (m.wrote d block env.write))
  | tsearchNull {d : Nat} : m.destination = some d → env.write.code = some 0 →
      m.stor.directory.findEntryForKey key = none → env.insert = .tsearchNull →
      AppendOutcome env key size block m (.ok (-ENOMEM) (m.wrote d block env.write))
  -- The entry names the new block, which takes the place of the old one in the bitmap.
  | done {d : Nat} {allocator : KvBlockAllocator} : m.destination = some d →
      env.write.code = some 0 →
      (∀ entry, m.stor.directory.findEntryForKey key = some entry →
        entry.sequence.toNat < m.nextSequence.toNat) →
      (m.stor.directory.findEntryForKey key = none → env.insert = .inserted) →
      Marks m.stor.directory m.stor.blockAllocator key d allocator →
      AppendOutcome env key size block m (.ok 0 (m.committed d block env.write
        ⟨key, m.nextSequence, d, size.toUInt16⟩ allocator))

/-- The destination is a free block of the allocator. -/
theorem Usable.destination_free {m : Machine} (usable : Usable m.stor) {d : Nat}
    (found : m.destination = some d) :
    d < m.stor.blockAllocator.numberOfBlocks ∧ d ∉ m.stor.blockAllocator.allocated :=
  KvAppendPoint.next_free usable.inRange found

theorem Sound.destination_free {m : Machine} (sound : Sound m.stor) {d : Nat}
    (found : m.destination = some d) :
    d < m.stor.blockAllocator.numberOfBlocks ∧ d ∉ m.stor.blockAllocator.allocated :=
  sound.usable.destination_free found

/-- The search for a block, run from a usable store. -/
theorem Usable.getAppendPoint {m : Machine} (usable : Usable m.stor) :
    m.stor.appendPoint.getAppendPoint m.stor.blockAllocator =
      .ok (m.destination.getD UINT32_MAX, m.searched.stor.appendPoint) :=
  KvAppendPoint.getAppendPoint_eq usable.covers.fits usable.inRange

/-- The write to the destination, run from a usable store. -/
theorem Usable.writeBlock {m : Machine} (usable : Usable m.stor) {d : Nat}
    (found : m.destination = some d) (write : WriteResult) (block : KvBlock) :
    m.stor.blockArray.writeBlock write d block.toBytes m.file =
      match write.code with
      | some ret => .ok ret (overwritten m.file d block write.changed)
      | none => .error .stopped (overwritten m.file d block write.changed) := by
  have inRange := (usable.destination_free found).1
  have fits := usable.covers.fits
  simp only [KvBlockAllocator.Fits, UINT32_MAX] at fits
  exact writeBlock_eq usable.raw usable.opened (by omega) write block m.file

/-- The end of a successful append: the old block is freed, the new one marked. -/
theorem kvAppend_marks {m : Machine} (covers : Covers m.stor.directory m.stor.blockAllocator)
    {env : BlockWrite} {key : UInt64} (size : UInt64) (block : KvBlock) {d : Nat}
    (found : m.destination = some d) (inRange : d < m.stor.blockAllocator.numberOfBlocks)
    (code : env.write.code = some 0)
    (newest : ∀ entry, m.stor.directory.findEntryForKey key = some entry →
      entry.sequence.toNat < m.nextSequence.toNat)
    (inserts : m.stor.directory.findEntryForKey key = none → env.insert = .inserted) :
    ∃ marked, AppendOutcome env key size block m (.ok 0 (m.committed d block env.write
        ⟨key, m.nextSequence, d, size.toUInt16⟩ marked)) ∧
      ∀ replacedBlock, (replacedBlock = match m.stor.directory.findEntryForKey key with
          | some old => old.dataBlock
          | none => UINT32_MAX) →
        ∃ freed, freeReplaced m.stor.blockAllocator replacedBlock = .ok freed ∧
          freed.markBlockAsAllocated d = .ok marked := by
  obtain ⟨freed, marked, freeing, marking, marks⟩ := freeReplaced_mark covers key inRange rfl
  refine ⟨marked, .done found code newest inserts marks, ?_⟩
  rintro _ rfl
  exact ⟨freed, freeing, marking⟩

theorem Usable.kvAppend_outcome {m : Machine} (usable : Usable m.stor) (env : BlockWrite) (key : UInt64)
    {size : UInt64} {valueData : Option Bytes} (payload : Payload size valueData) :
    ∃ block, Carries block key size valueData m.nextSequence ∧
      AppendOutcome env key size block m (kvAppend env key size valueData m) := by
  obtain ⟨block, initialised, carries⟩ := init_carries env.memory key m.nextSequence payload
  refine ⟨block, carries, ?_⟩
  rw [Machine.nextSequence] at initialised
  simp only [kvAppend, bind_apply, getStor_apply, setStor_apply, lift_ok, initialised,
    usable.getAppendPoint]
  cases found : m.destination with
  | none =>
    simp only [Option.getD_none, if_pos]
    exact .full found
  | some d =>
    have inRange := (usable.destination_free found).1
    simp only [Option.getD_some, if_neg (usable.covers.fits.ne_max inRange), bind_apply, onFile,
      usable.writeBlock found env.write block]
    cases code : env.write.code with
    | none => exact .stopped found code
    | some ret =>
      -- The write is complete exactly if its code is 0.
      by_cases nonzero : ret ≠ 0
      · simp only [if_pos nonzero]
        exact .failed found code nonzero
      · obtain rfl : ret = 0 := not_not.mp nonzero
        simp only [if_neg nonzero]
        cases lookup : m.stor.directory.findEntryForKey key with
        | none =>
          -- A new key: the two allocations of the directory decide.
          cases insert : env.insert with
          | mallocNull =>
            simp only [KvDirectory.storeKey_mallocNull _ _ _ lookup]
            exact .mallocNull found code lookup insert
          | tsearchNull =>
            simp only [KvDirectory.storeKey_tsearchNull _ _ _ lookup]
            exact .tsearchNull found code lookup insert
          | inserted =>
            obtain ⟨marked, outcome, marks⟩ := kvAppend_marks usable.covers size block found
              inRange code
              (fun entry impossible => by rw [lookup] at impossible; cases impossible)
              (fun _ => insert)
            obtain ⟨freed, freeing, marking⟩ := marks UINT32_MAX (by rw [lookup])
            simp [KvDirectory.storeKey_absent _ _ _ lookup, freeing, marking]
            exact outcome
        | some entry =>
          -- A key that is there: the sequences decide.
          rcases Nat.lt_trichotomy entry.sequence.toNat m.nextSequence.toNat with
            newer | equal | older
          · obtain ⟨marked, outcome, marks⟩ := kvAppend_marks usable.covers size block found
              inRange code
              (fun other same => by rw [lookup] at same; cases same; exact newer)
              (fun impossible => by rw [lookup] at impossible; cases impossible)
            obtain ⟨freed, freeing, marking⟩ := marks entry.dataBlock (by rw [lookup])
            rw [Machine.nextSequence] at newer
            simp [KvDirectory.storeKey_newer _ _ _ lookup newer, freeing, marking]
            exact outcome
          · have same : m.nextSequence = entry.sequence := UInt64.toNat_inj.mp equal.symm
            rw [Machine.nextSequence] at same
            simp only [KvDirectory.storeKey_equal _ _ _ lookup same, bind_apply, lift_error]
            exact .reused found code lookup same
          · rw [Machine.nextSequence] at older
            simp [KvDirectory.storeKey_older _ _ _ lookup older, freeReplaced]
            exact .stale found code lookup older

end KeyValueStore
