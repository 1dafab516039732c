import Mathlib.Data.Finset.Card
import KeyValueStore.Class.Update

/-! # What every call keeps

`Steady` is the part of the invariants that depends on no outcome: the store is usable,
and the file has no gap.  `Steady.step` is the lemma about one call in a process. -/

namespace KeyValueStore.KvStore

structure Steady (m : Machine) : Prop where
  usable : Usable m.stor
  size : m.stor.blockAllocator.numberOfBlocks = capacity
  start_le : m.stor.appendPoint.start ≤ blockCount m.file
  marked_lt : ∀ b ∈ m.stor.blockAllocator.allocated, b < blockCount m.file
  count_le : blockCount m.file ≤ capacity

theorem capacity_eq : capacity = 100001 := by rw [capacity, MAXKEYS]

section Steady

variable {m : Machine} {d : Nat}

/-- A write goes to a free block of the file, or right behind its last. -/
theorem Steady.destination (steady : Steady m) (found : m.destination = some d) :
    d < capacity ∧ d ∉ m.stor.blockAllocator.allocated ∧ d ≤ blockCount m.file := by
  obtain ⟨inside, free⟩ := steady.usable.destination_free found
  rw [steady.size] at inside
  refine ⟨inside, free, ?_⟩
  rcases Nat.lt_or_ge (blockCount m.file) capacity with small | full
  · have unmarked : blockCount m.file ∉ m.stor.blockAllocator.allocated :=
      fun marked => Nat.lt_irrefl _ (steady.marked_lt _ marked)
    exact KvBlockAllocator.nextFree_le steady.start_le (by rw [steady.size]; exact small) unmarked
      found
  · omega

/-- The append point after a search starts at the block that was found. -/
theorem start_searched (steady : Steady m) :
    m.searched.stor.appendPoint.start = m.destination.getD 0 := by
  have moved : m.searched.stor.appendPoint.start =
      if m.destination.getD UINT32_MAX = UINT32_MAX then 0 else m.destination.getD UINT32_MAX := rfl
  rw [moved]
  cases found : m.destination with
  | none => rfl
  | some d =>
    have inside := (steady.usable.destination_free found).1
    exact if_neg (steady.usable.covers.fits.ne_max inside)

/-- After a search that found a block, the next one finds the same, while it is free. -/
theorem inRange_searched (usable : Usable m.stor) :
    m.searched.stor.appendPoint.InRange m.stor.blockAllocator := by
  have moved : m.searched.stor.appendPoint.currentAppendPoint =
      m.destination.getD UINT32_MAX := rfl
  rw [KvAppendPoint.InRange, moved]
  cases found : m.destination with
  | none => exact .inr rfl
  | some d => exact .inl (Nat.le_of_lt (usable.destination_free found).1)

theorem Steady.start_searched_le (steady : Steady m) :
    m.searched.stor.appendPoint.start ≤ blockCount m.file := by
  rw [start_searched steady]
  cases found : m.destination with
  | none => exact Nat.zero_le _
  | some d => exact (steady.destination found).2.2

theorem Steady.searched (steady : Steady m) : Steady m.searched where
  usable := ⟨steady.usable.opened, steady.usable.raw, steady.usable.covers,
    inRange_searched steady.usable⟩
  size := steady.size
  start_le := steady.start_searched_le
  marked_lt := steady.marked_lt
  count_le := steady.count_le

theorem Steady.wrote (steady : Steady m) (found : m.destination = some d) (block : KvBlock)
    (write : WriteResult) : Steady (m.wrote d block write) := by
  have inside := (steady.destination found).1
  obtain ⟨grows, bound⟩ := @blockCount_overwritten m.file d block write.changed
  refine ⟨steady.searched.usable, steady.size, Nat.le_trans steady.start_searched_le grows, ?_, ?_⟩
  · intro b marked
    exact Nat.lt_of_lt_of_le (steady.marked_lt b marked) grows
  · exact Nat.le_trans bound (Nat.max_le.mpr ⟨steady.count_le, inside⟩)

/-- The file after a complete write. -/
theorem count_wrote (block : KvBlock) {write : WriteResult} (full : sizeofKvBlock ≤ write.changed) :
    blockCount m.file ≤ blockCount (m.wrote d block write).file ∧
      d < blockCount (m.wrote d block write).file := by
  have count := @blockCount_overwritten_full m.file d block write.changed full
  have file : (m.wrote d block write).file = overwritten m.file d block write.changed := rfl
  rw [file, count]
  omega

/-- A valid block has gone to the destination. -/
structure Appended (m : Machine) (d : Nat) (block : KvBlock) (next : Machine) : Prop where
  found : m.destination = some d
  valid : block.validate = true
  file : validBlock next.file = Function.update (validBlock m.file) d (some block)
  counter : next.stor.currentSequenceNumber = m.nextSequence
  start : next.stor.appendPoint.start = d

theorem Steady.appended (steady : Steady m) (found : m.destination = some d) {block : KvBlock}
    (valid : block.validate = true) {write : WriteResult} (full : sizeofKvBlock ≤ write.changed) :
    Appended m d block (m.wrote d block write) where
  found := found
  valid := valid
  file := validBlock_overwritten full (steady.destination found).2.2 valid
  counter := rfl
  start := by
    have start := start_searched steady
    rw [found] at start
    exact start

/-- A valid block is the new one, or was there before. -/
theorem Appended.held {block : KvBlock} {next : Machine} (appended : Appended m d block next)
    {b : Nat} {held : KvBlock}
    (valid : validBlock next.file b = some held) :
    b = d ∧ held = block ∨ b ≠ d ∧ validBlock m.file b = some held := by
  rw [appended.file] at valid
  by_cases same : b = d
  · rw [same, Function.update_self, Option.some.injEq] at valid
    exact .inl ⟨same, valid.symm⟩
  · rw [Function.update_of_ne same] at valid
    exact .inr ⟨same, valid⟩

theorem Steady.committed (steady : Steady m) (found : m.destination = some d) (block : KvBlock)
    {write : WriteResult} (full : sizeofKvBlock ≤ write.changed) {key : UInt64}
    {allocator : KvBlockAllocator}
    (marks : Marks m.stor.directory m.stor.blockAllocator key d allocator) (dataBytes : UInt16) :
    Steady (m.committed d block write ⟨key, m.nextSequence, d, dataBytes⟩ allocator) := by
  have wrote := steady.wrote found block write
  obtain ⟨grows, inside⟩ := @count_wrote m d block write full
  refine ⟨⟨steady.usable.opened, steady.usable.raw, ⟨?_, ?_⟩, ?_⟩, marks.size.trans steady.size,
    wrote.start_le, ?_, wrote.count_le⟩
  · have fits := steady.usable.covers.fits
    rw [KvBlockAllocator.Fits, ← marks.size] at fits
    exact fits
  · intro key' entry lookup
    simp only [Machine.committed, KvDirectory.find_withEntry, marks.size] at lookup ⊢
    split at lookup
    · cases lookup
      exact (steady.usable.destination_free found).1
    · exact steady.usable.covers.inside lookup
  · have inRange := inRange_searched steady.usable
    rw [KvAppendPoint.InRange, ← marks.size] at inRange
    exact inRange
  · intro b marked
    rcases (marks.allocated b).mp marked with rfl | ⟨marked', _⟩
    · exact inside
    · exact Nat.lt_of_lt_of_le (steady.marked_lt b marked') grows

theorem Steady.removed (steady : Steady m) (found : m.destination = some d) (block : KvBlock)
    {write : WriteResult} {b : Nat} {allocator : KvBlockAllocator}
    (frees : Frees m.stor.blockAllocator b allocator) (key : UInt64) :
    Steady (removed m d block write key allocator) := by
  have wrote := steady.wrote found block write
  refine ⟨⟨steady.usable.opened, steady.usable.raw, ⟨?_, ?_⟩, ?_⟩, frees.size.trans steady.size,
    wrote.start_le, ?_, wrote.count_le⟩
  · have fits := steady.usable.covers.fits
    rw [KvBlockAllocator.Fits, ← frees.size] at fits
    exact fits
  · intro key' entry lookup
    simp only [KvStore.removed, find_without, frees.size] at lookup ⊢
    split at lookup
    · cases lookup
    · exact steady.usable.covers.inside lookup
  · have inRange := inRange_searched steady.usable
    rw [KvAppendPoint.InRange, ← frees.size] at inRange
    exact inRange
  · intro b' marked
    exact wrote.marked_lt b' ((frees.allocated b').mp marked).1

/-- A call on an open store that returns keeps it steady. -/
theorem Steady.step {port : Port} (steady : Steady m) {call : Call} (inProcess : call.InProcess)
    {response : Response} {next : Machine}
    (returned : exec port m call = .ok response next) : Steady next := by
  have outcome := @exec_outcome port m steady.usable call inProcess
  rw [returned] at outcome
  cases outcome with
  | got | rejected _ _ => exact steady
  | full _ _ _ => exact steady.searched
  | failed _ _ found _ _ | noNode _ found _ _ _ _ => exact steady.wrote found _ _
  | stored _ _ found code _ _ _ marks =>
    exact steady.committed found _ (WriteResult.changed_of_code_zero code) marks _
  | removed found _ _ _ _ frees => exact steady.removed found _ frees _

/-! ## Updates that go through -/

/-- What a set that went through has done. -/
structure Stored (m : Machine) (key : UInt64) (v : Value) (d : Nat) (block : KvBlock)
    (next : Machine) : Prop where
  steady : Steady next
  opened : next.opened = m.opened
  appended : Appended m d block next
  carries : Carries block key v.size (some v.data) m.nextSequence
  directory : next.stor.directory =
    m.stor.directory.withEntry ⟨key, m.nextSequence, d, v.size.toUInt16⟩
  marks : Marks m.stor.directory m.stor.blockAllocator key d next.stor.blockAllocator

/-- What a deletion that went through has done. -/
structure Deleted (m : Machine) (key : UInt64) (d : Nat) (block : KvBlock) (next : Machine) :
    Prop where
  steady : Steady next
  opened : next.opened = m.opened
  appended : Appended m d block next
  carries : Carries block key 0 none m.stor.currentSequenceNumber
  directory : next.stor.directory = without m.stor.directory key
  frees : ∀ {entry}, m.stor.directory.findEntryForKey key = some entry →
    Frees m.stor.blockAllocator entry.dataBlock next.stor.blockAllocator

theorem Stored.find {key : UInt64} {v : Value} {block : KvBlock} {next : Machine}
    (stored : Stored m key v d block next) :
    next.stor.directory.findEntryForKey key = some ⟨key, m.nextSequence, d, v.size.toUInt16⟩ := by
  rw [stored.directory, KvDirectory.find_withEntry, if_pos rfl]

theorem Steady.stored (steady : Steady m) (found : m.destination = some d) {block : KvBlock}
    {write : WriteResult} (code : write.code = some 0) {key : UInt64} {v : Value}
    (carries : Carries block key v.size (some v.data) m.nextSequence) {allocator : KvBlockAllocator}
    (marks : Marks m.stor.directory m.stor.blockAllocator key d allocator) :
    Stored m key v d block
      (m.committed d block write ⟨key, m.nextSequence, d, v.size.toUInt16⟩ allocator) := by
  have full := WriteResult.changed_of_code_zero code
  have appended := steady.appended found carries.valid full
  exact ⟨steady.committed found block full marks _, rfl,
    ⟨found, carries.valid, appended.file, rfl, appended.start⟩, carries, rfl, marks⟩

theorem Steady.deleted (steady : Steady m) (found : m.destination = some d) {block : KvBlock}
    {write : WriteResult} (code : write.code = some 0) {key : UInt64} {entry : DirectoryEntry}
    (lookup : m.stor.directory.findEntryForKey key = some entry)
    (carries : Carries block key 0 none m.stor.currentSequenceNumber)
    {allocator : KvBlockAllocator}
    (frees : Frees m.stor.blockAllocator entry.dataBlock allocator) :
    Deleted m key d block (KvStore.removed m d block write key allocator) := by
  have full := WriteResult.changed_of_code_zero code
  have appended := steady.appended found carries.valid full
  refine ⟨steady.removed found block frees key, rfl,
    ⟨found, carries.valid, appended.file, rfl, appended.start⟩, carries, rfl, ?_⟩
  intro entry' lookup'
  rw [lookup, Option.some.injEq] at lookup'
  exact lookup' ▸ frees

/-- A set with room for its block, memory, a complete write and the newest version. -/
theorem exec_set_stored (port : Port) (steady : Steady m) {env : BlockWrite} {key : UInt64}
    {v : Value} (valid : Valid v) (allocated : env.allocated = true)
    (found : m.destination = some d) (code : env.write.code = some 0)
    (newer : ∀ entry, m.stor.directory.findEntryForKey key = some entry →
      entry.sequence.toNat < m.nextSequence.toNat)
    (inserts : m.stor.directory.findEntryForKey key = none → env.insert = .inserted) :
    ∃ block next, exec port m (.set env key (some v)) = .ok ⟨0, none⟩ next ∧
      Stored m key v d block next := by
  have outcome := @set_outcome port m steady.usable env key (some v)
  generalize exec port m (.set env key (some v)) = result at outcome
  cases outcome with
  | rejected _ refused => exact absurd ⟨v, rfl, valid⟩ refused
  | nullPointer _ invalid => exact absurd ⟨allocated, by simp⟩ invalid
  | full _ _ none_ => rw [found] at none_; cases none_
  | failed named _ _ code' nonzero =>
    cases named
    rw [code, Option.some.injEq] at code'
    exact absurd code'.symm nonzero
  | stopped named _ code' =>
    cases named
    rw [code] at code'
    cases code'
  | asserted _ _ _ _ lookup order =>
    have order' := newer _ lookup
    omega
  | noEntry _ _ absent insert | noNode _ _ absent insert _ _ =>
    rw [inserts absent] at insert
    cases insert
  | stored _ _ found' _ _ _ carries marks =>
    obtain rfl := Option.some.inj (found.symm.trans found')
    exact ⟨_, _, rfl, steady.stored found code carries marks⟩

/-- A deletion with room for its block, memory and a complete write. -/
theorem exec_del_deleted (port : Port) (steady : Steady m) {env : BlockWrite} {key : UInt64}
    (live : m.stor.directory.Live key) (allocated : env.allocated = true)
    (found : m.destination = some d) (code : env.write.code = some 0) :
    ∃ block next, exec port m (.del env key) = .ok ⟨0, none⟩ next ∧
      Deleted m key d block next := by
  have outcome := @del_outcome port m steady.usable env key
  generalize exec port m (.del env key) = result at outcome
  cases outcome with
  | rejected _ refused => exact absurd live refused
  | nullPointer _ invalid => exact absurd allocated invalid
  | full _ _ none_ => rw [found] at none_; cases none_
  | failed named _ _ code' nonzero =>
    cases named
    rw [code, Option.some.injEq] at code'
    exact absurd code'.symm nonzero
  | stopped named _ code' =>
    cases named
    rw [code] at code'
    cases code'
  | removed found' _ lookup _ carries frees =>
    obtain rfl := Option.some.inj (found.symm.trans found')
    exact ⟨_, _, rfl, steady.deleted found code lookup carries frees⟩

/-- A free block at the start of the search is found at once, -/
theorem Steady.destination_start (steady : Steady m) (inside : m.stor.appendPoint.start < capacity)
    (free : m.stor.appendPoint.start ∉ m.stor.blockAllocator.allocated) :
    m.destination = some m.stor.appendPoint.start := by
  rw [← steady.size] at inside
  exact KvBlockAllocator.nextFree_of_free inside free

/-- and one right behind it if the start is taken. -/
theorem Steady.destination_succ (steady : Steady m)
    (inside : m.stor.appendPoint.start + 1 < capacity)
    (here : m.stor.appendPoint.start ∈ m.stor.blockAllocator.allocated)
    (free : m.stor.appendPoint.start + 1 ∉ m.stor.blockAllocator.allocated) :
    m.destination = some (m.stor.appendPoint.start + 1) := by
  rw [← steady.size] at inside
  exact KvBlockAllocator.nextFree_of_free_succ inside here free

/-- After a set the next block is the one behind, if it is free. -/
theorem Stored.destination {key : UInt64} {v : Value} {block : KvBlock} {next : Machine}
    (stored : Stored m key v d block next) (inside : d + 1 < capacity)
    (free : d + 1 ∉ m.stor.blockAllocator.allocated) : next.destination = some (d + 1) := by
  have start := stored.appended.start
  have succ := stored.steady.destination_succ
  rw [start] at succ
  refine succ inside ((stored.marks.allocated d).mpr (.inl rfl)) ?_
  intro marked
  rcases (stored.marks.allocated (d + 1)).mp marked with same | ⟨taken, _⟩
  · omega
  · exact free taken

/-- A set of a new key in a quiet environment. -/
theorem exec_set_new (port : Port) (steady : Steady m) (found : m.destination = some d)
    {key : UInt64} (absent : m.stor.directory.findEntryForKey key = none) :
    ∃ block next, exec port m (.set .quiet key (some .one)) = .ok ⟨0, none⟩ next ∧
      Stored m key .one d block next ∧
      ∀ b, b ∈ next.stor.blockAllocator.allocated ↔ b = d ∨ b ∈ m.stor.blockAllocator.allocated := by
  obtain ⟨block, next, returned, stored⟩ : ∃ block next,
      exec port m (.set .quiet key (some .one)) = .ok ⟨0, none⟩ next ∧
        Stored m key .one d block next :=
    exec_set_stored port steady one_valid rfl found rfl (by simp [absent]) (fun _ => rfl)
  refine ⟨block, next, returned, stored, fun b => ?_⟩
  rw [stored.marks.allocated]
  simp [absent]

/-- There is nowhere to write exactly when every block is marked. -/
theorem Steady.destination_eq_none (steady : Steady m) :
    m.destination = none ↔ capacity ≤ m.stor.blockAllocator.allocated.card := by
  rw [Machine.destination, KvAppendPoint.next_eq_none steady.usable.inRange, steady.size]
  have subset : m.stor.blockAllocator.allocated ⊆ Finset.range capacity := by
    intro b marked
    rw [← steady.size]
    exact Finset.mem_range.mpr (KvBlockAllocator.mem_allocated.mp marked).1
  constructor
  · intro full
    have all : Finset.range capacity ⊆ m.stor.blockAllocator.allocated :=
      fun b inside => full b (Finset.mem_range.mp inside)
    have count := Finset.card_le_card all
    rwa [Finset.card_range] at count
  · intro full b inside
    have same := Finset.eq_of_subset_of_card_le subset (by rw [Finset.card_range]; exact full)
    rw [same]
    exact Finset.mem_range.mpr inside

end Steady

end KeyValueStore.KvStore
