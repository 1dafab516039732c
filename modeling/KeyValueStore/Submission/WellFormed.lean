import Mathlib.Data.Finset.Card
import KeyValueStore.Submission.Reopen

/-! # The invariant of legitimate runs

`WellFormedLog` is about the file alone: all its blocks are valid, their sequences are
distinct, and as long as it has not reached its full size they increase.  A file that
some other writer left need only be an `AdoptableLog` for a store to take it over.  `Logged`
ties the memory of an open store to it.  `Good` is what holds between the calls of a
run in which every write changes its whole block or nothing, and `Good.update` and
`Good.reopen` are its two step lemmas. -/

namespace KeyValueStore

open VersionLog

structure WellFormedLog (file : Bytes) : Prop where
  count : blockCount file ≤ capacity
  valid : ∀ b, b < blockCount file → ∃ block, validBlock file b = some block
  fits : ∀ {b block}, validBlock file b = some block → block.header.dataBytes.toNat ≤ MAXBLOB
  distinct : DistinctSequences (fileLog file)
  ordered : blockCount file < capacity → ∀ {b b' key key' seq seq'},
    fileLog file b = some (key, seq) → fileLog file b' = some (key', seq') → b < b' → seq < seq'

/-- A file that a store can take over: its blocks may be in any order, and some of them
not valid. -/
structure AdoptableLog (file : Bytes) : Prop where
  count : blockCount file ≤ capacity
  fits : ∀ {b block}, validBlock file b = some block → block.header.dataBytes.toNat ≤ MAXBLOB
  distinct : DistinctVersions (fileLog file)

theorem WellFormedLog.adoptable {file : Bytes} (log : WellFormedLog file) : AdoptableLog file :=
  ⟨log.count, log.fits, log.distinct.versions⟩

/-- The block that replay leaves the append point at. -/
def AppendsAfter (log : Nat → Option (UInt64 × Nat)) (point : Nat) : Prop :=
  (∀ b, log b = none) ∧ point = 0 ∨ ∃ seq, Newest log point seq

/-- The memory of an open store agrees with its file. -/
structure Logged (m : Machine) : Prop where
  backed : Backed m
  indexes : Indexes m.stor.directory.index (fileLog m.file)
  counted : ∀ b key seq, fileLog m.file b = some (key, seq) →
    seq ≤ m.stor.currentSequenceNumber.toNat
  follows : ∃ point, AppendsAfter (fileLog m.file) point ∧
    m.destination = m.stor.blockAllocator.nextFree point

structure Good (m : Machine) : Prop where
  log : WellFormedLog m.file
  owns : Owns m.stor.directory m.stor.blockAllocator
  logged : m.opened = true → Logged m

/-! ## The file -/

namespace WellFormedLog

variable {file : Bytes}

/-- Every whole block of the file is a version. -/
theorem fileLog_isSome (log : WellFormedLog file) {b : Nat} (inside : b < blockCount file) :
    ∃ key seq, fileLog file b = some (key, seq) := by
  obtain ⟨block, valid⟩ := log.valid b inside
  exact ⟨_, _, fileLog_of_valid valid⟩

theorem empty : WellFormedLog [] where
  count := Nat.zero_le _
  valid := fun b impossible => absurd impossible (Nat.not_lt_zero b)
  fits := by
    intro b block valid
    simp [validBlock] at valid
  distinct := by
    intro slot slot' key key' seq stored
    simp at stored
  ordered := by
    intro _ b b' key key' seq seq' stored
    simp at stored

/-- A complete write of a newer version to the block where the log grows. -/
theorem append (log : WellFormedLog file) {d count : Nat} {block : KvBlock}
    (full : sizeofKvBlock ≤ count) (valid : block.validate = true)
    (fits : block.header.dataBytes.toNat ≤ MAXBLOB) (inside : d < capacity)
    (dense : d ≤ blockCount file) (grows : blockCount file < capacity → d = blockCount file)
    (fresh : ∀ b key seq, fileLog file b = some (key, seq) → seq < block.header.sequence.toNat) :
    WellFormedLog (overwritten file d block count) := by
  have counted : blockCount (overwritten file d block count) = max (blockCount file) (d + 1) :=
    blockCount_overwritten_full full
  have changed := fileLog_overwritten full dense valid
  have blocks : ∀ b, b ≠ d →
      validBlock (overwritten file d block count) b = validBlock file b := by
    intro b apart
    rw [validBlock_overwritten full dense valid, Function.update_of_ne apart]
  have written : validBlock (overwritten file d block count) d = some block := by
    rw [validBlock_overwritten full dense valid, Function.update_self]
  have held := log.count
  refine ⟨by omega, ?_, ?_, ?_, ?_⟩
  · intro b inside'
    by_cases same : b = d
    · rw [same]
      exact ⟨block, written⟩
    · rw [blocks b same]
      exact log.valid b (by omega)
  · intro b held valid'
    by_cases same : b = d
    · rw [same, written, Option.some.injEq] at valid'
      rw [← valid']
      exact fits
    · rw [blocks b same] at valid'
      exact log.fits valid'
  · rw [changed]
    refine DistinctSequences.record log.distinct ?_
    intro slot key stored
    exact absurd (fresh slot key _ stored) (Nat.lt_irrefl _)
  · intro small b b' key key' seq seq' stored stored' before
    have end_ := grows (by omega)
    rw [changed] at stored stored'
    -- The new block is the last one, so it can only be the later of the two.
    have apart : b ≠ d := by
      rintro rfl
      have apart' : b' ≠ b := by omega
      rw [Function.update_of_ne apart'] at stored'
      have inside' := fileLog_lt stored'
      omega
    rw [Function.update_of_ne apart] at stored
    by_cases same : b' = d
    · rw [same, Function.update_self, Option.some.injEq] at stored'
      have new := fresh b key seq stored
      rw [KvBlock.version, Prod.mk.injEq] at stored'
      omega
    · rw [Function.update_of_ne same] at stored'
      exact log.ordered (by omega) stored stored' before

end WellFormedLog

/-! ## Where the log grows -/

namespace Logged

variable {m : Machine} {d : Nat}

/-- The blocks of entries hold versions of the file. -/
theorem allocated_lt (logged : Logged m) (held : d ∈ m.stor.blockAllocator.allocated) :
    d < blockCount m.file := by
  obtain ⟨key, entry, found, rfl⟩ := (logged.backed.sound.owns.owned d).mp held
  exact fileLog_lt (logged.indexes.latest (KvDirectory.index_of_found found)).1

/-- The newest block of the file is the block of an entry. -/
theorem newest_allocated (log : WellFormedLog m.file) (logged : Logged m) {seq : Nat}
    (newest : Newest (fileLog m.file) d seq) : d ∈ m.stor.blockAllocator.allocated := by
  obtain ⟨⟨key, stored⟩, greatest⟩ := newest
  obtain ⟨⟨slot, latest⟩, named⟩ := logged.indexes.complete stored
  have held := (logged.indexes.latest named).1
  have same : seq = latest :=
    Nat.le_antisymm (logged.indexes.le stored named) (greatest slot key latest held)
  subst same
  obtain rfl : slot = d := log.distinct slot d key key seq held stored
  obtain ⟨entry, found, block, _⟩ := KvDirectory.index_eq_some.mp named
  exact block ▸ logged.backed.sound.owns.mem_of_find found

/-- The next block goes to the end of the file, until the file has its full size. -/
theorem destination_dense (log : WellFormedLog m.file) (logged : Logged m)
    (found : m.destination = some d) :
    d ≤ blockCount m.file ∧ (blockCount m.file < capacity → d = blockCount m.file) := by
  have inside := (logged.backed.sound.destination_free found).1
  have size := logged.backed.sound.owns.size
  rw [size] at inside
  have grows : blockCount m.file < capacity → d = blockCount m.file := by
    intro small
    obtain ⟨point, after, next⟩ := logged.follows
    rw [found] at next
    rcases after with ⟨empty, rfl⟩ | ⟨seq, newest⟩
    · -- An empty log starts at block 0.
      have none_ : blockCount m.file = 0 := by
        by_contra some_
        obtain ⟨key, seq, stored⟩ := log.fileLog_isSome (Nat.pos_of_ne_zero some_)
        rw [empty 0] at stored
        cases stored
      have free : 0 ∉ m.stor.blockAllocator.allocated := by
        intro held
        have bound := logged.allocated_lt held
        omega
      have first := KvBlockAllocator.nextFree_of_free (show 0 < _ by rw [size]; omega) free
      rw [first, Option.some.injEq] at next
      omega
    · -- Sequences increase along the file, so the newest block is the last one.
      have last : point + 1 = blockCount m.file := by
        obtain ⟨⟨key, stored⟩, greatest⟩ := newest
        have below := fileLog_lt stored
        by_contra notLast
        obtain ⟨key', seq', stored'⟩ :=
          log.fileLog_isSome (show blockCount m.file - 1 < blockCount m.file by omega)
        have above := log.ordered small stored stored' (by omega)
        have under := greatest _ _ _ stored'
        omega
      have free : point + 1 ∉ m.stor.blockAllocator.allocated := by
        intro held
        have bound := logged.allocated_lt held
        omega
      have second := KvBlockAllocator.nextFree_of_free_succ (show point + 1 < _ by rw [size]; omega)
        (logged.newest_allocated log newest) free
      rw [second, Option.some.injEq] at next
      omega
  refine ⟨?_, grows⟩
  have bound := log.count
  by_cases small : blockCount m.file < capacity
  · exact Nat.le_of_eq (grows small)
  · omega

end Logged

/-! ## Updates -/

/-- The destination belongs to no entry. -/
theorem Sound.unnamed {m : Machine} (sound : Sound m.stor) {d : Nat}
    (found : m.destination = some d) : Unnamed m.stor.directory.index d := by
  rintro key slot seq named rfl
  obtain ⟨entry, entryFound, rfl, _⟩ := KvDirectory.index_eq_some.mp named
  exact (sound.destination_free found).2 (sound.owns.mem_of_find entryFound)

/-- The append point at a block stands for the first free block from there. -/
theorem KvAppendPoint.next_of_small {d : Nat} (small : d < capacity) (scanned : UInt64)
    (allocator : KvBlockAllocator) :
    KvAppendPoint.next ⟨d, scanned⟩ allocator = allocator.nextFree d := by
  have notMax : d ≠ UINT32_MAX := by
    simp only [capacity, MAXKEYS, UINT32_MAX] at *
    omega
  simp only [next, start, if_neg notMax]

theorem Logged.fresh {m : Machine} (logged : Logged m)
    (noWrap : m.stor.currentSequenceNumber.toNat + 1 < 2 ^ 64) :
    ∀ b key seq, fileLog m.file b = some (key, seq) → seq < m.nextSequence.toNat := by
  intro b key seq stored
  have bound := logged.counted b key seq stored
  have next := Machine.nextSequence_toNat noWrap
  omega

/-- A completed append to a logged store that leaves no gap in the file. -/
theorem Logged.committed_of_le {m : Machine} (logged : Logged m)
    (noWrap : m.stor.currentSequenceNumber.toNat + 1 < 2 ^ 64) {d : Nat}
    (found : m.destination = some d) (dense : d ≤ blockCount m.file) {write : WriteResult}
    (full : sizeofKvBlock ≤ write.changed) {key size : UInt64} {valueData : Option Bytes}
    {block : KvBlock} (carries : Carries block key size valueData m.nextSequence)
    (payload : Payload size valueData) {allocator : KvBlockAllocator}
    (marks : Marks m.stor.directory m.stor.blockAllocator key d allocator) :
    Logged (m.committed d block write ⟨key, m.nextSequence, d, size.toUInt16⟩ allocator) := by
  have inside := (logged.backed.sound.destination_free found).1
  rw [logged.backed.sound.owns.size] at inside
  have fresh := logged.fresh noWrap
  have version : block.version = (key, m.nextSequence.toNat) := by
    rw [KvBlock.version, carries.keyId, carries.sequence_eq]
  have changed := fileLog_overwritten full dense carries.valid
  rw [version] at changed
  have newest : Newest (fileLog (overwritten m.file d block write.changed)) d
      m.nextSequence.toNat := by
    rw [changed]
    refine ⟨⟨key, Function.update_self ..⟩, ?_⟩
    intro b key' seq stored
    by_cases same : b = d
    · rw [same, Function.update_self, Option.some.injEq, Prod.mk.injEq] at stored
      omega
    · rw [Function.update_of_ne same] at stored
      exact Nat.le_of_lt (fresh b key' seq stored)
  refine ⟨logged.backed.committed noWrap found full carries payload marks, ?_, ?_, ?_⟩
  · show Indexes (m.stor.directory.withEntry _).index (fileLog (overwritten _ _ _ _))
    rw [changed, KvDirectory.index_withEntry]
    refine logged.indexes.record (logged.backed.sound.unnamed found) ?_
    intro slot seq named
    exact fresh _ _ _ (logged.indexes.latest named).1
  · exact newest.2
  · refine ⟨d, .inr ⟨m.nextSequence.toNat, ?_⟩, ?_⟩
    · exact newest
    · have moved : m.searched.stor.appendPoint.currentAppendPoint = d := by
        rw [Machine.destination] at found
        simp only [Machine.searched, found, Option.getD_some]
      show KvAppendPoint.next ⟨m.searched.stor.appendPoint.currentAppendPoint, _⟩ allocator = _
      rw [moved]
      exact KvAppendPoint.next_of_small inside _ allocator

/-- A completed append to a logged store. -/
theorem Logged.committed {m : Machine} (log : WellFormedLog m.file) (logged : Logged m)
    (noWrap : m.stor.currentSequenceNumber.toNat + 1 < 2 ^ 64) {d : Nat}
    (found : m.destination = some d) {write : WriteResult} (full : sizeofKvBlock ≤ write.changed)
    {key size : UInt64} {valueData : Option Bytes} {block : KvBlock}
    (carries : Carries block key size valueData m.nextSequence) (payload : Payload size valueData)
    {allocator : KvBlockAllocator}
    (marks : Marks m.stor.directory m.stor.blockAllocator key d allocator) :
    WellFormedLog (m.committed d block write ⟨key, m.nextSequence, d, size.toUInt16⟩
        allocator).file ∧
      Logged (m.committed d block write ⟨key, m.nextSequence, d, size.toUInt16⟩ allocator) := by
  obtain ⟨dense, grows⟩ := logged.destination_dense log found
  have inside := (logged.backed.sound.destination_free found).1
  rw [logged.backed.sound.owns.size] at inside
  have payloadFits := payload.fits
  refine ⟨log.append full carries.valid ?_ inside dense grows ?_,
    logged.committed_of_le noWrap found dense full carries payload marks⟩
  · rw [carries.dataBytes, MAXBLOB]
    omega
  · rw [carries.sequence_eq]
    exact logged.fresh noWrap

/-- A search alone, successful or not. -/
theorem Logged.searched {m : Machine} (logged : Logged m)
    (noWrap : m.stor.currentSequenceNumber.toNat + 1 < 2 ^ 64) : Logged m.searched where
  backed := logged.backed.searched noWrap
  indexes := logged.indexes
  counted := fun b key seq stored => Nat.le_of_lt (logged.fresh noWrap b key seq stored)
  follows := by
    obtain ⟨point, after, next⟩ := logged.follows
    refine ⟨point, after, ?_⟩
    have moved := KvAppendPoint.next_moved logged.backed.sound.inRange
      logged.backed.sound.owns.fits m.stor.appendPoint.lastScannedSequenceNumber
    exact moved.trans next

/-- What an update can do to a logged store when its write is all or nothing. -/
inductive LoggedUpdate (m : Machine) (call : Call) (env : BlockWrite) (key size : UInt64)
    (valueData : Option Bytes) : EStateM.Result Fault Machine Response → Prop where
  | rejected : ¬ call.Accepted m →
    LoggedUpdate m call env key size valueData (.ok ⟨call.rejection, none⟩ m)
  | full : call.Accepted m → m.destination = none → Logged m.searched →
    LoggedUpdate m call env key size valueData (.ok ⟨-ENOSPC, none⟩ m.searched)
  | failed {ret : Int} : call.Accepted m → m.destination ≠ none → env.write.code = some ret →
    ret ≠ 0 → Logged m.searched →
    LoggedUpdate m call env key size valueData (.ok ⟨ret, none⟩ m.searched)
  | crashed {next : Machine} : env.insert = .mallocNull →
    LoggedUpdate m call env key size valueData (.error .nullPointer next)
  | done {d : Nat} {block : KvBlock} {allocator : KvBlockAllocator} : call.Accepted m →
    m.destination = some d → Payload size valueData →
    Carries block key size valueData m.nextSequence → sizeofKvBlock ≤ env.write.changed →
    Marks m.stor.directory m.stor.blockAllocator key d allocator →
    LoggedUpdate m call env key size valueData (.ok ⟨0, none⟩
      (m.committed d block env.write ⟨key, m.nextSequence, d, size.toUInt16⟩ allocator))

/-- What an update can do to a good store when its write is all or nothing. -/
inductive GoodUpdate (m : Machine) (call : Call) (env : BlockWrite) (key : UInt64) :
    EStateM.Result Fault Machine Response → Prop where
  | rejected : ¬ call.Accepted m → GoodUpdate m call env key (.ok ⟨call.rejection, none⟩ m)
  | full : call.Accepted m → m.destination = none → Logged m.searched →
    GoodUpdate m call env key (.ok ⟨-ENOSPC, none⟩ m.searched)
  | failed {ret : Int} : call.Accepted m → m.destination ≠ none → env.write.code = some ret →
    ret ≠ 0 → Logged m.searched → GoodUpdate m call env key (.ok ⟨ret, none⟩ m.searched)
  | crashed {next : Machine} : env.insert = .mallocNull →
    GoodUpdate m call env key (.error .nullPointer next)
  | done {d : Nat} {next : Machine} : call.Accepted m → m.destination = some d →
    WellFormedLog next.file → Logged next → next.opened = m.opened →
    next.mapping = m.mapping.record call ⟨0, none⟩ →
    next.stor.directory.keys = insert key m.stor.directory.keys →
    blockCount next.file = max (blockCount m.file) (d + 1) →
    next.stor.currentSequenceNumber = m.nextSequence →
    GoodUpdate m call env key (.ok ⟨0, none⟩ next)

theorem WriteResult.AllOrNothing.cases {write : WriteResult} (all : write.AllOrNothing) :
    write.code = some 0 ∨ ∃ ret, write.code = some ret ∧ ret ≠ 0 ∧ write.changed = 0 := by
  cases write with
  | full => exact .inl rfl
  | short count =>
    obtain rfl : count = 0 := all
    exact .inr ⟨- EIO, rfl, by decide, rfl⟩
  | failed errno count => exact .inr ⟨errno.code, rfl, errno.code_ne_zero, all⟩
  | seekFailed errno => exact .inr ⟨errno.code, rfl, errno.code_ne_zero, rfl⟩
  | stopped _ => exact absurd all id

theorem Machine.wrote_nothing {m : Machine} {write : WriteResult} (nothing : write.changed = 0)
    (d : Nat) (block : KvBlock) : m.wrote d block write = m.searched := by
  simp only [wrote, nothing, overwritten_zero]
  rfl

theorem Logged.update_outcome {m : Machine} (logged : Logged m) {call : Call} {env : BlockWrite}
    {key size : UInt64} {valueData : Option Bytes} (appends : call.Appends env key size valueData)
    (noWrap : NoWrap m call) (all : env.write.AllOrNothing) (insert : env.insert ≠ .tsearchNull) :
    LoggedUpdate m call env key size valueData (exec m call) := by
  have outcome := exec_update logged.backed.sound appends
  generalize exec m call = result at outcome
  cases outcome with
  | rejected refused => exact .rejected refused
  | appended accepted payload carries outcome =>
    have small := noWrap.1 accepted
    have searched := logged.searched small
    cases outcome with
    | full none_ => exact .full accepted none_ searched
    | failed found code nonzero =>
      -- All or nothing: the file is as it was.
      have nothing : env.write.changed = 0 := by
        rcases all.cases with complete | ⟨_, _, _, nothing⟩
        · rw [code, Option.some.injEq] at complete
          exact absurd complete nonzero
        · exact nothing
      rw [Machine.wrote_nothing nothing]
      exact .failed accepted (by rw [found]; simp) code nonzero searched
    | stopped _ code =>
      rcases all.cases with complete | ⟨_, other, _⟩
      · rw [code] at complete
        cases complete
      · rw [code] at other
        cases other
    | reused _ _ lookup same =>
      have newer := Machine.Counted.fresh (fun _ _ => logged.backed.counted) small lookup
      rw [same] at newer
      exact absurd newer (Nat.lt_irrefl _)
    | stale _ _ lookup older =>
      have newer := Machine.Counted.fresh (fun _ _ => logged.backed.counted) small lookup
      omega
    | mallocNull _ _ _ failed => exact .crashed failed
    | tsearchNull _ _ _ failed => exact absurd failed insert
    | done found code newest _ marks =>
      exact .done accepted found payload carries (WriteResult.changed_of_code_zero code) marks

theorem Logged.update {m : Machine} (log : WellFormedLog m.file) (logged : Logged m) {call : Call}
    {env : BlockWrite} {key size : UInt64} {valueData : Option Bytes}
    (appends : call.Appends env key size valueData) (noWrap : NoWrap m call)
    (all : env.write.AllOrNothing) (insert : env.insert ≠ .tsearchNull) :
    GoodUpdate m call env key (exec m call) := by
  have outcome := logged.update_outcome appends noWrap all insert
  generalize exec m call = result at outcome
  cases outcome with
  | rejected refused => exact .rejected refused
  | full accepted none_ searched => exact .full accepted none_ searched
  | failed accepted some_ code nonzero searched =>
    exact .failed accepted some_ code nonzero searched
  | crashed failed => exact .crashed failed
  | done accepted found payload carries full marks =>
    obtain ⟨log', logged'⟩ :=
      logged.committed log (noWrap.1 accepted) found full carries payload marks
    refine .done accepted found log' logged' rfl ?_ ?_ ?_ rfl
    · exact logged.backed.mapping_committed accepted appends payload carries found full _
    · exact KvDirectory.keys_withEntry _ _
    · exact blockCount_overwritten_full full

end KeyValueStore
