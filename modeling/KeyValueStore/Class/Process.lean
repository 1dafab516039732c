import KeyValueStore.Class.LiveBlocks

/-! # A store in one process

From its creation until it is closed a store keeps `InService`, as long as its reads and
writes are complete and its counter does not wrap.  The part about the file is
`OrderedLog`: the counter has reached every block, the blocks with data have sequence
numbers of their own, and the block of a deletion is where the next one goes. -/

namespace KeyValueStore.KvStore

open Runs VersionLog

structure OrderedLog (m : Machine) : Prop where
  counted : ∀ {b block}, validBlock m.file b = some block →
    block.header.sequence.toNat ≤ m.stor.currentSequenceNumber.toNat
  distinct : ∀ {b b' block block'}, validBlock m.file b = some block →
    validBlock m.file b' = some block' → block.header.dataBytes ≠ 0 →
    block'.header.dataBytes ≠ 0 → block.header.sequence = block'.header.sequence → b = b'
  /-- A deletion stands at the append point, in a free block, and nothing is newer. -/
  deletion : ∀ {b block}, validBlock m.file b = some block → block.header.dataBytes = 0 →
    b = m.stor.appendPoint.start ∧ b ∉ m.stor.blockAllocator.allocated ∧
      ∀ b' block', validBlock m.file b' = some block' →
        block'.header.sequence.toNat ≤ block.header.sequence.toNat

section Append

variable {m next : Machine} {d : Nat} {block : KvBlock}

/-- The block of a deletion is overwritten by the next write. -/
theorem OrderedLog.destination (ordered : OrderedLog m) (steady : Steady m) {b : Nat}
    {old : KvBlock} (valid : validBlock m.file b = some old) (deleted : old.header.dataBytes = 0) :
    m.destination = some b := by
  obtain ⟨here, free, _⟩ := ordered.deletion valid deleted
  have inside := blockAt_isSome (validBlock_eq_some.mp valid).1
  have small := steady.count_le
  rw [here] at free inside ⊢
  exact steady.destination_start (by omega) free

theorem Appended.counter_toNat (appended : Appended m d block next)
    (noWrap : m.stor.currentSequenceNumber.toNat + 1 < 2 ^ 64) :
    next.stor.currentSequenceNumber.toNat = m.stor.currentSequenceNumber.toNat + 1 := by
  rw [appended.counter, Machine.nextSequence_toNat noWrap]

/-- A deletion that was there before has been overwritten. -/
theorem OrderedLog.overwrites (ordered : OrderedLog m) (steady : Steady m)
    (appended : Appended m d block next) {b : Nat} {old : KvBlock}
    (valid : validBlock m.file b = some old) (deleted : old.header.dataBytes = 0) : b = d := by
  have here := ordered.destination steady valid deleted
  rw [appended.found, Option.some.injEq] at here
  exact here.symm

/-- A block with data and the next sequence number. -/
theorem OrderedLog.data (ordered : OrderedLog m) (steady : Steady m)
    (appended : Appended m d block next)
    (noWrap : m.stor.currentSequenceNumber.toNat + 1 < 2 ^ 64)
    (sequence : block.header.sequence = m.nextSequence) (live : block.header.dataBytes ≠ 0) :
    OrderedLog next := by
  have counter := appended.counter_toNat noWrap
  have newest : block.header.sequence.toNat = m.stor.currentSequenceNumber.toNat + 1 := by
    rw [sequence, Machine.nextSequence_toNat noWrap]
  have newer : ∀ {b old}, validBlock m.file b = some old →
      old.header.sequence ≠ block.header.sequence := by
    intro b old valid same
    have bound := ordered.counted valid
    rw [same] at bound
    omega
  refine ⟨?_, ?_, ?_⟩
  · intro b held valid
    rcases appended.held valid with ⟨_, rfl⟩ | ⟨_, valid'⟩
    · omega
    · have bound := ordered.counted valid'
      omega
  · intro b b' held held' valid valid' live live' equal
    rcases appended.held valid with ⟨here, rfl⟩ | ⟨_, old⟩ <;>
      rcases appended.held valid' with ⟨here', rfl⟩ | ⟨_, old'⟩
    · rw [here, here']
    · exact absurd equal.symm (newer old')
    · exact absurd equal (newer old)
    · exact ordered.distinct old old' live live' equal
  · intro b held valid deleted
    rcases appended.held valid with ⟨_, rfl⟩ | ⟨other, old⟩
    · exact absurd deleted live
    · exact absurd (ordered.overwrites steady appended old deleted) other

/-- A deletion with the sequence number that the counter stands at. -/
theorem OrderedLog.tombstone (ordered : OrderedLog m) (steady : Steady m)
    (appended : Appended m d block next)
    (noWrap : m.stor.currentSequenceNumber.toNat + 1 < 2 ^ 64)
    (sequence : block.header.sequence = m.stor.currentSequenceNumber)
    (deleted : block.header.dataBytes = 0) (free : d ∉ next.stor.blockAllocator.allocated) :
    OrderedLog next := by
  have counter := appended.counter_toNat noWrap
  have bound : ∀ {b held}, validBlock next.file b = some held →
      held.header.sequence.toNat ≤ block.header.sequence.toNat := by
    intro b held valid
    rcases appended.held valid with ⟨_, rfl⟩ | ⟨_, old⟩
    · exact Nat.le_refl _
    · rw [sequence]
      exact ordered.counted old
  refine ⟨?_, ?_, ?_⟩
  · intro b held valid
    have above := bound valid
    rw [sequence] at above
    omega
  · intro b b' held held' valid valid' live live' equal
    rcases appended.held valid with ⟨_, rfl⟩ | ⟨_, old⟩
    · exact absurd deleted live
    · rcases appended.held valid' with ⟨_, rfl⟩ | ⟨_, old'⟩
      · exact absurd deleted live'
      · exact ordered.distinct old old' live live' equal
  · intro b held valid deleted'
    rw [appended.start]
    rcases appended.held valid with ⟨rfl, rfl⟩ | ⟨other, old⟩
    · exact ⟨rfl, free, fun _ _ => bound⟩
    · exact absurd (ordered.overwrites steady appended old deleted') other

/-- When no block is free there is no deletion in the file. -/
theorem OrderedLog.searched (ordered : OrderedLog m) (steady : Steady m)
    (full : m.destination = none) (noWrap : m.stor.currentSequenceNumber.toNat + 1 < 2 ^ 64) :
    OrderedLog m.searched := by
  have counter : m.searched.stor.currentSequenceNumber.toNat =
      m.stor.currentSequenceNumber.toNat + 1 := Machine.nextSequence_toNat noWrap
  refine ⟨?_, ordered.distinct, ?_⟩
  · intro b block valid
    have bound := ordered.counted valid
    omega
  · intro b block valid deleted
    have here := ordered.destination steady valid deleted
    rw [full] at here
    cases here

end Append

/-! ## The directory -/

/-- The entries are those of the values that were set last, each held by its block. -/
structure InService (m : Machine) : Prop where
  steady : Steady m
  marksLive : MarksLive m.stor
  ordered : OrderedLog m
  live : ∀ {key entry}, m.stor.directory.findEntryForKey key = some entry → entry.dataBytes ≠ 0
  fits : ∀ {key entry}, m.stor.directory.findEntryForKey key = some entry →
    entry.dataBytes.toNat ≤ MAXBLOB
  holds : ∀ {key entry}, m.stor.directory.findEntryForKey key = some entry →
    ∃ block, validBlock m.file entry.dataBlock = some block ∧ HoldsEntry block entry

theorem inService_fresh (fd : Nat) : InService (fresh fd) := by
  have empty : ∀ b, validBlock (fresh fd).file b = none := by
    intro b
    simp [fresh, validBlock]
  refine ⟨steady_fresh fd, marksLive_initial _, ⟨?_, ?_, ?_⟩, ?_, ?_, ?_⟩
  · intro b block valid
    simp [empty] at valid
  · intro b b' block block' valid
    simp [empty] at valid
  · intro b block valid
    simp [empty] at valid
  all_goals
    intro key entry found
    cases found

/-- What of this is left when writes may fail. -/
structure Intact (m : Machine) : Prop where
  steady : Steady m
  marksLive : MarksLive m.stor
  /-- The counter has reached every entry. -/
  counted : m.Counted
  live : ∀ {key entry}, m.stor.directory.findEntryForKey key = some entry → entry.dataBytes ≠ 0
  fits : ∀ {key entry}, m.stor.directory.findEntryForKey key = some entry →
    entry.dataBytes.toNat ≤ MAXBLOB
  holds : ∀ {key entry}, m.stor.directory.findEntryForKey key = some entry →
    ∃ block, validBlock m.file entry.dataBlock = some block ∧ HoldsEntry block entry

theorem InService.intact {m : Machine} (inService : InService m) : Intact m where
  steady := inService.steady
  marksLive := inService.marksLive
  counted := by
    intro key entry found
    obtain ⟨block, valid, holds⟩ := inService.holds found
    rw [← holds.sequence]
    exact inService.ordered.counted valid
  live := inService.live
  fits := inService.fits
  holds := inService.holds

namespace Intact

variable {m next : Machine} {d : Nat} {key : UInt64} {entry : DirectoryEntry}

theorem allocated (intact : Intact m)
    (found : m.stor.directory.findEntryForKey key = some entry) :
    entry.dataBlock ∈ m.stor.blockAllocator.allocated :=
  (intact.marksLive.marked _).mpr ⟨key, entry, found, intact.live found, rfl⟩

/-- A write to a free block leaves the blocks of the entries alone. -/
theorem apart (intact : Intact m) (found : m.stor.directory.findEntryForKey key = some entry)
    (destination : m.destination = some d) : entry.dataBlock ≠ d := by
  rintro rfl
  exact (intact.steady.destination destination).2.1 (intact.allocated found)

theorem untouched (intact : Intact m) {block : KvBlock} (appended : Appended m d block next)
    (found : m.stor.directory.findEntryForKey key = some entry) :
    validBlock next.file entry.dataBlock = validBlock m.file entry.dataBlock := by
  rw [appended.file, Function.update_of_ne (intact.apart found appended.found)]

theorem kept (intact : Intact m) {block : KvBlock} (appended : Appended m d block next)
    (found : m.stor.directory.findEntryForKey key = some entry) :
    ∃ block, validBlock next.file entry.dataBlock = some block ∧ HoldsEntry block entry := by
  rw [intact.untouched appended found]
  exact intact.holds found

/-- A write that stops anywhere in its block touches no block of an entry. -/
theorem blockAt_wrote (intact : Intact m) (destination : m.destination = some d) (block : KvBlock)
    (write : WriteResult) (found : m.stor.directory.findEntryForKey key = some entry) :
    blockAt (m.wrote d block write).file entry.dataBlock = blockAt m.file entry.dataBlock := by
  obtain ⟨held, valid, _⟩ := intact.holds found
  have inside := blockAt_isSome (validBlock_eq_some.mp valid).1
  exact blockAt_overwritten_of_ne (intact.apart found destination) inside

/-- A set that goes through: its key has an entry for the new block. -/
theorem stored (intact : Intact m) {v : Value} (valid : Valid v) {block : KvBlock}
    (stored : Stored m key v d block next) (marksLive : MarksLive next.stor)
    (noWrap : m.stor.currentSequenceNumber.toNat + 1 < 2 ^ 64) : Intact next := by
  have holds := stored.carries.holds valid.payload.fits d
  have counter := stored.appended.counter
  have entries : ∀ {key' entry}, next.stor.directory.findEntryForKey key' = some entry →
      entry = ⟨key, m.nextSequence, d, v.size.toUInt16⟩ ∨
        m.stor.directory.findEntryForKey key' = some entry := by
    intro key' entry found
    rw [stored.directory, KvDirectory.find_withEntry] at found
    split at found
    · exact .inl (Option.some.inj found).symm
    · exact .inr found
  refine ⟨stored.steady, marksLive, ?_, ?_, ?_, ?_⟩
  · intro key' entry found
    rw [counter]
    rcases entries found with rfl | old
    · exact Nat.le_refl _
    · exact Nat.le_of_lt (intact.counted.fresh noWrap old)
  · intro key' entry found
    rcases entries found with rfl | old
    · exact valid.live
    · exact intact.live old
  · intro key' entry found
    rcases entries found with rfl | old
    · rw [valid.dataBytes]
      exact valid.2
    · exact intact.fits old
  · intro key' entry found
    rcases entries found with rfl | old
    · refine ⟨block, ?_, holds⟩
      rw [stored.appended.file, Function.update_self]
    · exact intact.kept stored.appended old

/-- A deletion that goes through: its key has no entry. -/
theorem deleted (intact : Intact m) {block : KvBlock} (deleted : Deleted m key d block next)
    (marksLive : MarksLive next.stor)
    (noWrap : m.stor.currentSequenceNumber.toNat + 1 < 2 ^ 64) : Intact next := by
  have entries : ∀ {key' entry}, next.stor.directory.findEntryForKey key' = some entry →
      m.stor.directory.findEntryForKey key' = some entry := by
    intro key' entry found'
    rw [deleted.directory, find_without] at found'
    split at found'
    · cases found'
    · exact found'
  refine ⟨deleted.steady, marksLive, ?_, fun found' => intact.live (entries found'),
    fun found' => intact.fits (entries found'),
    fun found' => intact.kept deleted.appended (entries found')⟩
  intro key' entry found'
  rw [deleted.appended.counter]
  exact Nat.le_of_lt (intact.counted.fresh noWrap (entries found'))

/-- No entry is that of a deletion. -/
theorem harmless (intact : Intact m) (call : Call) : ¬ FreesTaken m call := by
  intro frees
  cases call with
  | del _ _ | get _ _ _ _ | reopen _ _ => exact frees
  | set env key v =>
    cases v with
    | none => exact frees
    | some v =>
      obtain ⟨_, _, _, _, entry, found, _, deleted, _⟩ := frees
      exact intact.live found deleted

/-- Whatever its reads and writes do. -/
theorem step {port : Port} (intact : Intact m) {call : Call} (inProcess : call.InProcess)
    (noWrap : NoWrap m call) {response : Response}
    (returned : exec port m call = .ok response next) : Intact next := by
  have steady := intact.steady.step inProcess returned
  have marksLive :=
    MarksLive.step intact.steady intact.marksLive inProcess (intact.harmless call) returned
  have wrote : ∀ {d block write}, m.destination = some d → next = m.wrote d block write →
      m.stor.currentSequenceNumber.toNat + 1 < 2 ^ 64 → Intact next := by
    rintro d block write destination rfl small
    refine ⟨steady, marksLive, intact.counted.searched small, intact.live, intact.fits, ?_⟩
    intro key entry found
    obtain ⟨held, valid, holds⟩ := intact.holds found
    refine ⟨held, ?_, holds⟩
    rw [validBlock, intact.blockAt_wrote destination block write found]
    exact valid
  have outcome := @exec_outcome port m intact.steady.usable call inProcess
  rw [returned] at outcome
  cases outcome with
  | got | rejected _ _ => exact intact
  | full _ accepted _ =>
    exact ⟨steady, marksLive, intact.counted.searched (noWrap accepted), intact.live, intact.fits,
      intact.holds⟩
  | failed _ accepted destination _ _ => exact wrote destination rfl (noWrap accepted)
  | noNode valid destination _ _ _ _ => exact wrote destination rfl (noWrap ⟨_, rfl, valid⟩)
  | stored valid _ destination code _ _ carries marks =>
    exact intact.stored valid (intact.steady.stored destination code carries marks) marksLive
      (noWrap ⟨_, rfl, valid⟩)
  | removed destination code lookup live carries frees =>
    exact intact.deleted (intact.steady.deleted destination code lookup carries frees) marksLive
      (noWrap ⟨_, lookup, live⟩)

end Intact

namespace InService

variable {m next : Machine}

/-- With complete reads and writes the file keeps its order as well. -/
theorem step {port : Port} (inService : InService m) {call : Call} (inProcess : call.InProcess)
    (io : call.IoSucceeds) (noWrap : NoWrap m call) {response : Response}
    (returned : exec port m call = .ok response next) : InService next := by
  have intact := inService.intact.step inProcess noWrap returned
  suffices ordered : OrderedLog next from
    ⟨intact.steady, intact.marksLive, ordered, intact.live, intact.fits, intact.holds⟩
  have outcome := @exec_outcome port m inService.steady.usable call inProcess
  rw [returned] at outcome
  cases outcome with
  | got | rejected _ _ => exact inService.ordered
  | full _ accepted none_ =>
    exact inService.ordered.searched inService.steady none_ (noWrap accepted)
  | failed named _ _ code nonzero =>
    rw [io.write named] at code
    exact absurd (Option.some.inj code).symm nonzero
  | noNode valid found _ _ code carries =>
    have appended := inService.steady.appended found carries.valid
      (WriteResult.changed_of_code_zero code)
    exact inService.ordered.data inService.steady appended (noWrap ⟨_, rfl, valid⟩)
      carries.sequence_eq (valid.data carries)
  | stored valid _ found code _ _ carries marks =>
    have stored := inService.steady.stored found code carries marks
    exact inService.ordered.data inService.steady stored.appended (noWrap ⟨_, rfl, valid⟩)
      carries.sequence_eq (valid.data carries)
  | removed found code lookup live carries frees =>
    have deleted := inService.steady.deleted found code lookup carries frees
    have holds := carries.holds (by decide) 0
    refine inService.ordered.tombstone inService.steady deleted.appended (noWrap ⟨_, lookup, live⟩)
      holds.sequence holds.dataBytes ?_
    -- The block of the deletion stays free.
    intro marked
    have before := (((deleted.frees lookup).allocated _).mp marked).1
    exact (inService.steady.destination found).2.1 before

end InService

end KeyValueStore.KvStore
