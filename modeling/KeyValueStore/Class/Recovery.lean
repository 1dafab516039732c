import KeyValueStore.Class.Deletions
import KeyValueStore.Class.Refinement

/-! # What the first reopen finds

A process of the class store writes a file, and the next one opens it.  Every key that is
present is found again, with its value, and every value that is found was set once.  A
deleted key may come back, for its deletion is overwritten by the next update; and if the
last update deletes the key that the one before it set, the file cannot be opened at all
(`first_reopen`). -/

namespace KeyValueStore.KvStore

open Runs VersionLog

inductive Update where
  | set (key : UInt64) (value : Bytes)
  | del (key : UInt64)

/-- The updates that returned 0, the last one first. -/
def recordUpdate (updates : List Update) (call : Call) (response : Response) : List Update :=
  if response.ret = 0 then
    match call with
    | .set _ key (some v) => .set key v.bytes :: updates
    | .del _ key => .del key :: updates
    | .set _ _ none | .get .. | .reopen .. => updates
  else updates

theorem recordUpdate_of_ne_zero {updates : List Update} {call : Call} {response : Response}
    (failed : response.ret ≠ 0) : recordUpdate updates call response = updates := if_neg failed

/-- The map that they leave. -/
def mappingAfter : List Update → Mapping
  | [] => Mapping.empty
  | .set key value :: older => Function.update (mappingAfter older) key (some value)
  | .del key :: older => Function.update (mappingAfter older) key none

/-- The last update deletes the key that the one before it set. -/
def Undoes : List Update → Prop
  | .del key :: .set key' _ :: _ => key = key'
  | _ => False

/-- What a store that was opened on the file of a process answers. -/
structure Recovers (port : Port) (opened : Machine) (updates : List Update)
    (recovered : Mapping) : Prop where
  answers : ∀ key v, ∃ response, exec port opened (.get true .full key v) = .ok response opened ∧
    Answers recovered (.get true .full key v) response
  kept : ∀ key value, mappingAfter updates key = some value → recovered key = some value
  written : ∀ key value, recovered key = some value → .set key value ∈ updates

/-- The sequence number of the last set, if it is the last update, is that of the counter. -/
def LastAtCounter (m : Machine) : List Update → Prop
  | .set key _ :: _ => m.destination = none ∨
    ∃ entry, m.stor.directory.findEntryForKey key = some entry ∧
      entry.sequence = m.stor.currentSequenceNumber
  | [] | .del _ :: _ => ∀ b block, validBlock m.file b = some block → block.header.dataBytes ≠ 0 →
    block.header.sequence.toNat < m.stor.currentSequenceNumber.toNat

/-- A file, and the updates that made it. -/
structure Traced (m : Machine) (updates : List Update) : Prop where
  inService : InService m
  mapping : m.mapping = mappingAfter updates
  /-- An entry is the newest version of its key. -/
  newest : ∀ {key entry}, m.stor.directory.findEntryForKey key = some entry →
    ∀ {b block}, validBlock m.file b = some block → block.header.keyId = key →
      block.header.sequence.toNat ≤ entry.sequence.toNat
  written : ∀ {b block}, validBlock m.file b = some block → block.header.dataBytes ≠ 0 →
    block.header.dataBytes.toNat ≤ MAXBLOB ∧
      .set block.header.keyId (block.data.take block.header.dataBytes.toNat) ∈ updates
  last : LastAtCounter m updates
  distinct : DistinctVersions (fileLog m.file) ↔ ¬ Undoes updates

theorem traced_fresh (fd : Nat) : Traced (fresh fd) [] := by
  have empty : ∀ b, validBlock (fresh fd).file b = none := by
    intro b
    simp [fresh, validBlock]
  refine ⟨inService_fresh fd, rfl, ?_, ?_, ?_, ?_⟩
  · intro key entry found
    cases found
  · intro b block valid
    simp [empty] at valid
  · intro b block valid
    simp [empty] at valid
  · refine iff_of_true ?_ id
    intro b b' version stored
    obtain ⟨block, valid, _⟩ := fileLog_eq_some.mp stored
    simp [empty] at valid

namespace Traced

variable {m next : Machine} {updates : List Update} {d : Nat} {block : KvBlock} {key : UInt64}

/-- A file without a deletion has every version once. -/
theorem distinct_of_data (ordered : OrderedLog m)
    (data : ∀ b block, validBlock m.file b = some block → block.header.dataBytes ≠ 0) :
    DistinctVersions (fileLog m.file) := by
  rintro b b' version stored stored'
  obtain ⟨held, valid, rfl⟩ := fileLog_eq_some.mp stored
  obtain ⟨held', valid', same⟩ := fileLog_eq_some.mp stored'
  have sequence := UInt64.toNat_inj.mp (congrArg Prod.snd same)
  exact ordered.distinct valid valid' (data b held valid) (data b' held' valid') sequence.symm

theorem searched (traced : Traced m updates) (full : m.destination = none)
    (noWrap : m.stor.currentSequenceNumber.toNat + 1 < 2 ^ 64)
    (inService : InService m.searched) : Traced m.searched updates where
  inService := inService
  mapping := traced.mapping
  newest := traced.newest
  written := traced.written
  distinct := traced.distinct
  last := by
    have counter : m.searched.stor.currentSequenceNumber.toNat =
        m.stor.currentSequenceNumber.toNat + 1 := Machine.nextSequence_toNat noWrap
    have behind : ∀ b block, validBlock m.searched.file b = some block →
        block.header.dataBytes ≠ 0 →
        block.header.sequence.toNat < m.searched.stor.currentSequenceNumber.toNat := by
      intro b block valid _
      have bound := traced.inService.ordered.counted valid
      omega
    cases updates with
    | nil => exact behind
    | cons update older =>
      cases update with
      | del _ => exact behind
      | set _ _ =>
        -- A full store stays full.
        refine .inl ?_
        rw [inService.steady.destination_eq_none]
        exact traced.inService.steady.destination_eq_none.mp full

theorem stored (traced : Traced m updates) {v : Value} (valid : Valid v)
    (stored : Stored m key v d block next)
    (noWrap : m.stor.currentSequenceNumber.toNat + 1 < 2 ^ 64) (inService : InService next) :
    Traced next (.set key v.bytes :: updates) := by
  have holds := stored.carries.holds valid.payload.fits d
  have live : block.header.dataBytes ≠ 0 := valid.data stored.carries
  have bound := @traced.inService.ordered.counted
  have number := Machine.nextSequence_toNat noWrap
  refine ⟨inService, ?_, ?_, ?_, .inr ⟨_, stored.find, stored.appended.counter.symm⟩, ?_⟩
  · rw [traced.inService.intact.mapping_stored valid stored, traced.mapping, mappingAfter]
  · intro key' entry found b held valid' keyId
    rw [stored.directory, KvDirectory.find_withEntry] at found
    rcases stored.appended.held valid' with ⟨_, rfl⟩ | ⟨_, old⟩
    · rw [stored.carries.keyId] at keyId
      rw [if_pos keyId.symm, Option.some.injEq] at found
      rw [← found, stored.carries.sequence_eq]
    · split at found
      · cases found
        have counted := bound old
        show _ ≤ m.nextSequence.toNat
        omega
      · exact traced.newest found old keyId
  · intro b held valid' data
    rcases stored.appended.held valid' with ⟨_, rfl⟩ | ⟨_, old⟩
    · rw [holds.dataBytes, holds.keyId, valid.dataBytes, stored.carries.data _ rfl]
      exact ⟨valid.2, List.mem_cons_self ..⟩
    · obtain ⟨fits, member⟩ := traced.written old data
      exact ⟨fits, List.mem_cons_of_mem _ member⟩
  · refine iff_of_true (distinct_of_data inService.ordered ?_) id
    -- A deletion can only stand where the set has just been written.
    intro b held valid' deleted
    obtain ⟨here, _, _⟩ := inService.ordered.deletion valid' deleted
    rw [here, stored.appended.start, stored.appended.file, Function.update_self,
      Option.some.injEq] at valid'
    exact live (valid' ▸ deleted)

/-- The blocks beside that of a deletion have data. -/
theorem data_of_ne (traced : Traced m updates) (appended : Appended m d block next) {b : Nat}
    {held : KvBlock} (other : b ≠ d) (old : validBlock m.file b = some held) :
    held.header.dataBytes ≠ 0 :=
  fun deleted =>
    other (traced.inService.ordered.overwrites traced.inService.steady appended old deleted)

/-- A deletion repeats a version exactly if a block with data has its key and number. -/
theorem distinct_deleted (traced : Traced m updates) (deleted : Deleted m key d block next) :
    DistinctVersions (fileLog next.file) ↔
      ¬ ∃ b held, b ≠ d ∧ validBlock m.file b = some held ∧ held.header.keyId = key ∧
        held.header.sequence = m.stor.currentSequenceNumber := by
  have here : fileLog next.file d = some (key, m.stor.currentSequenceNumber.toNat) := by
    have valid : validBlock next.file d = some block := by
      rw [deleted.appended.file, Function.update_self]
    rw [fileLog_of_valid valid, deleted.carries.keyId, deleted.carries.sequence_eq]
  constructor
  · rintro distinct ⟨b, held, other, valid, rfl, sequence⟩
    have valid' : validBlock next.file b = some held := by
      rw [deleted.appended.file, Function.update_of_ne other, valid]
    have stored := fileLog_of_valid valid'
    rw [sequence] at stored
    exact other (distinct _ _ _ stored here)
  · intro apart b b' version stored stored'
    obtain ⟨held, valid, rfl⟩ := fileLog_eq_some.mp stored
    obtain ⟨held', valid', same⟩ := fileLog_eq_some.mp stored'
    obtain ⟨keyId, number⟩ := Prod.mk.inj same
    have sequence := UInt64.toNat_inj.mp number
    rcases deleted.appended.held valid with ⟨at_, rfl⟩ | ⟨other, old⟩ <;>
      rcases deleted.appended.held valid' with ⟨at', rfl⟩ | ⟨other', old'⟩
    · rw [at_, at']
    · rw [deleted.carries.keyId] at keyId
      rw [deleted.carries.sequence_eq] at sequence
      exact absurd ⟨b', held', other', old', keyId, sequence⟩ apart
    · rw [deleted.carries.keyId] at keyId
      rw [deleted.carries.sequence_eq] at sequence
      exact absurd ⟨b, held, other, old, keyId.symm, sequence.symm⟩ apart
    · exact traced.inService.ordered.distinct old old' (traced.data_of_ne deleted.appended other old)
        (traced.data_of_ne deleted.appended other' old') sequence.symm

/-- There is a block with its key and number exactly if that key was the last to be set. -/
theorem undoes_iff (traced : Traced m updates) (deleted : Deleted m key d block next) :
    Undoes (.del key :: updates) ↔
      ∃ b held, b ≠ d ∧ validBlock m.file b = some held ∧ held.header.keyId = key ∧
        held.header.sequence = m.stor.currentSequenceNumber := by
  have behind : (∀ b block, validBlock m.file b = some block → block.header.dataBytes ≠ 0 →
      block.header.sequence.toNat < m.stor.currentSequenceNumber.toNat) →
      ¬ ∃ b held, b ≠ d ∧ validBlock m.file b = some held ∧ held.header.keyId = key ∧
        held.header.sequence = m.stor.currentSequenceNumber := by
    rintro below ⟨b, held, other, valid, _, sequence⟩
    have bound := below b held valid (traced.data_of_ne deleted.appended other valid)
    rw [sequence] at bound
    exact Nat.lt_irrefl _ bound
  have last := traced.last
  cases updates with
  | nil => exact iff_of_false id (behind last)
  | cons update older =>
    cases update with
    | del _ => exact iff_of_false id (behind last)
    | set key' _ =>
      rcases last with full | ⟨entry, found, newest⟩
      · rw [deleted.appended.found] at full
        cases full
      · obtain ⟨held, valid, holds⟩ := traced.inService.holds found
        have other := traced.inService.intact.apart found deleted.appended.found
        have keyId := holds.keyId.trans (KvDirectory.keyId_of_find found)
        have sequence := holds.sequence.trans newest
        constructor
        · rintro rfl
          exact ⟨_, held, other, valid, keyId, sequence⟩
        · rintro ⟨b, held', other', valid', keyId', sequence'⟩
          -- Of the blocks with data only one has the number of the counter.
          obtain rfl := traced.inService.ordered.distinct valid valid'
            (traced.data_of_ne deleted.appended other valid)
            (traced.data_of_ne deleted.appended other' valid') (sequence.trans sequence'.symm)
          rw [valid, Option.some.injEq] at valid'
          rw [← keyId', ← valid', keyId]
          rfl

theorem deleted (traced : Traced m updates) (deleted : Deleted m key d block next)
    (noWrap : m.stor.currentSequenceNumber.toNat + 1 < 2 ^ 64) (inService : InService next) :
    Traced next (.del key :: updates) := by
  have bound := @traced.inService.ordered.counted
  have counter := deleted.appended.counter_toNat noWrap
  have empty : block.header.dataBytes = 0 := (deleted.carries.holds (by decide) 0).dataBytes
  have held : ∀ {b held}, validBlock next.file b = some held → held.header.dataBytes ≠ 0 →
      validBlock m.file b = some held := by
    intro b held valid data
    rcases deleted.appended.held valid with ⟨_, rfl⟩ | ⟨_, old⟩
    · exact absurd empty data
    · exact old
  refine ⟨inService, ?_, ?_, ?_, ?_, ?_⟩
  · rw [traced.inService.intact.mapping_deleted deleted, traced.mapping, mappingAfter]
  · intro key' entry found b held' valid keyId
    rw [deleted.directory, find_without] at found
    split at found
    · cases found
    · rename_i different
      rcases deleted.appended.held valid with ⟨_, rfl⟩ | ⟨_, old⟩
      · exact absurd (keyId.symm.trans deleted.carries.keyId) different
      · exact traced.newest found old keyId
  · intro b held' valid data
    obtain ⟨fits, member⟩ := traced.written (held valid data) data
    exact ⟨fits, List.mem_cons_of_mem _ member⟩
  · intro b held' valid data
    have counted := bound (held valid data)
    omega
  · rw [traced.distinct_deleted deleted, traced.undoes_iff deleted]

theorem step {port : Port} {call : Call} (traced : Traced m updates)
    (undisturbed : Undisturbed m call) (pointers : call.PointersValid port) :
    ∃ response next, exec port m call = .ok response next ∧
      Traced next (recordUpdate updates call response) := by
  have represents : Represents m m.mapping := ⟨traced.inService, rfl⟩
  obtain ⟨response, next, returned, _, represents'⟩ := represents.advance pointers undisturbed
  obtain ⟨inProcess, io, memory, noWrap⟩ := undisturbed
  refine ⟨response, next, returned, ?_⟩
  have inService := represents'.inService
  have outcome := @exec_outcome port m traced.inService.steady.usable call inProcess
  rw [returned] at outcome
  cases outcome with
  | got =>
    simp only [recordUpdate, ite_self]
    exact traced
  | rejected _ _ =>
    rw [recordUpdate_of_ne_zero call.rejection_ne_zero]
    exact traced
  | full _ accepted none_ =>
    rw [recordUpdate_of_ne_zero enospc_ne.2.2.1.symm]
    exact traced.searched none_ (noWrap accepted) inService
  | failed named _ _ code nonzero =>
    rw [io.write named] at code
    exact absurd (Option.some.inj code).symm nonzero
  | noNode _ _ _ insert _ _ =>
    rw [memory.2] at insert
    cases insert
  | stored valid _ destination code _ _ carries marks =>
    exact traced.stored valid (traced.inService.steady.stored destination code carries marks)
      (noWrap ⟨_, rfl, valid⟩) inService
  | removed destination code lookup live carries frees =>
    exact traced.deleted (traced.inService.steady.deleted destination code lookup carries frees)
      (noWrap ⟨_, lookup, live⟩) inService

/-! ## The next process -/

section Reopen

variable {port : Port} {opened : Machine}

theorem legible (file : opened.file = m.file) (scanned : Scanned m.file opened.stor)
    (count : blockCount m.file ≤ capacity) : Legible opened where
  opened := scanned.opened
  raw := scanned.raw
  small := by
    intro key entry found
    obtain ⟨block, valid, _⟩ := scanned.holds found
    have inside := blockAt_isSome (validBlock_eq_some.mp valid).1
    rw [capacity_eq] at count
    omega
  valid := by
    intro key entry found
    obtain ⟨block, valid, _⟩ := scanned.holds found
    exact ⟨block, file ▸ valid⟩

/-- The scan names the same block for a key that is present. -/
theorem same_block (traced : Traced m updates) (scanned : Scanned m.file opened.stor)
    {entry : DirectoryEntry} (found : m.stor.directory.findEntryForKey key = some entry) :
    ∃ entry', opened.stor.directory.findEntryForKey key = some entry' ∧
      entry'.dataBlock = entry.dataBlock ∧ entry'.dataBytes = entry.dataBytes := by
  obtain ⟨held, valid, holds⟩ := traced.inService.holds found
  have keyId := holds.keyId.trans (KvDirectory.keyId_of_find found)
  have stored := fileLog_of_valid valid
  rw [keyId, holds.sequence] at stored
  obtain ⟨⟨b, seq⟩, index⟩ := scanned.indexes.complete stored
  have latest := scanned.indexes.latest index
  obtain ⟨entry', found', rfl, _⟩ := KvDirectory.index_eq_some.mp index
  obtain ⟨held', valid', holds'⟩ := scanned.holds found'
  obtain ⟨_, valid'', version⟩ := fileLog_eq_some.mp latest.1
  have same : entry'.dataBlock = entry.dataBlock := by
    by_contra other
    have older := latest.2 _ _ stored (Ne.symm other)
    cases version
    have bound := traced.newest found valid'' rfl
    omega
  refine ⟨entry', found', same, ?_⟩
  rw [same, valid, Option.some.injEq] at valid'
  rw [← holds'.dataBytes, ← valid', holds.dataBytes]

theorem recovers (traced : Traced m updates) (file : opened.file = m.file)
    (scanned : Scanned m.file opened.stor) : Recovers port opened updates opened.mapping where
  answers := by
    intro key v
    have fits : ∀ {entry}, opened.stor.directory.findEntryForKey key = some entry →
        entry.dataBytes.toNat ≤ MAXBLOB := by
      intro entry found
      obtain ⟨held, valid, holds⟩ := scanned.holds found
      rw [← holds.dataBytes]
      by_cases empty : held.header.dataBytes = 0
      · rw [empty]
        exact Nat.zero_le _
      · exact (traced.written valid empty).1
    rw [exec_get]
    obtain ⟨response, returned, answers | ⟨undelivered, _⟩⟩ :=
      (legible file scanned traced.inService.steady.count_le).get .full key v fits
    · exact ⟨response, returned, answers⟩
    · exact absurd trivial undelivered
  kept := by
    intro key value present
    rw [← traced.mapping] at present
    obtain ⟨entry, found⟩ := (traced.inService.intact.present key).mp (by rw [present]; simp)
    obtain ⟨entry', found', block, bytes⟩ := traced.same_block scanned found
    rw [Machine.mapping_of_found found] at present
    rw [Machine.mapping_of_found found', ← present, entryValue, entryValue, block, bytes, file]
  written := by
    intro key value recovered
    cases found : opened.stor.directory.findEntryForKey key with
    | none =>
      rw [Machine.mapping_of_absent found] at recovered
      cases recovered
    | some entry =>
      obtain ⟨held, valid, holds⟩ := scanned.holds found
      rw [Machine.mapping_of_found found, entryValue, file, (validBlock_eq_some.mp valid).1,
        Option.map_some] at recovered
      split at recovered
      · cases recovered
      · rename_i live
        rw [← holds.dataBytes] at live recovered
        have member := (traced.written valid live).2
        rw [Option.some.inj recovered, holds.keyId, KvDirectory.keyId_of_find found] at member
        exact member

theorem noRepeats_iff (traced : Traced m updates) :
    NoRepeats (fileLog m.file) ↔ ¬ Undoes updates := by
  rw [← traced.distinct]
  exact ⟨traced.inService.ordered.distinct_of_noRepeats, fun distinct => distinct.noRepeats⟩

end Reopen

end Traced

/-- The file of a process that met no faults can be opened unless its last update deletes
the key that the one before it set; then an assertion of the scan fails.  An open store has
the value of every key that was present, and no value that was never set. -/
theorem first_reopen {port : Port} {m : Machine} (created : Created port m) {calls : List Call}
    (undisturbed : Allowed (exec port)
      (fun m call => Undisturbed m call ∧ call.PointersValid port) m calls) :
    ∃ responses last, run (exec port) m calls = .ok responses last ∧
      (∀ argc env, OpenEnv.Succeeds port argc env →
        ((∃ opened, exec port last (.reopen argc env) = .ok ⟨0, none⟩ opened) ↔
          ¬ Undoes (track recordUpdate [] calls responses)) ∧
        (Undoes (track recordUpdate [] calls responses) →
          ∃ which next, exec port last (.reopen argc env) = .error (.assertion which) next)) ∧
      ∀ argc env opened, exec port last (.reopen argc env) = .ok ⟨0, none⟩ opened →
        ∃ recovered, Recovers port opened (track recordUpdate [] calls responses) recovered := by
  obtain ⟨fd, rfl⟩ := created_iff.mp created
  have step : ∀ {m : Machine} {updates : List Update} {call : Call}, Traced m updates →
      Undisturbed m call ∧ call.PointersValid port →
      ∃ response next, exec port m call = .ok response next ∧ True ∧
        Traced next (recordUpdate updates call response) := by
    intro m updates call traced allowed
    obtain ⟨response, next, returned, traced'⟩ := traced.step allowed.1 allowed.2
    exact ⟨response, next, returned, trivial, traced'⟩
  obtain ⟨responses, last, returned, _, traced⟩ :=
    @run_refines _ _ _ _ _ (exec port) _ recordUpdate (fun _ _ _ => True) Traced step calls _ _
      (traced_fresh fd) undisturbed
  have count := traced.inService.steady.count_le
  refine ⟨responses, last, returned, ?_, ?_⟩
  · intro argc env succeeds
    obtain ⟨opens, fails⟩ := reopen_returns_iff count succeeds
    rw [traced.noRepeats_iff] at opens fails
    exact ⟨opens, fun undoes => fails (not_not.mpr undoes)⟩
  · intro argc env opened reopened
    obtain ⟨file, _, scanned⟩ := reopen_returned count reopened
    exact ⟨opened.mapping, traced.recovers file scanned⟩

/-- A key is deleted right after it was set. -/
theorem first_reopen_repeating :
    ∃ responses last, run (exec .c) (fresh 3) repeatingRun = .ok responses last ∧
      ∃ which next, exec .c last (.reopen 2 .quiet) = .error (.assertion which) next := by
  obtain ⟨_, returned, noWrap, _, _, _⟩ := run_repeating .c
  have quiet : ∀ call ∈ repeatingRun, call.InProcess ∧ call.IoSucceeds ∧ call.MemorySucceeds ∧
      call.PointersValid .c := by
    simp only [repeatingRun, List.mem_cons, List.not_mem_nil, or_false, forall_eq_or_imp, forall_eq]
    exact ⟨⟨trivial, rfl, ⟨rfl, rfl⟩, rfl, fun _ => by simp⟩, trivial, rfl, ⟨rfl, rfl⟩, rfl⟩
  have undisturbed : Allowed (exec .c)
      (fun m call => Undisturbed m call ∧ call.PointersValid .c) (fresh 3) repeatingRun := by
    refine Allowed.of_invariant (fun _ _ _ => trivial) ?_ trivial
      ((Allowed.of_mem _ _ fun _ => quiet).and noWrap)
    rintro m call _ ⟨⟨inProcess, io, memory, pointers⟩, small⟩
    exact ⟨⟨inProcess, io, memory, small⟩, pointers⟩
  obtain ⟨responses, last, ended, opens, _⟩ :=
    first_reopen (created_iff.mpr ⟨3, rfl⟩) undisturbed
  rw [returned] at ended
  cases ended
  exact ⟨_, _, returned, (opens 2 .quiet (OpenEnv.quiet_succeeds .c)).2 rfl⟩

end KeyValueStore.KvStore
