import KeyValueStore.Class.Process

/-! # When a deletion survives

The block of a deletion is written to a free block that stays free, with the sequence
number that the counter stands at, which the set before it may have.  So the next write
goes over it, and until then it may repeat a version: `deletions_survive_iff` says when
a key that was deleted is still so once the file has been opened again. -/

namespace KeyValueStore.KvStore

open Runs VersionLog

/-- The keys whose last successful update was a deletion. -/
def recordDeleted (deleted : Finset UInt64) (call : Call) (response : Response) : Finset UInt64 :=
  if response.ret = 0 then
    match call with
    | .set _ key _ => deleted.erase key
    | .del _ key => insert key deleted
    | .get .. | .reopen .. => deleted
  else deleted

/-- The file can be opened again, no assertion fails, and the key is not found. -/
structure StaysDeleted (port : Port) (m : Machine) (key : UInt64) : Prop where
  reopens : ∀ argc env, OpenEnv.Succeeds port argc env →
    ∃ next, exec port m (.reopen argc env) = .ok ⟨0, none⟩ next
  noAssertion : ∀ argc env which next,
    exec port m (.reopen argc env) ≠ .error (.assertion which) next
  notFound : ∀ argc env next, exec port m (.reopen argc env) = .ok ⟨0, none⟩ next →
    ∀ allocated read v,
      exec port next (.get allocated read key v) = .ok ⟨-ENOENT, some v⟩ next

/-- The newest version of the key, if there is one, is a deletion. -/
def NewestDeleted (file : Bytes) (key : UInt64) : Prop :=
  ∀ b block, validBlock file b = some block →
    Latest (fileLog file) key b block.header.sequence.toNat → block.header.dataBytes = 0

/-- No version is there twice, and either the deletion of the key is the block at the append
point, or none of its versions is left. -/
structure Survives (m : Machine) (key : UInt64) : Prop where
  distinct : DistinctVersions (fileLog m.file)
  newest : (∃ block, validBlock m.file m.stor.appendPoint.start = some block ∧
      block.header.keyId = key ∧ block.header.dataBytes = 0) ∨ Absent (fileLog m.file) key

section Reopen

variable {port : Port} {m : Machine} {key : UInt64}

/-- After a scan the live keys are those whose newest version has data. -/
theorem Scanned.dead_iff {file : Bytes} {stor : KvStor} (scanned : Scanned file stor) :
    ¬ stor.directory.Live key ↔ NewestDeleted file key := by
  constructor
  · intro dead b block valid latest
    obtain ⟨⟨slot, seq⟩, index⟩ := scanned.indexes.complete latest.1
    obtain ⟨entry, found, rfl, rfl⟩ := KvDirectory.index_eq_some.mp index
    obtain ⟨held, valid', holds⟩ := scanned.holds found
    have same := ((scanned.indexes.latest index).unique latest).1
    rw [same, valid, Option.some.injEq] at valid'
    by_contra data
    rw [valid', holds.dataBytes] at data
    exact dead ⟨entry, found, data⟩
  · rintro newest ⟨entry, found, data⟩
    obtain ⟨held, valid, holds⟩ := scanned.holds found
    have latest := scanned.indexes.latest (KvDirectory.index_of_found found)
    rw [← holds.sequence] at latest
    have deleted := newest _ held valid latest
    rw [holds.dataBytes] at deleted
    exact data deleted

theorem staysDeleted_iff (count : blockCount m.file ≤ capacity) :
    StaysDeleted port m key ↔ NoRepeats (fileLog m.file) ∧ NewestDeleted m.file key := by
  have quiet := OpenEnv.quiet_succeeds port
  constructor
  · intro stays
    have noRepeats : NoRepeats (fileLog m.file) := by
      by_contra repeats
      obtain ⟨which, next, ended⟩ := (reopen_returns_iff count quiet).2 repeats
      exact stays.noAssertion _ _ which next ended
    refine ⟨noRepeats, ?_⟩
    obtain ⟨next, returned⟩ := stays.reopens _ _ quiet
    obtain ⟨_, _, scanned⟩ := reopen_returned count returned
    rw [← scanned.dead_iff]
    -- A get without a buffer tells a live key from another.
    rintro ⟨entry, found, data⟩
    have small : (⟨0, [], Nat.le_refl 0⟩ : Value).size.toNat < entry.dataBytes.toNat := by
      have positive := UInt16.lt_iff_toNat_lt.mp (dataBytes_pos.mpr data)
      exact positive
    have refused := exec_get_of_kvGet (kvGet_small .full next.file found small)
    have answered := stays.notFound _ _ next returned true .full ⟨0, [], Nat.le_refl 0⟩
    rw [exec_get, refused] at answered
    cases answered
  · rintro ⟨noRepeats, newest⟩
    refine ⟨?_, ?_, ?_⟩
    · intro argc env succeeds
      exact (reopen_returns_iff count succeeds).1.mpr noRepeats
    · intro argc env which next
      exact reopen_no_assertion count noRepeats which next
    · intro argc env next returned allocated read v
      obtain ⟨_, _, scanned⟩ := reopen_returned count returned
      exact exec_get_dead port next (scanned.dead_iff.mpr newest) allocated read v

end Reopen

/-! ## In one process -/

section Process

variable {port : Port} {m : Machine} {key : UInt64}

/-- No block is newer than that of a deletion. -/
theorem OrderedLog.greatest (ordered : OrderedLog m) {b : Nat} {block : KvBlock}
    (valid : validBlock m.file b = some block) (deleted : block.header.dataBytes = 0) (b' : Nat)
    {key' : UInt64} {seq : Nat} (stored : fileLog m.file b' = some (key', seq)) :
    seq ≤ block.header.sequence.toNat := by
  obtain ⟨held, valid', version⟩ := fileLog_eq_some.mp stored
  have bound := (ordered.deletion valid deleted).2.2 _ _ valid'
  cases version
  exact bound

theorem OrderedLog.distinct_of_noRepeats (ordered : OrderedLog m)
    (noRepeats : NoRepeats (fileLog m.file)) : DistinctVersions (fileLog m.file) := by
  rintro b b' version stored stored'
  obtain ⟨block, valid, rfl⟩ := fileLog_eq_some.mp stored
  obtain ⟨block', valid', same⟩ := fileLog_eq_some.mp stored'
  have again : fileLog m.file b' = some block.version := stored'
  by_cases deleted : block.header.dataBytes = 0
  · exact noRepeats.unique stored again fun other seq => ordered.greatest valid deleted other
  · by_cases deleted' : block'.header.dataBytes = 0
    · refine noRepeats.unique stored again fun other seq there => ?_
      have bound := ordered.greatest valid' deleted' other there
      rw [show block'.header.sequence.toNat = block.header.sequence.toNat from
        congrArg Prod.snd same] at bound
      exact bound
    · have sequence := UInt64.toNat_inj.mp (congrArg Prod.snd same)
      exact ordered.distinct valid valid' deleted deleted' sequence.symm

theorem OrderedLog.survives_iff (ordered : OrderedLog m) (count : blockCount m.file ≤ capacity) :
    NoRepeats (fileLog m.file) ∧ NewestDeleted m.file key ↔ Survives m key := by
  constructor
  · rintro ⟨noRepeats, newest⟩
    refine ⟨ordered.distinct_of_noRepeats noRepeats, ?_⟩
    by_cases absent : Absent (fileLog m.file) key
    · exact .inr absent
    · -- The scan of the file names the newest version.
      simp only [Absent, not_forall, not_not] at absent
      obtain ⟨slot, seq, stored⟩ := absent
      obtain ⟨next, returned⟩ :=
        (reopen_returns_iff count (OpenEnv.quiet_succeeds .cpp)).1.mpr noRepeats
      obtain ⟨_, _, scanned⟩ := reopen_returned count returned
      obtain ⟨⟨b, seq'⟩, index⟩ := scanned.indexes.complete stored
      have latest := scanned.indexes.latest index
      obtain ⟨block, valid, version⟩ := fileLog_eq_some.mp latest.1
      cases version
      have deleted := newest b block valid latest
      have here := (ordered.deletion valid deleted).1
      exact .inl ⟨block, here ▸ valid, rfl, deleted⟩
  · rintro ⟨distinct, newest⟩
    refine ⟨distinct.noRepeats, ?_⟩
    intro b block valid latest
    rcases newest with ⟨last, valid', keyId, deleted⟩ | absent
    · by_cases here : m.stor.appendPoint.start = b
      · rw [here, valid, Option.some.injEq] at valid'
        rw [valid', deleted]
      · have stored := fileLog_of_valid valid'
        rw [keyId] at stored
        have older := latest.2 _ _ stored here
        have bound := ordered.greatest valid' deleted b latest.1
        omega
    · exact absurd latest.1 (absent b _)

/-- A key that was deleted stays deleted over the next reopen exactly if the newest of its
versions that are left in the file is a deletion, and the scan meets no version again.
While the counter has not wrapped: exactly if its deletion was the last write, or all its
versions are gone, and no version is there twice. -/
theorem deletions_survive_iff (created : Created port m) {calls : List Call}
    (inProcess : ∀ call ∈ calls, call.InProcess) (io : ∀ call ∈ calls, call.IoSucceeds)
    {responses : List Response} {last : Machine}
    (returned : run (exec port) m calls = .ok responses last) :
    (∀ key ∈ track recordDeleted ∅ calls responses,
      (StaysDeleted port last key ↔
        NoRepeats (fileLog last.file) ∧ NewestDeleted last.file key)) ∧
    (Allowed (exec port) NoWrap m calls → ∀ key ∈ track recordDeleted ∅ calls responses,
      (StaysDeleted port last key ↔ Survives last key)) := by
  obtain ⟨fd, rfl⟩ := created_iff.mp created
  have permitted : Allowed (exec port) (fun _ call => call.InProcess ∧ call.IoSucceeds) (fresh fd)
      calls := .of_mem calls _ fun _ call member => ⟨inProcess call member, io call member⟩
  have steady : Steady last := by
    refine run_keeps ?_ (steady_fresh fd) permitted returned
    intro m call response next steady allowed ended
    exact steady.step allowed.1 ended
  refine ⟨fun key _ => staysDeleted_iff steady.count_le, fun noWrap key _ => ?_⟩
  have inService : InService last := by
    refine run_keeps ?_ (inService_fresh fd) (permitted.and noWrap) returned
    intro m call response next inService allowed ended
    exact inService.step allowed.1.1 allowed.1.2 allowed.2 ended
  rw [staysDeleted_iff steady.count_le, inService.ordered.survives_iff steady.count_le]

/-! ## A deletion that does not survive -/

/-- A key is deleted right after it was set. -/
def repeatingRun : List Call := [.set .quiet 1 (some .one), .del .quiet 1]

theorem repeatingRun_quiet : (∀ call ∈ repeatingRun, call.InProcess) ∧
    ∀ call ∈ repeatingRun, call.IoSucceeds := by
  simp [repeatingRun, Call.InProcess, Call.IoSucceeds]
  decide

/-- The deletion has the sequence number of the set. -/
theorem run_repeating (port : Port) :
    ∃ last, run (exec port) (fresh 3) repeatingRun = .ok [⟨0, none⟩, ⟨0, none⟩] last ∧
      Allowed (exec port) NoWrap (fresh 3) repeatingRun ∧ blockCount last.file ≤ capacity ∧
      fileLog last.file 0 = some (1, 1) ∧ fileLog last.file 1 = some (1, 1) := by
  obtain ⟨b₀, m₁, set₁, stored, marked⟩ :=
    exec_set_new port (steady_fresh 3) (destination_fresh 3) (absent_fresh 3 1)
  have found : m₁.destination = some 1 := by
    refine stored.destination (by rw [capacity_eq]; decide) ?_
    simp [fresh, initial, KvBlockAllocator.allocated_empty]
  have live : m₁.stor.directory.Live 1 := ⟨_, stored.find, one_valid.live⟩
  obtain ⟨b₁, m₂, del, deleted⟩ : ∃ block next, exec port m₁ (.del .quiet 1) = .ok ⟨0, none⟩ next ∧
      Deleted m₁ 1 1 block next := exec_del_deleted port stored.steady live rfl found rfl
  have first : validBlock m₂.file 0 = some b₀ := by
    rw [deleted.appended.file, Function.update_of_ne (by decide), stored.appended.file,
      Function.update_self]
  have second : validBlock m₂.file 1 = some b₁ := by
    rw [deleted.appended.file, Function.update_self]
  have counter : m₁.stor.currentSequenceNumber = 1 := stored.appended.counter
  refine ⟨m₂, ?_, ?_, deleted.steady.count_le, ?_, ?_⟩
  · simp only [repeatingRun, run, set₁, del]
  · refine .cons (fun _ => by decide) set₁ ⟨fun _ => ?_, fun _ _ _ => trivial⟩
    rw [counter]
    decide
  · rw [fileLog_of_valid first, stored.carries.keyId, stored.carries.sequence_eq]
    rfl
  · rw [fileLog_of_valid second, deleted.carries.keyId, deleted.carries.sequence_eq,
      stored.appended.counter]
    rfl

theorem deletions_survive_iff_repeating :
    ∃ responses last, run (exec .cpp) (fresh 3) repeatingRun = .ok responses last ∧
      (StaysDeleted .cpp last 1 ↔
        NoRepeats (fileLog last.file) ∧ NewestDeleted last.file 1) ∧
      (StaysDeleted .cpp last 1 ↔ Survives last 1) := by
  obtain ⟨last, returned, noWrap, _, _, _⟩ := run_repeating .cpp
  obtain ⟨inProcess, io⟩ := repeatingRun_quiet
  obtain ⟨exact_, unwrapped⟩ :=
    deletions_survive_iff (created_iff.mpr ⟨3, rfl⟩) inProcess io returned
  exact ⟨_, last, returned, exact_ 1 (by decide), unwrapped noWrap 1 (by decide)⟩

theorem repeating (port : Port) :
    ∃ responses last, run (exec port) (fresh 3) repeatingRun = .ok responses last ∧
      1 ∈ track recordDeleted ∅ repeatingRun responses ∧ ¬ StaysDeleted port last 1 := by
  obtain ⟨last, returned, _, count, first, second⟩ := run_repeating port
  refine ⟨_, last, returned, by decide, ?_⟩
  rw [staysDeleted_iff count]
  rintro ⟨noRepeats, _⟩
  refine noRepeats 1 1 1 second ⟨⟨0, below_eq_some.mpr ⟨Nat.one_pos, first⟩⟩, ?_⟩
  intro slot seq stored
  obtain ⟨before, there⟩ := below_eq_some.mp stored
  obtain rfl : slot = 0 := by omega
  rw [first] at there
  cases there
  exact Nat.le_refl 1

/-- The deletion of key 1 returns 0, but the file cannot be opened again, in either port. -/
theorem deletion_repeats :
    (Created .cpp (fresh 3) ∧ (∀ call ∈ repeatingRun, call.InProcess ∧ call.IoSucceeds) ∧
      ∃ responses last, run (exec .cpp) (fresh 3) repeatingRun = .ok responses last ∧
        1 ∈ track recordDeleted ∅ repeatingRun responses ∧ ¬ StaysDeleted .cpp last 1) ∧
    (Created .c (fresh 3) ∧ (∀ call ∈ repeatingRun, call.InProcess ∧ call.IoSucceeds) ∧
      ∃ responses last, run (exec .c) (fresh 3) repeatingRun = .ok responses last ∧
        1 ∈ track recordDeleted ∅ repeatingRun responses ∧ ¬ StaysDeleted .c last 1) := by
  obtain ⟨inProcess, io⟩ := repeatingRun_quiet
  have quiet : ∀ call ∈ repeatingRun, call.InProcess ∧ call.IoSucceeds :=
    fun call member => ⟨inProcess call member, io call member⟩
  exact ⟨⟨created_iff.mpr ⟨3, rfl⟩, quiet, repeating .cpp⟩,
    ⟨created_iff.mpr ⟨3, rfl⟩, quiet, repeating .c⟩⟩

end Process

end KeyValueStore.KvStore
