import KeyValueStore.Class.Reopen
import KeyValueStore.Submission.Consistency

/-! # When the blocks of live entries are safe

The block of a deletion that a scan finds stays free, while its entry keeps naming it.
Once another key has taken the block, a set of the deleted key frees it under that key.
The blocks of the live entries are safe throughout a run exactly if no such set is made
(`live_blocks_kept_iff`). -/

namespace KeyValueStore.KvStore

open Runs VersionLog

/-- The marked blocks are those of the live entries, one for each. -/
structure MarksLive (stor : KvStor) : Prop where
  marked : ∀ b, b ∈ stor.blockAllocator.allocated ↔ ∃ key entry,
    stor.directory.findEntryForKey key = some entry ∧ entry.dataBytes ≠ 0 ∧ entry.dataBlock = b
  unshared : ∀ {key key' entry entry'}, stor.directory.findEntryForKey key = some entry →
    stor.directory.findEntryForKey key' = some entry' → entry.dataBytes ≠ 0 →
    entry'.dataBytes ≠ 0 → entry.dataBlock = entry'.dataBlock → key = key'

theorem Scanned.marksLive {file : Bytes} {stor : KvStor} (scanned : Scanned file stor) :
    MarksLive stor where
  marked := scanned.marked
  unshared := by
    intro key key' entry entry' found found' _ _ shared
    have named := KvDirectory.index_of_found found
    rw [shared] at named
    exact scanned.indexes.injective named (KvDirectory.index_of_found found')

theorem marksLive_initial (fd : Option Nat) : MarksLive (initial fd) where
  marked := (mirrors_initial fd).marked
  unshared := by
    intro key key' entry entry' found
    simp [initial, KvDirectory.findEntryForKey] at found

section Update

variable {m : Machine} {d : Nat} {key : UInt64}

/-- A set keeps this, unless it takes over the entry of a deletion whose block is marked. -/
theorem MarksLive.committed (marksLive : MarksLive m.stor)
    (free : d ∉ m.stor.blockAllocator.allocated)
    (untaken : ∀ old, m.stor.directory.findEntryForKey key = some old → old.dataBytes = 0 →
      old.dataBlock ∉ m.stor.blockAllocator.allocated)
    {allocator : KvBlockAllocator}
    (marks : Marks m.stor.directory m.stor.blockAllocator key d allocator) (block : KvBlock)
    (write : WriteResult) {dataBytes : UInt16} (data : dataBytes ≠ 0) (sequence : UInt64) :
    MarksLive (m.committed d block write ⟨key, sequence, d, dataBytes⟩ allocator).stor := by
  have other : ∀ {key' entry}, m.stor.directory.findEntryForKey key' = some entry →
      entry.dataBytes ≠ 0 → entry.dataBlock ≠ d := by
    rintro key' entry found live rfl
    exact free ((marksLive.marked _).mpr ⟨key', entry, found, live, rfl⟩)
  refine ⟨?_, ?_⟩
  · intro b
    simp only [Machine.committed, KvDirectory.find_withEntry, marks.allocated]
    constructor
    · rintro (rfl | ⟨marked, kept⟩)
      · exact ⟨key, ⟨key, sequence, b, dataBytes⟩, if_pos rfl, data, rfl⟩
      · obtain ⟨key', entry, found, live, rfl⟩ := (marksLive.marked b).mp marked
        refine ⟨key', entry, ?_, live, rfl⟩
        rw [if_neg, found]
        rintro rfl
        exact kept entry found rfl
    · rintro ⟨key', entry, found, live, rfl⟩
      split at found
      · cases found
        exact .inl rfl
      · rename_i different
        have marked := (marksLive.marked _).mpr ⟨key', entry, found, live, rfl⟩
        refine .inr ⟨marked, ?_⟩
        intro old foundOld shared
        by_cases deleted : old.dataBytes = 0
        · exact untaken old foundOld deleted (shared ▸ marked)
        · exact different (marksLive.unshared found foundOld live deleted shared)
  · intro key₁ key₂ entry₁ entry₂ found₁ found₂ live₁ live₂ shared
    simp only [Machine.committed, KvDirectory.find_withEntry] at found₁ found₂
    split at found₁ <;> split at found₂
    · rename_i same₁ same₂
      rw [same₁, same₂]
    · cases found₁
      exact absurd shared.symm (other found₂ live₂)
    · cases found₂
      exact absurd shared (other found₁ live₁)
    · exact marksLive.unshared found₁ found₂ live₁ live₂ shared

theorem MarksLive.removed (marksLive : MarksLive m.stor) {entry : DirectoryEntry}
    (found : m.stor.directory.findEntryForKey key = some entry) (live : entry.dataBytes ≠ 0)
    {allocator : KvBlockAllocator} (frees : Frees m.stor.blockAllocator entry.dataBlock allocator)
    (block : KvBlock) (write : WriteResult) :
    MarksLive (removed m d block write key allocator).stor := by
  refine ⟨?_, ?_⟩
  · intro b
    simp only [KvStore.removed, find_without, frees.allocated, marksLive.marked]
    constructor
    · rintro ⟨⟨key', entry', found', live', rfl⟩, apart⟩
      refine ⟨key', entry', ?_, live', rfl⟩
      rw [if_neg, found']
      rintro rfl
      rw [found, Option.some.injEq] at found'
      exact apart (found' ▸ rfl)
    · rintro ⟨key', entry', found', live', rfl⟩
      split at found'
      · cases found'
      · rename_i different
        refine ⟨⟨key', entry', found', live', rfl⟩, ?_⟩
        intro shared
        exact different (marksLive.unshared found' found live' live shared)
  · intro key₁ key₂ entry₁ entry₂ found₁ found₂ live₁ live₂ shared
    simp only [KvStore.removed, find_without] at found₁ found₂
    split at found₁
    · cases found₁
    · split at found₂
      · cases found₂
      · exact marksLive.unshared found₁ found₂ live₁ live₂ shared

end Update

/-! ## Runs -/

/-- What the calls of a run keep, opens that fail included. -/
structure Guarded (m : Machine) : Prop extends Standing m where
  marksLive : m.opened = true → MarksLive m.stor

/-- The call is a set that goes through, and that takes over the entry of a deletion whose
block is marked, that is, has been taken for another key. -/
def FreesTaken (m : Machine) : Call → Prop
  | .set env key (some v) => Valid v ∧ env.allocated = true ∧ (∃ d, m.destination = some d) ∧
      env.write.code = some 0 ∧ ∃ entry, m.stor.directory.findEntryForKey key = some entry ∧
        entry.sequence < m.nextSequence ∧ entry.dataBytes = 0 ∧
        entry.dataBlock ∈ m.stor.blockAllocator.allocated
  | .set _ _ none | .del .. | .get .. | .reopen .. => False

/-- The machine that a call leaves, whether it returns or not. -/
def left : EStateM.Result Fault Machine Response → Machine
  | .ok _ next => next
  | .error _ next => next

/-- The blocks of the live entries are marked and not shared, and no call writes to them. -/
structure LiveBlocksKept (port : Port) (m : Machine) : Prop where
  marked : ∀ key entry, m.stor.directory.findEntryForKey key = some entry → entry.dataBytes > 0 →
    m.stor.blockAllocator.isSet entry.dataBlock = .ok true
  unshared : ∀ key key' entry entry', m.stor.directory.findEntryForKey key = some entry →
    m.stor.directory.findEntryForKey key' = some entry' → entry.dataBytes > 0 →
    entry'.dataBytes > 0 → entry.dataBlock = entry'.dataBlock → key = key'
  unwritten : ∀ call key entry, m.stor.directory.findEntryForKey key = some entry →
    entry.dataBytes > 0 →
    blockAt (left (exec port m call)).file entry.dataBlock = blockAt m.file entry.dataBlock

theorem dataBytes_pos {bytes : UInt16} : bytes > 0 ↔ bytes ≠ 0 := by
  rw [gt_iff_lt, UInt16.lt_iff_toNat_lt, Ne, ← UInt16.toNat_inj, UInt16.toNat_zero]
  omega

section Runs

variable {port : Port} {m : Machine}

/-- Opening a file does not write. -/
theorem left_reopen (argc : Nat) (env : OpenEnv) :
    (left (exec port m (.reopen argc env))).file = m.file := by
  have outcome := exec_reopen port m argc env
  generalize exec port m (.reopen argc env) = result at outcome
  cases outcome with
  | refused _ _ file _ | crashed _ file | faulted _ file _ => exact file
  | returned _ _ => rfl

/-- All that a call can change in the file is the block that the append point stands for. -/
theorem left_file (steady : Steady m) {call : Call} (inProcess : call.InProcess) :
    (left (exec port m call)).file = m.file ∨ ∃ d block count, m.destination = some d ∧
      (left (exec port m call)).file = overwritten m.file d block count := by
  have outcome := @exec_outcome port m steady.usable call inProcess
  generalize exec port m call = result at outcome
  cases outcome with
  | got | getFault _ | rejected _ _ | nullPointer _ _ | full _ _ _ => exact .inl rfl
  | failed _ _ found _ _ | stopped _ found _ | asserted _ _ found _ _ _ | noEntry _ found _ _
  | noNode _ found _ _ _ _ | stored _ _ found _ _ _ _ _ | removed found _ _ _ _ _ =>
    exact .inr ⟨_, _, _, found, rfl⟩

theorem Guarded.kept (guarded : Guarded m) (opened : m.opened = true) : LiveBlocksKept port m := by
  have steady := guarded.steady opened
  have marksLive := guarded.marksLive opened
  refine ⟨?_, ?_, ?_⟩
  · intro key entry found live
    rw [KvBlockAllocator.isSet_iff steady.usable.covers.fits]
    exact (marksLive.marked _).mpr ⟨key, entry, found, dataBytes_pos.mp live, rfl⟩
  · intro key key' entry entry' found found' live live' shared
    exact marksLive.unshared found found' (dataBytes_pos.mp live) (dataBytes_pos.mp live') shared
  · intro call key entry found live
    have marked := (marksLive.marked _).mpr ⟨key, entry, found, dataBytes_pos.mp live, rfl⟩
    by_cases inProcess : call.InProcess
    · rcases @left_file port m steady call inProcess with same | ⟨d, block, count, free, written⟩
      · rw [same]
      · rw [written]
        refine blockAt_overwritten_of_ne ?_ (steady.marked_lt _ marked)
        rintro rfl
        exact (steady.destination free).2.1 marked
    · cases call with
      | reopen argc env => rw [left_reopen]
      | set _ _ _ | del _ _ | get _ _ _ _ => exact absurd trivial inProcess

theorem MarksLive.step (steady : Steady m) (marksLive : MarksLive m.stor) {call : Call}
    (inProcess : call.InProcess) (harmless : ¬ FreesTaken m call) {response : Response}
    {next : Machine} (returned : exec port m call = .ok response next) : MarksLive next.stor := by
  have outcome := @exec_outcome port m steady.usable call inProcess
  rw [returned] at outcome
  cases outcome with
  | got | rejected _ _ | full _ _ _ | failed _ _ _ _ _ | noNode _ _ _ _ _ _ =>
    exact ⟨marksLive.marked, marksLive.unshared⟩
  | stored valid allocated found code newer _ _ marks =>
    refine marksLive.committed (steady.destination found).2.1 ?_ marks _ _ valid.live _
    intro old foundOld deleted taken
    exact harmless ⟨valid, allocated, ⟨_, found⟩, code, old, foundOld,
      UInt64.lt_iff_toNat_lt.mpr (newer old foundOld), deleted, taken⟩
  | removed _ _ found live _ frees => exact marksLive.removed found live frees _ _

/-- A set that frees a taken block leaves a live entry whose block is free. -/
theorem not_kept_of_freesTaken (steady : Steady m) (opened : m.opened = true)
    (marksLive : MarksLive m.stor) {call : Call} (frees : FreesTaken m call) :
    ∃ response next, exec port m call = .ok response next ∧ next.opened = true ∧
      ¬ LiveBlocksKept port next := by
  cases call with
  | del _ _ | get _ _ _ _ | reopen _ _ => exact absurd frees id
  | set env key v =>
    cases v with
    | none => exact absurd frees id
    | some v =>
      obtain ⟨valid, allocated, ⟨d, found⟩, code, old, foundOld, newer, deleted, taken⟩ := frees
      rw [UInt64.lt_iff_toNat_lt] at newer
      have newest : ∀ entry, m.stor.directory.findEntryForKey key = some entry →
          entry.sequence.toNat < m.nextSequence.toNat := by
        intro entry lookup
        rw [foundOld, Option.some.injEq] at lookup
        exact lookup ▸ newer
      obtain ⟨_, next, returned, stored⟩ := exec_set_stored port steady valid allocated found code
        newest (fun absent => by rw [foundOld] at absent; cases absent)
      refine ⟨_, next, returned, stored.opened.trans opened, fun kept => ?_⟩
      -- The other key is live, so its entry stays, but its block is freed.
      obtain ⟨other, entry, lookup, live, block⟩ := (marksLive.marked _).mp taken
      have apart : other ≠ key := by
        rintro rfl
        rw [foundOld, Option.some.injEq] at lookup
        exact live (lookup ▸ deleted)
      have still : next.stor.directory.findEntryForKey other = some entry := by
        rw [stored.directory, KvDirectory.find_withEntry, if_neg apart, lookup]
      have bit := (KvBlockAllocator.isSet_iff stored.steady.usable.covers.fits _).mp
        (kept.marked other entry still (dataBytes_pos.mpr live))
      rcases (stored.marks.allocated _).mp bit with same | ⟨_, freed⟩
      · exact (steady.destination found).2.1 (same ▸ block ▸ taken)
      · exact freed old foundOld block

/-- A call that frees no taken block. -/
theorem Guarded.step (guarded : Guarded m) {call : Call} (legal : Legal m call)
    (harmless : ¬ FreesTaken m call) {response : Response} {next : Machine}
    (returned : exec port m call = .ok response next) : Guarded next := by
  refine ⟨guarded.toStanding.step legal returned, ?_⟩
  by_cases inProcess : call.InProcess
  · have opened := legal.opened inProcess
    exact fun _ => MarksLive.step (guarded.steady opened) (guarded.marksLive opened) inProcess
      harmless returned
  · cases call with
    | set _ _ _ | del _ _ | get _ _ _ _ => exact absurd trivial inProcess
    | reopen argc env =>
      intro opened
      exact ((reopen_scanned guarded.count_le returned).2 opened).marksLive

theorem guarded_fresh (fd : Nat) : Guarded (fresh fd) :=
  ⟨standing_fresh fd, fun _ => marksLive_initial _⟩

/-- In every state of a run the blocks of the live entries are marked, not shared and not
written to by any call, exactly if no set of the run takes over the entry of a deletion
whose block is marked. -/
theorem live_blocks_kept_iff (created : Created port m) {calls : List Call}
    (legal : Allowed (exec port) Legal m calls) :
    Throughout (exec port) (fun m => m.opened = true → LiveBlocksKept port m) m calls ↔
      Allowed (exec port) (fun m call => ¬ FreesTaken m call) m calls := by
  obtain ⟨fd, rfl⟩ := created_iff.mp created
  refine throughout_iff (fun guarded legal harmless => guarded.step legal harmless)
    (fun guarded opened => guarded.kept opened) ?_ (guarded_fresh fd) legal
  intro m call guarded legal harmful
  have frees : FreesTaken m call := not_not.mp harmful
  have opened : m.opened = true := by
    cases call with
    | set _ _ _ => exact legal
    | del _ _ | get _ _ _ _ | reopen _ _ => exact absurd frees id
  obtain ⟨response, next, returned, opened', broken⟩ :=
    not_kept_of_freesTaken (guarded.steady opened) opened (guarded.marksLive opened) frees
  exact ⟨response, next, returned, fun kept => broken (kept opened')⟩

/-! ## A run that frees a live block -/

/-- Key 1 is deleted; once the file has been opened again, key 3 takes the block of the
deletion, and a set of key 1 frees it. -/
def freeingRun : List Call :=
  [.set .quiet 1 (some .one), .set .quiet 2 (some .one), .del .quiet 1, .reopen 2 .quiet,
    .set .quiet 3 (some .one), .set .quiet 4 (some .one), .set .quiet 1 (some .one)]

/-- The versions and the sizes of the blocks that the first three calls leave. -/
def FreeingLog (file : Bytes) : Prop :=
  ∃ b₀ b₁ b₂, HoldsEntry b₀ ⟨1, 1, 0, 1⟩ ∧ HoldsEntry b₁ ⟨2, 2, 1, 1⟩ ∧ HoldsEntry b₂ ⟨1, 2, 2, 0⟩ ∧
    validBlock file = Function.update (Function.update (Function.update (fun _ => none)
      0 (some b₀)) 1 (some b₁)) 2 (some b₂)

/-- A set of a new key takes over no entry. -/
theorem harmless_new {env : BlockWrite} {key : UInt64} {v : Option Value}
    (absent : m.stor.directory.findEntryForKey key = none) : ¬ FreesTaken m (.set env key v) := by
  intro frees
  cases v with
  | none => exact frees
  | some v =>
    obtain ⟨_, _, _, _, entry, found, _⟩ := frees
    rw [absent] at found
    cases found

theorem freeing_start (port : Port) : ∃ m, Guarded m ∧ m.opened = true ∧ FreeingLog m.file ∧
    ∀ calls,
      (Allowed (exec port) Legal m calls → Allowed (exec port) Legal (fresh 3)
        (.set .quiet 1 (some .one) :: .set .quiet 2 (some .one) :: .del .quiet 1 :: calls)) ∧
      (Allowed (exec port) (fun m call => ¬ FreesTaken m call) m calls →
        Allowed (exec port) (fun m call => ¬ FreesTaken m call) (fresh 3)
          (.set .quiet 1 (some .one) :: .set .quiet 2 (some .one) :: .del .quiet 1 :: calls)) ∧
      ∀ holds, Throughout (exec port) holds (fresh 3)
        (.set .quiet 1 (some .one) :: .set .quiet 2 (some .one) :: .del .quiet 1 :: calls) →
        Throughout (exec port) holds m calls := by
  have steady := steady_fresh 3
  obtain ⟨b₀, m₁, set₁, stored₁, marked₁⟩ :=
    exec_set_new port steady (destination_fresh 3) (absent_fresh 3 1)
  have find₁ : ∀ key, m₁.stor.directory.findEntryForKey key =
      if key = 1 then some ⟨1, 1, 0, 1⟩ else none := by
    intro key
    rw [stored₁.directory, KvDirectory.find_withEntry, absent_fresh]
    rfl
  have allocated₁ : ∀ b, b ∈ m₁.stor.blockAllocator.allocated ↔ b = 0 := by
    intro b
    rw [marked₁]
    simp [fresh, initial, KvBlockAllocator.allocated_empty]
  have counter₁ : m₁.stor.currentSequenceNumber = 1 := stored₁.appended.counter
  have found₁ : m₁.destination = some 1 :=
    stored₁.destination (by rw [capacity_eq]; decide) (by simp [fresh, initial, KvBlockAllocator.allocated_empty])
  obtain ⟨b₁, m₂, set₂, stored₂, marked₂⟩ :=
    exec_set_new port stored₁.steady found₁ (find₁ 2)
  have next₁ : m₁.nextSequence = 2 := by
    rw [Machine.nextSequence, counter₁]
    rfl
  have find₂ : ∀ key, m₂.stor.directory.findEntryForKey key =
      if key = 2 then some ⟨2, 2, 1, 1⟩ else if key = 1 then some ⟨1, 1, 0, 1⟩ else none := by
    intro key
    rw [stored₂.directory, KvDirectory.find_withEntry, find₁, next₁]
    rfl
  have counter₂ : m₂.stor.currentSequenceNumber = 2 := stored₂.appended.counter.trans next₁
  have found₂ : m₂.destination = some 2 :=
    stored₂.destination (by rw [capacity_eq]; decide) (by rw [allocated₁]; decide)
  have live : m₂.stor.directory.Live 1 := ⟨⟨1, 1, 0, 1⟩, find₂ 1, by decide⟩
  obtain ⟨b₂, m₃, del, deleted⟩ : ∃ block next, exec port m₂ (.del .quiet 1) = .ok ⟨0, none⟩ next ∧
      Deleted m₂ 1 2 block next := exec_del_deleted port stored₂.steady live rfl found₂ rfl
  have opened₁ : m₁.opened = true := stored₁.opened
  have opened₂ : m₂.opened = true := stored₂.opened.trans opened₁
  have harmless₁ := @harmless_new (fresh 3) .quiet 1 (some .one) (absent_fresh 3 1)
  have harmless₂ := @harmless_new m₁ .quiet 2 (some .one) (find₁ 2)
  have guarded₁ := (guarded_fresh 3).step (legal_of_opened rfl _) harmless₁ set₁
  have guarded₂ := guarded₁.step (legal_of_opened opened₁ _) harmless₂ set₂
  refine ⟨m₃, guarded₂.step (legal_of_opened opened₂ _) id del, deleted.opened.trans opened₂, ?_, ?_⟩
  · refine ⟨b₀, b₁, b₂, stored₁.carries.holds (by decide) 0, ?_, ?_, ?_⟩
    · exact next₁ ▸ stored₂.carries.holds (by decide) 1
    · exact counter₂ ▸ deleted.carries.holds (by decide) 2
    · rw [deleted.appended.file, stored₂.appended.file, stored₁.appended.file]
      rfl
  · intro calls
    refine ⟨?_, ?_, ?_⟩
    · intro later
      exact .cons rfl set₁ (.cons opened₁ set₂ (.cons opened₂ del later))
    · intro later
      exact .cons harmless₁ set₁ (.cons harmless₂ set₂ (.cons id del later))
    · intro holds throughout
      exact ((throughout.2 _ _ set₁).2 _ _ set₂).2 _ _ del

theorem FreeingLog.versions {file : Bytes} (log : FreeingLog file) (b : Nat) :
    fileLog file b = if b = 2 then some (1, 2) else if b = 1 then some (2, 2)
      else if b = 0 then some (1, 1) else none := by
  obtain ⟨b₀, b₁, b₂, holds₀, holds₁, holds₂, blocks⟩ := log
  simp only [fileLog, blocks, Function.update_apply]
  split
  · exact congrArg some holds₂.version
  · split
    · exact congrArg some holds₁.version
    · split
      · exact congrArg some holds₀.version
      · rfl

theorem FreeingLog.cases {file : Bytes} (log : FreeingLog file) {b seq : Nat} {key : UInt64}
    (stored : fileLog file b = some (key, seq)) :
    b = 0 ∧ key = 1 ∧ seq = 1 ∨ b = 1 ∧ key = 2 ∧ seq = 2 ∨ b = 2 ∧ key = 1 ∧ seq = 2 := by
  rw [log.versions] at stored
  split at stored
  · cases stored
    exact .inr (.inr ⟨‹_›, rfl, rfl⟩)
  · split at stored
    · cases stored
      exact .inr (.inl ⟨‹_›, rfl, rfl⟩)
    · split at stored
      · cases stored
        exact .inl ⟨‹_›, rfl, rfl⟩
      · cases stored

theorem FreeingLog.noRepeats {file : Bytes} (log : FreeingLog file) : NoRepeats (fileLog file) := by
  apply DistinctVersions.noRepeats
  rintro b b' ⟨key, seq⟩ stored stored'
  rcases log.cases stored with ⟨rfl, rfl, rfl⟩ | ⟨rfl, rfl, rfl⟩ | ⟨rfl, rfl, rfl⟩ <;>
    rcases log.cases stored' with ⟨rfl, key', seq'⟩ | ⟨rfl, key', seq'⟩ | ⟨rfl, key', seq'⟩ <;>
    first | rfl | exact absurd key' (by decide) | exact absurd seq' (by decide)

/-- Key 1 has the entry of its deletion, key 2 that of its value. -/
theorem FreeingLog.entries {m : Machine} (log : FreeingLog m.file)
    (scanned : Scanned m.file m.stor) :
    (∃ entry, m.stor.directory.findEntryForKey 1 = some entry ∧ entry.dataBlock = 2 ∧
      entry.sequence = 2 ∧ entry.dataBytes = 0) ∧
    (∃ entry, m.stor.directory.findEntryForKey 2 = some entry ∧ entry.dataBlock = 1 ∧
      entry.dataBytes = 1) ∧
    ∀ key, key ≠ 1 → key ≠ 2 → m.stor.directory.findEntryForKey key = none := by
  have versions := log.versions
  -- The entry of a key is its latest block.
  have named : ∀ {key : UInt64} {b seq : Nat}, fileLog m.file b = some (key, seq) →
      ∃ entry, m.stor.directory.findEntryForKey key = some entry ∧
        Latest (fileLog m.file) key entry.dataBlock entry.sequence.toNat := by
    intro key b seq stored
    obtain ⟨⟨slot, seq'⟩, index⟩ := scanned.indexes.complete stored
    obtain ⟨entry, found, rfl, rfl⟩ := KvDirectory.index_eq_some.mp index
    exact ⟨entry, found, scanned.indexes.latest index⟩
  obtain ⟨b₀, b₁, b₂, holds₀, holds₁, holds₂, blocks⟩ := id log
  refine ⟨?_, ?_, ?_⟩
  · obtain ⟨entry, found, stored, latest⟩ := named (versions 2)
    obtain ⟨block, valid, holds⟩ := scanned.holds found
    rcases log.cases stored with ⟨slot, _, seq⟩ | ⟨_, key, _⟩ | ⟨slot, _, seq⟩
    · have newer := latest 2 2 (versions 2) (by omega)
      omega
    · exact absurd key (by decide)
    · rw [slot, blocks, Function.update_self, Option.some.injEq] at valid
      refine ⟨entry, found, slot, UInt64.toNat_inj.mp seq, ?_⟩
      rw [← holds.dataBytes, ← valid]
      exact holds₂.dataBytes
  · obtain ⟨entry, found, stored, _⟩ := named (versions 1)
    obtain ⟨block, valid, holds⟩ := scanned.holds found
    rcases log.cases stored with ⟨_, key, _⟩ | ⟨slot, _, _⟩ | ⟨_, key, _⟩
    · exact absurd key (by decide)
    · rw [slot, blocks, Function.update_of_ne (by decide), Function.update_self,
        Option.some.injEq] at valid
      refine ⟨entry, found, slot, ?_⟩
      rw [← holds.dataBytes, ← valid]
      exact holds₁.dataBytes
    · exact absurd key (by decide)
  · intro key one two
    rw [← KvDirectory.index_eq_none, scanned.indexes.absent_iff]
    intro b seq stored
    rcases log.cases stored with ⟨_, same, _⟩ | ⟨_, same, _⟩ | ⟨_, same, _⟩
    · exact one same
    · exact two same
    · exact one same

/-- The block of the deletion is the next one to be written. -/
theorem FreeingLog.destination {m : Machine} (log : FreeingLog m.file) (steady : Steady m)
    (scanned : Scanned m.file m.stor) :
    m.destination = some 2 ∧ ∀ b, b ∈ m.stor.blockAllocator.allocated ↔ b = 1 := by
  obtain ⟨⟨entry₁, found₁, _, _, deleted⟩, ⟨entry₂, found₂, block, live⟩, others⟩ :=
    log.entries scanned
  have allocated : ∀ b, b ∈ m.stor.blockAllocator.allocated ↔ b = 1 := by
    intro b
    rw [scanned.marked]
    constructor
    · rintro ⟨key, entry, found, live', rfl⟩
      by_cases one : key = 1
      · rw [one, found₁, Option.some.injEq] at found
        exact absurd (found ▸ deleted) live'
      · by_cases two : key = 2
        · rw [two, found₂, Option.some.injEq] at found
          exact found ▸ block
        · rw [others key one two] at found
          cases found
    · rintro rfl
      exact ⟨2, entry₂, found₂, by rw [live]; decide, block⟩
  refine ⟨?_, allocated⟩
  have two : 2 < capacity := by
    rw [capacity_eq]
    decide
  have free : 2 ∉ m.stor.blockAllocator.allocated := by
    rw [allocated]
    decide
  -- Two blocks have the newest sequence number; the search passes the first, which is taken.
  rcases scanned.follows with ⟨empty, _⟩ | ⟨⟨key, stored⟩, newest⟩
  · have stored := log.versions 2
    rw [empty] at stored
    cases stored
  · have bound := newest 2 1 2 (log.versions 2)
    have start : m.stor.appendPoint.start = m.stor.appendPoint.currentAppendPoint := by
      rw [KvAppendPoint.start, if_neg]
      intro none_
      have inside := fileLog_lt stored
      have small := steady.count_le
      rw [capacity_eq] at small
      rw [none_, UINT32_MAX] at inside
      omega
    rcases log.cases stored with ⟨_, _, seq⟩ | ⟨slot, _, _⟩ | ⟨slot, _, _⟩
    · omega
    · have succ := steady.destination_succ
      rw [start, slot] at succ
      exact succ two ((allocated 1).mpr rfl) free
    · have here := steady.destination_start
      rw [start, slot] at here
      exact here two free

/-- After the reopen the set of key 3 takes the block of the deletion, and the set of key 4
brings the counter up to it. -/
theorem freeing_end (port : Port) (guarded : Guarded m) (log : FreeingLog m.file) :
    ∃ m₄ m₅ m₆, exec port m (.reopen 2 .quiet) = .ok ⟨0, none⟩ m₄ ∧ m₄.opened = true ∧
      exec port m₄ (.set .quiet 3 (some .one)) = .ok ⟨0, none⟩ m₅ ∧ m₅.opened = true ∧
      exec port m₅ (.set .quiet 4 (some .one)) = .ok ⟨0, none⟩ m₆ ∧ m₆.opened = true ∧
      (¬ FreesTaken m₄ (.set .quiet 3 (some .one)) ∧ ¬ FreesTaken m₅ (.set .quiet 4 (some .one))) ∧
      Guarded m₆ ∧ FreesTaken m₆ (.set .quiet 1 (some .one)) := by
  obtain ⟨m₄, reopened⟩ :=
    (reopen_returns_iff guarded.count_le (OpenEnv.quiet_succeeds port)).1.mpr log.noRepeats
  obtain ⟨file, opened₄, scanned⟩ := reopen_returned guarded.count_le reopened
  have guarded₄ : Guarded m₄ := guarded.step (show Legal m (.reopen 2 .quiet) from trivial) id reopened
  have steady₄ := guarded₄.steady opened₄
  rw [← file] at log scanned
  obtain ⟨⟨entry, found, block, sequence, deleted⟩, _, others⟩ := log.entries scanned
  obtain ⟨destination₄, allocated₄⟩ := log.destination steady₄ scanned
  have three := others 3 (by decide) (by decide)
  obtain ⟨_, m₅, set₅, stored₅, marked₅⟩ := exec_set_new port steady₄ destination₄ three
  have opened₅ := stored₅.opened.trans opened₄
  have guarded₅ := guarded₄.step (legal_of_opened opened₄ _) (harmless_new three) set₅
  have destination₅ : m₅.destination = some 3 :=
    stored₅.destination (by rw [capacity_eq]; decide) (by rw [allocated₄]; decide)
  have find₅ : ∀ key, key ≠ 3 → m₅.stor.directory.findEntryForKey key =
      m₄.stor.directory.findEntryForKey key := by
    intro key other
    rw [stored₅.directory, KvDirectory.find_withEntry, if_neg other]
  have four := (find₅ 4 (by decide)).trans (others 4 (by decide) (by decide))
  obtain ⟨_, m₆, set₆, stored₆, marked₆⟩ := exec_set_new port stored₅.steady destination₅ four
  have opened₆ := stored₆.opened.trans opened₅
  have guarded₆ := guarded₅.step (legal_of_opened opened₅ _) (harmless_new four) set₆
  have destination₆ : m₆.destination = some 4 := by
    refine stored₆.destination (by rw [capacity_eq]; decide) ?_
    rw [marked₅, allocated₄]
    decide
  refine ⟨m₄, m₅, m₆, reopened, opened₄, set₅, opened₅, set₆, opened₆,
    ⟨harmless_new three, harmless_new four⟩, guarded₆, one_valid, rfl, ⟨4, destination₆⟩, rfl, entry,
    ?_, ?_, deleted, ?_⟩
  · rw [stored₆.directory, KvDirectory.find_withEntry, if_neg (show (1 : UInt64) ≠ 4 by decide),
      find₅ 1 (by decide), found]
  · rw [sequence, Machine.nextSequence, stored₆.appended.counter, Machine.nextSequence,
      stored₅.appended.counter, Machine.nextSequence, scanned.counter]
    decide
  · rw [block, marked₆, marked₅]
    exact .inr (.inl rfl)

theorem freeing (port : Port) :
    Allowed (exec port) Legal (fresh 3) freeingRun ∧
      ¬ Throughout (exec port) (fun m => m.opened = true → LiveBlocksKept port m) (fresh 3)
        freeingRun := by
  obtain ⟨m₃, guarded₃, opened₃, log, start⟩ := freeing_start port
  obtain ⟨m₄, m₅, m₆, reopened, opened₄, set₅, opened₅, set₆, opened₆, _, guarded₆, frees⟩ :=
    freeing_end port guarded₃ log
  obtain ⟨response, m₇, set₇, opened₇, broken⟩ := @not_kept_of_freesTaken port m₆
    (guarded₆.steady opened₆) opened₆ (guarded₆.marksLive opened₆) _ frees
  constructor
  · apply (start _).1
    exact .cons trivial reopened (.cons opened₄ set₅ (.cons opened₅ set₆ (.cons opened₆ set₇ trivial)))
  · intro throughout
    have last := (((((start _).2.2 _ throughout).2 _ _ reopened).2 _ _ set₅).2 _ _ set₆).2 _ _ set₇
    exact broken (last opened₇)

/-- Without its last call the run keeps the blocks of the live entries. -/
theorem live_blocks_kept_iff_unfinished :
    Throughout (exec .cpp) (fun m => m.opened = true → LiveBlocksKept .cpp m) (fresh 3)
      freeingRun.dropLast := by
  obtain ⟨m₃, guarded₃, _, log, start⟩ := freeing_start .cpp
  obtain ⟨m₄, m₅, m₆, reopened, opened₄, set₅, opened₅, set₆, _, ⟨harmless₅, harmless₆⟩, _⟩ :=
    freeing_end .cpp guarded₃ log
  have legal : Allowed (exec .cpp) Legal m₃
      [.reopen 2 .quiet, .set .quiet 3 (some .one), .set .quiet 4 (some .one)] :=
    .cons trivial reopened (.cons opened₄ set₅ (.cons opened₅ set₆ trivial))
  refine (live_blocks_kept_iff (created_iff.mpr ⟨3, rfl⟩) ((start _).1 legal)).mpr ?_
  apply (start _).2.1
  exact .cons id reopened (.cons harmless₅ set₅ (.cons harmless₆ set₆ trivial))

/-- Key 3 is live, but its block is free at the end of this run, of either port. -/
theorem live_block_freed :
    (Created .cpp (fresh 3) ∧ Allowed (exec .cpp) Legal (fresh 3) freeingRun ∧
      ¬ Throughout (exec .cpp) (fun m => m.opened = true → LiveBlocksKept .cpp m) (fresh 3)
        freeingRun) ∧
    (Created .c (fresh 3) ∧ Allowed (exec .c) Legal (fresh 3) freeingRun ∧
      ¬ Throughout (exec .c) (fun m => m.opened = true → LiveBlocksKept .c m) (fresh 3)
        freeingRun) :=
  ⟨⟨created_iff.mpr ⟨3, rfl⟩, freeing .cpp⟩, ⟨created_iff.mpr ⟨3, rfl⟩, freeing .c⟩⟩

end Runs

end KeyValueStore.KvStore
