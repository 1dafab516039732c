import KeyValueStore.Submission.WellFormed

/-! # Recovery from a log

Replay of a log that can be adopted, such as a well-formed one, fails no assertion and
ends in a logged store (`exec_reopen_good`).  Logged stores with the same log have the
same directory, the same bitmap and the same destination (`Logged.directory_eq` and the
lemmas after it): this is why replay, which sees only the file, finds what the running
store had. -/

namespace KeyValueStore

open VersionLog

section File

variable {file : Bytes} {env : OpenEnv} {b : Nat}

theorem replayedBlocks_eq (count : blockCount file ≤ capacity) :
    replayedBlocks file = blockCount file := by
  simp only [capacity, MAXKEYS] at count
  exact Nat.mod_eq_of_lt (by omega)

theorem AdoptableLog.not_trips (log : AdoptableLog file) : ¬ Trips env file b := by
  rintro ⟨_, key, seq, stored, repeats | ⟨_, outside, _⟩⟩
  · exact log.distinct.noRepeats b key seq stored repeats
  · have inside := fileLog_lt stored
    have count := log.count
    omega

/-- With nothing in the way only a repeated version does not pass. -/
theorem OpenEnv.Succeeds.passes_iff (succeeds : env.Succeeds) (count : blockCount file ≤ capacity) :
    Passes env file b ↔ ∀ key seq, fileLog file b = some (key, seq) →
      ¬ Repeats (below b (fileLog file)) key seq := by
  constructor
  · intro passes key seq stored
    exact (passes.2 key seq stored).1
  · intro once
    refine ⟨by rw [succeeds.read]; trivial, ?_⟩
    intro key seq stored
    refine ⟨once key seq stored, fun _ => ?_, fun _ => succeeds.insert b⟩
    exact Nat.lt_of_lt_of_le (fileLog_lt stored) count

theorem AdoptableLog.passes (log : AdoptableLog file) (succeeds : env.Succeeds) :
    Passes env file b :=
  (succeeds.passes_iff log.count).mpr (log.distinct.noRepeats b)

theorem OpenEnv.Succeeds.starts (succeeds : env.Succeeds) {argc : Nat} (enough : 2 ≤ argc) :
    Starts argc env :=
  ⟨enough, succeeds.mallocs, succeeds.opened, succeeds.seekEnd⟩

end File

/-- There is nothing behind the last block. -/
theorem below_blockCount (file : Bytes) :
    below (blockCount file) (fileLog file) = fileLog file := by
  apply below_of_none_above
  intro slot outside
  cases stored : fileLog file slot with
  | none => rfl
  | some version => exact absurd (fileLog_lt stored) (by omega)

/-- The scan of a whole log that can be adopted leaves a logged store. -/
theorem Replayed.logged {file : Bytes} {stor : KvStor} (log : AdoptableLog file)
    (replayed : Replayed file (blockCount file) stor)
    (noWrap : ∀ b block, validBlock file b = some block →
      block.header.sequence.toNat + 1 < 2 ^ 64) (opened : Bool) :
    Logged ⟨file, stor, opened⟩ := by
  have all := below_blockCount file
  have indexes := replayed.indexes
  have counted := replayed.counted noWrap
  have follows := replayed.follows
  rw [all] at indexes counted follows
  refine ⟨⟨⟨replayed.sound, replayed.holds⟩, ?_, ?_⟩, indexes, ?_, ?_⟩
  · intro key entry found
    obtain ⟨block, valid, holds⟩ := replayed.holds found
    rw [← holds.dataBytes]
    exact log.fits valid
  · intro key entry found
    have stored := (indexes.latest (KvDirectory.index_of_found found)).1
    exact Nat.le_of_lt (counted _ _ _ stored)
  · intro b key seq stored
    exact Nat.le_of_lt (counted b key seq stored)
  · rcases follows with ⟨empty, start⟩ | newest
    · refine ⟨0, .inl ⟨empty, rfl⟩, ?_⟩
      show stor.appendPoint.next stor.blockAllocator = _
      rw [start]
      rfl
    · have inside := fileLog_lt newest.1.choose_spec
      have count := log.count
      refine ⟨stor.appendPoint.currentAppendPoint, .inr ⟨_, newest⟩, ?_⟩
      exact KvAppendPoint.next_of_small (Nat.lt_of_lt_of_le inside count) _ stor.blockAllocator

/-! ## What the file determines -/

section Same

variable {m m' : Machine}

/-- An entry that names the same version in the same block is the same entry. -/
theorem Readable.find_eq (readable : Readable m) (readable' : Readable m') {key : UInt64}
    (index : m'.stor.directory.index key = m.stor.directory.index key)
    (blocks : ∀ b seq, m.stor.directory.index key = some (b, seq) →
      validBlock m'.file b = validBlock m.file b) :
    m'.stor.directory.findEntryForKey key = m.stor.directory.findEntryForKey key := by
  cases found : m.stor.directory.findEntryForKey key with
  | none =>
    apply KvDirectory.index_eq_none.mp
    rw [index]
    exact KvDirectory.index_eq_none.mpr found
  | some entry =>
    have named := KvDirectory.index_of_found found
    have same := blocks _ _ named
    rw [← index] at named
    obtain ⟨entry', found', block, sequence⟩ := KvDirectory.index_eq_some.mp named
    obtain ⟨held, valid, holds⟩ := readable.holds found
    obtain ⟨held', valid', holds'⟩ := readable'.holds found'
    rw [block, same, valid, Option.some.injEq] at valid'
    subst valid'
    -- Both entries repeat the header of the one block.
    have entries : entry' = entry := by
      cases entry
      cases entry'
      simp only [DirectoryEntry.mk.injEq]
      exact ⟨holds'.keyId.symm.trans holds.keyId, holds'.sequence.symm.trans holds.sequence,
        block, holds'.dataBytes.symm.trans holds.dataBytes⟩
    rw [found', entries]

theorem Logged.directory_eq (logged : Logged m) (logged' : Logged m')
    (same : blockAt m'.file = blockAt m.file) : m'.stor.directory = m.stor.directory := by
  have logs : fileLog m'.file = fileLog m.file := by
    funext b
    exact fileLog_congr (congrFun same b)
  have indexes := logged'.indexes
  rw [logs] at indexes
  have index := indexes.unique logged.indexes
  apply KvDirectory.ext_find
  intro key
  refine logged.backed.toReadable.find_eq logged'.backed.toReadable (congrFun index key) ?_
  intro b _ _
  rw [validBlock, validBlock, same]

theorem Logged.allocated_eq (logged : Logged m) (logged' : Logged m')
    (same : blockAt m'.file = blockAt m.file) :
    m'.stor.blockAllocator.allocated = m.stor.blockAllocator.allocated := by
  ext b
  rw [logged'.backed.sound.owns.owned, logged.backed.sound.owns.owned,
    logged.directory_eq logged' same]

theorem Logged.mapping_eq (logged : Logged m) (logged' : Logged m')
    (same : blockAt m'.file = blockAt m.file) : m'.mapping = m.mapping := by
  refine Machine.mapping_congr ?_ ?_
  · intro key
    rw [logged.directory_eq logged' same]
  · intro key entry _
    exact entryValue_congr (congrFun same entry.dataBlock)

theorem AppendsAfter.unique {log : Nat → Option (UInt64 × Nat)} (distinct : DistinctSequences log)
    {point point' : Nat} (first : AppendsAfter log point) (second : AppendsAfter log point') :
    point = point' := by
  rcases first with ⟨empty, rfl⟩ | ⟨seq, ⟨key, stored⟩, greatest⟩ <;>
    rcases second with ⟨empty', rfl⟩ | ⟨seq', ⟨key', stored'⟩, greatest'⟩
  · rfl
  · rw [empty] at stored'
    cases stored'
  · rw [empty'] at stored
    cases stored
  · -- Two newest blocks have the same sequence, so they are one block.
    have below := greatest point' key' seq' stored'
    have above := greatest' point key seq stored
    obtain rfl : seq = seq' := Nat.le_antisymm above below
    exact distinct point point' key key' seq stored stored'

theorem Logged.destination_eq (log : WellFormedLog m.file) (logged : Logged m)
    (logged' : Logged m') (same : blockAt m'.file = blockAt m.file) :
    m'.destination = m.destination := by
  have logs : fileLog m'.file = fileLog m.file := by
    funext b
    exact fileLog_congr (congrFun same b)
  obtain ⟨point, after, next⟩ := logged.follows
  obtain ⟨point', after', next'⟩ := logged'.follows
  rw [logs] at after'
  rw [next, next', AppendsAfter.unique log.distinct after' after]
  apply KvBlockAllocator.nextFree_congr
  · rw [logged'.backed.sound.owns.size, logged.backed.sound.owns.size]
  · exact logged.allocated_eq logged' same

end Same

/-! ## Reopening -/

/-- What a reopen can do to a log that can be adopted. -/
inductive GoodReopen (m : Machine) (argc : Nat) (env : OpenEnv) :
    EStateM.Result Fault Machine Response → Prop where
  | refused {ret : Int} {next : Machine} : ¬ (2 ≤ argc ∧ env.Succeeds) → ret ≠ 0 →
    next.file = m.file → next.opened = false →
    (Owns m.stor.directory m.stor.blockAllocator →
      Owns next.stor.directory next.stor.blockAllocator) →
    GoodReopen m argc env (.ok ⟨ret, none⟩ next)
  | crashed {next : Machine} : env.mallocs.bits = false ∨ (∃ b, env.insert b = .mallocNull) →
    GoodReopen m argc env (.error .nullPointer next)
  | reopened {stor : KvStor} : Logged ⟨m.file, stor, true⟩ →
    (∀ b key seq, fileLog m.file b = some (key, seq) →
      seq < stor.currentSequenceNumber.toNat) →
    (∀ bound, (∀ b key seq, fileLog m.file b = some (key, seq) → seq + 1 ≤ bound) →
      stor.currentSequenceNumber.toNat ≤ bound) →
    GoodReopen m argc env (.ok ⟨0, none⟩ ⟨m.file, stor, true⟩)

theorem exec_reopen_good {m : Machine} (log : AdoptableLog m.file) {argc : Nat} {env : OpenEnv}
    (noWrap : NoWrap m (.reopen argc env)) :
    GoodReopen m argc env (exec m (.reopen argc env)) := by
  have total := replayedBlocks_eq log.count
  have succeeds : 2 ≤ argc ∧ env.Succeeds → Starts argc env :=
    fun both => both.2.starts both.1
  have outcome := exec_reopen m argc env
  generalize exec m (.reopen argc env) = result at outcome
  cases outcome with
  | refused notStarted failed file closed owns =>
    exact .refused (fun both => notStarted (succeeds both)) failed file closed owns
  | crashed _ bits => exact .crashed (.inl bits)
  | returned starts replay =>
    rw [total] at replay
    cases replay with
    | finished _ replayed =>
      have steps := noWrap.2 argc env rfl
      have counted := replayed.counted steps
      have bounded := replayed.bounded
      rw [below_blockCount] at counted bounded
      exact .reopened (replayed.logged log steps true) counted bounded
    | gaveUp _ _ notPasses _ failed replayed =>
      refine .refused ?_ failed rfl (decide_eq_false failed) (fun _ => replayed.sound.owns)
      exact fun both => notPasses (log.passes both.2)
  | faulted starts replay =>
    cases replay with
    | crashed _ _ _ _ insert => exact .crashed (.inr ⟨_, insert⟩)
    | tripped _ _ trips => exact absurd trips log.not_trips

/-- With nothing in the way a log that can be adopted opens. -/
theorem exec_reopen_undisturbed {m : Machine} (log : AdoptableLog m.file) {argc : Nat}
    {env : OpenEnv} (undisturbed : Undisturbed m (.reopen argc env)) :
    ∃ stor, exec m (.reopen argc env) = .ok ⟨0, none⟩ ⟨m.file, stor, true⟩ ∧
      Logged ⟨m.file, stor, true⟩ ∧
      (∀ b key seq, fileLog m.file b = some (key, seq) →
        seq < stor.currentSequenceNumber.toNat) ∧
      ∀ bound, (∀ b key seq, fileLog m.file b = some (key, seq) → seq + 1 ≤ bound) →
        stor.currentSequenceNumber.toNat ≤ bound := by
  obtain ⟨succeeds, noWrap⟩ := undisturbed
  have outcome := exec_reopen_good log noWrap
  generalize exec m (.reopen argc env) = result at outcome
  cases outcome with
  | refused failed => exact absurd succeeds failed
  | crashed failed =>
    rcases failed with bits | ⟨b, insert⟩
    · rw [succeeds.2.mallocs] at bits
      cases bits
    · rw [succeeds.2.insert] at insert
      cases insert
  | reopened logged ahead bounded => exact ⟨_, rfl, logged, ahead, bounded⟩

/-! ## A file of one block -/

section OneBlock

variable {block : KvBlock}

theorem blockCount_one (block : KvBlock) :
    blockCount (overwritten [] 0 block sizeofKvBlock) = 1 := by
  rw [blockCount_overwritten_full (Nat.le_refl _)]
  simp [blockCount]

theorem validBlock_one (valid : block.validate = true) {b : Nat} {held : KvBlock} :
    validBlock (overwritten [] 0 block sizeofKvBlock) b = some held ↔ b = 0 ∧ held = block := by
  have empty : validBlock [] b = none := by simp [validBlock, blockAt, blockCount]
  rw [validBlock_overwritten (Nat.le_refl _) (Nat.zero_le _) valid]
  by_cases first : b = 0
  · rw [first, Function.update_self, Option.some.injEq]
    exact ⟨fun same => ⟨rfl, same.symm⟩, fun both => both.2.symm⟩
  · rw [Function.update_of_ne first, empty]
    exact iff_of_false (by simp) fun both => first both.1

theorem fileLog_one (valid : block.validate = true) :
    fileLog (overwritten [] 0 block sizeofKvBlock) =
      Function.update (fun _ => none) 0 (some block.version) := by
  rw [fileLog_overwritten (Nat.le_refl _) (Nat.zero_le _) valid, fileLog_nil]

/-- There is no version before the only block that it could repeat. -/
theorem passes_one (block : KvBlock) (b : Nat) :
    Passes .quiet (overwritten [] 0 block sizeofKvBlock) b := by
  refine (OpenEnv.quiet_succeeds.passes_iff (by rw [blockCount_one]; decide)).mpr ?_
  rintro key seq stored ⟨⟨slot, again⟩, _⟩
  have before := (below_eq_some.mp again).1
  have inside := fileLog_lt stored
  rw [blockCount_one] at inside
  omega

/-- A file of one valid block opens, whatever its header says. -/
theorem one_block_opens (block : KvBlock) (stor : KvStor) :
    ∃ opened, exec ⟨overwritten [] 0 block sizeofKvBlock, stor, false⟩ (.reopen 2 .quiet) =
      .ok ⟨0, none⟩ opened :=
  (reopen_returns_iff (OpenEnv.quiet_succeeds.starts (Nat.le_refl 2))).mpr fun b _ =>
    passes_one block b

/-- The directory then has the entry of that block. -/
theorem one_block_entry (valid : block.validate = true) {stor : KvStor}
    (replayed : Replayed (overwritten [] 0 block sizeofKvBlock) 1 stor) :
    ∃ entry, stor.directory.findEntryForKey block.header.keyId = some entry ∧
      entry.dataBlock = 0 ∧ entry.dataBytes = block.header.dataBytes := by
  have first : validBlock (overwritten [] 0 block sizeofKvBlock) 0 = some block :=
    (validBlock_one valid).mpr ⟨rfl, rfl⟩
  obtain ⟨⟨slot, seq⟩, named⟩ := replayed.indexes.complete
    (below_eq_some.mpr ⟨Nat.one_pos, fileLog_of_valid first⟩)
  obtain ⟨entry, found, _, _⟩ := KvDirectory.index_eq_some.mp named
  obtain ⟨held, there, holds⟩ := replayed.holds found
  obtain ⟨zero, rfl⟩ := (validBlock_one valid).mp there
  exact ⟨entry, found, zero, holds.dataBytes.symm⟩

end OneBlock

end KeyValueStore
