import KeyValueStore.Submission.Backed

/-! # Replay of any file

`Replayed file n stor` is what the scan has established when it is about to look at
block `n`, for a file with any content at all.  Block `n` then either passes, makes
replay give up, or trips an assertion; which of these depends on the file and the
environment alone (`Passes`, `Trips`), not on the store, and `ReplayOutcome` sums up
the whole scan in these terms. -/

namespace KeyValueStore

open ByteFile VersionLog

/-! ## The append point and the counter -/

/-- The append point that a scan of `log` leaves: its newest block. -/
def KvAppendPoint.Follows (appendPoint : KvAppendPoint) (log : Nat → Option (UInt64 × Nat)) :
    Prop :=
  (∀ b, log b = none) ∧ appendPoint = ⟨0, 0⟩ ∨
    Newest log appendPoint.currentAppendPoint appendPoint.lastScannedSequenceNumber.toNat

theorem KvAppendPoint.Follows.update {appendPoint : KvAppendPoint}
    {log : Nat → Option (UInt64 × Nat)} (follows : appendPoint.Follows log) {b : Nat}
    (fresh : log b = none) (key sequence : UInt64) :
    (appendPoint.updateAppendPoint b sequence).Follows
      (Function.update log b (some (key, sequence.toNat))) := by
  have others : ∀ {bound : Nat}, sequence.toNat ≤ bound →
      (∀ slot key' seq, log slot = some (key', seq) → seq ≤ bound) →
      ∀ slot key' seq, Function.update log b (some (key, sequence.toNat)) slot = some (key', seq) →
        seq ≤ bound := by
    intro bound here rest slot key' seq stored
    by_cases same : slot = b
    · rw [same, Function.update_self] at stored
      cases stored
      exact here
    · rw [Function.update_of_ne same] at stored
      exact rest slot key' seq stored
  rw [updateAppendPoint]
  -- The comparison is `≥`, so the first block moves the append point even at sequence 0.
  by_cases newest : sequence ≥ appendPoint.lastScannedSequenceNumber
  · rw [if_pos newest]
    rw [ge_iff_le, UInt64.le_iff_toNat_le] at newest
    refine .inr ⟨⟨key, Function.update_self ..⟩, others (Nat.le_refl _) ?_⟩
    intro slot key' seq stored
    rcases follows with ⟨empty, _⟩ | ⟨_, greatest⟩
    · rw [empty slot] at stored
      cases stored
    · exact Nat.le_trans (greatest slot key' seq stored) newest
  · rw [if_neg newest]
    rw [ge_iff_le, UInt64.le_iff_toNat_le] at newest
    rcases follows with ⟨_, rfl⟩ | ⟨⟨key', stored⟩, greatest⟩
    · exact absurd (Nat.zero_le _) newest
    · refine .inr ⟨⟨key', ?_⟩, others (by omega) greatest⟩
      rw [Function.update_of_ne]
      · exact stored
      · rintro same
        rw [same, fresh] at stored
        cases stored

/-- The counter that replay leaves after a block with this sequence. -/
def advance (current sequence : UInt64) : UInt64 :=
  if sequence ≥ current then sequence + 1 else current

/-- Unless it wraps, the counter is ahead of the sequence. -/
theorem lt_advance (current : UInt64) {sequence : UInt64} (noWrap : sequence.toNat + 1 < 2 ^ 64) :
    sequence.toNat < (advance current sequence).toNat ∧
      current.toNat ≤ (advance current sequence).toNat := by
  have next : (sequence + 1).toNat = sequence.toNat + 1 := by
    rw [UInt64.toNat_add]
    exact Nat.mod_eq_of_lt noWrap
  rw [advance]
  split
  · rename_i ahead
    rw [ge_iff_le, UInt64.le_iff_toNat_le] at ahead
    omega
  · rename_i behind
    rw [ge_iff_le, UInt64.le_iff_toNat_le] at behind
    omega

theorem advance_le {current sequence : UInt64} {bound : Nat} (currentLe : current.toNat ≤ bound)
    (sequenceLe : sequence.toNat + 1 ≤ bound) : (advance current sequence).toNat ≤ bound := by
  rw [advance]
  split
  · rw [UInt64.toNat_add]
    exact Nat.le_trans (Nat.mod_le _ _) sequenceLe
  · exact currentLe

/-! ## The scan invariant -/

structure Replayed (file : Bytes) (n : Nat) (stor : KvStor) : Prop where
  sound : Sound stor
  indexes : Indexes stor.directory.index (below n (fileLog file))
  holds : ∀ {key entry}, stor.directory.findEntryForKey key = some entry →
    ∃ block, validBlock file entry.dataBlock = some block ∧ HoldsEntry block entry
  follows : stor.appendPoint.Follows (below n (fileLog file))
  counted : (∀ b block, validBlock file b = some block → block.header.sequence.toNat + 1 < 2 ^ 64) →
    ∀ b key seq, below n (fileLog file) b = some (key, seq) →
      seq < stor.currentSequenceNumber.toNat
  bounded : ∀ bound, (∀ b key seq, below n (fileLog file) b = some (key, seq) → seq + 1 ≤ bound) →
    stor.currentSequenceNumber.toNat ≤ bound

theorem Replayed.skip {file : Bytes} {n : Nat} {stor : KvStor} (replayed : Replayed file n stor)
    (invalid : fileLog file n = none) : Replayed file (n + 1) stor := by
  have same := below_succ_of_none invalid
  exact ⟨replayed.sound, same ▸ replayed.indexes, replayed.holds, same ▸ replayed.follows,
    same ▸ replayed.counted, same ▸ replayed.bounded⟩

/-- The slots of entries have been scanned. -/
theorem Replayed.unnamed {file : Bytes} {n : Nat} {stor : KvStor}
    (replayed : Replayed file n stor) : Unnamed stor.directory.index n := by
  intro key slot seq named
  have scanned := (below_eq_some.mp (replayed.indexes.latest named).1).1
  exact Nat.ne_of_lt scanned

theorem Replayed.free {file : Bytes} {n : Nat} {stor : KvStor}
    (replayed : Replayed file n stor) : n ∉ stor.blockAllocator.allocated := by
  intro held
  obtain ⟨key, entry, found, same⟩ := (replayed.sound.owns.owned n).mp held
  exact replayed.unnamed key _ _ (KvDirectory.index_of_found found) same

section Valid

variable {file : Bytes} {n : Nat} {stor : KvStor} {block : KvBlock}

/-- The counter and the append point take in a valid block. -/
def KvStor.scanned (stor : KvStor) (n : Nat) (header : KvBlockHeader) : KvStor :=
  { stor with
    appendPoint := stor.appendPoint.updateAppendPoint n header.sequence
    currentSequenceNumber := advance stor.currentSequenceNumber header.sequence }

theorem fileLog_of_valid (valid : validBlock file n = some block) :
    fileLog file n = some (block.header.keyId, block.header.sequence.toNat) := by
  rw [fileLog, valid]
  rfl

theorem fileLog_of_invalid (stored : blockAt file n = some block)
    (invalid : ¬ block.validate = true) : fileLog file n = none := by
  simp [fileLog, validBlock, stored, invalid]

/-- The facts about the counter after a valid block. -/
theorem Replayed.counter (replayed : Replayed file n stor) (valid : validBlock file n = some block) :
    ((∀ b block, validBlock file b = some block → block.header.sequence.toNat + 1 < 2 ^ 64) →
      ∀ b key seq, below (n + 1) (fileLog file) b = some (key, seq) →
        seq < (advance stor.currentSequenceNumber block.header.sequence).toNat) ∧
    ∀ bound,
      (∀ b key seq, below (n + 1) (fileLog file) b = some (key, seq) → seq + 1 ≤ bound) →
      (advance stor.currentSequenceNumber block.header.sequence).toNat ≤ bound := by
  have stored := fileLog_of_valid valid
  constructor
  · intro noWrap b key seq scanned
    obtain ⟨here, current⟩ := lt_advance stor.currentSequenceNumber (noWrap n block valid)
    rw [below_succ_of_some stored] at scanned
    by_cases same : b = n
    · rw [same, Function.update_self] at scanned
      cases scanned
      exact here
    · rw [Function.update_of_ne same] at scanned
      exact Nat.lt_of_lt_of_le (replayed.counted noWrap b key seq scanned) current
  · intro bound all
    refine advance_le (replayed.bounded bound ?_) ?_
    · intro b key seq scanned
      obtain ⟨before, held⟩ := below_eq_some.mp scanned
      exact all b key seq (below_eq_some.mpr ⟨by omega, held⟩)
    · exact all n _ _ (below_eq_some.mpr ⟨by omega, stored⟩)

/-- A version that is out of date leaves the directory and the bitmap alone. -/
theorem Replayed.older (replayed : Replayed file n stor) (valid : validBlock file n = some block)
    {entry : DirectoryEntry}
    (found : stor.directory.findEntryForKey block.header.keyId = some entry)
    (older : block.header.sequence.toNat < entry.sequence.toNat) :
    Replayed file (n + 1) (stor.scanned n block.header) := by
  have stored := fileLog_of_valid valid
  have named := KvDirectory.index_of_found found
  have grown := below_succ_of_some stored
  have fresh : below n (fileLog file) n = none := by simp [below]
  -- The entry's own version is in the log, so the append point is ahead of this block.
  have unmoved : stor.appendPoint.updateAppendPoint n block.header.sequence = stor.appendPoint := by
    have held := (replayed.indexes.latest named).1
    rcases replayed.follows with ⟨empty, _⟩ | ⟨_, greatest⟩
    · rw [empty] at held
      cases held
    · have behind := greatest _ _ _ held
      rw [KvAppendPoint.updateAppendPoint, if_neg]
      rw [ge_iff_le, UInt64.le_iff_toNat_le]
      omega
  refine ⟨⟨replayed.sound.opened, replayed.sound.raw, replayed.sound.owns, ?_⟩, ?_,
    replayed.holds, ?_, (replayed.counter valid).1, (replayed.counter valid).2⟩
  · simp only [KvStor.scanned, unmoved]
    exact replayed.sound.inRange
  · rw [grown]
    exact replayed.indexes.ignore replayed.unnamed named older
  · rw [grown]
    exact replayed.follows.update fresh _ _

/-- The newest version of its key so far takes over the entry. -/
theorem Replayed.newer (replayed : Replayed file n stor) (valid : validBlock file n = some block)
    (newer : ∀ entry, stor.directory.findEntryForKey block.header.keyId = some entry →
      entry.sequence.toNat < block.header.sequence.toNat)
    (inside : n < stor.blockAllocator.numberOfBlocks) {marked : KvBlockAllocator}
    (marks : Marks stor.directory stor.blockAllocator block.header.keyId n marked) :
    Replayed file (n + 1)
      { stor.scanned n block.header with
        directory := stor.directory.withEntry
          ⟨block.header.keyId, block.header.sequence, n, block.header.dataBytes⟩
        blockAllocator := marked } := by
  have stored := fileLog_of_valid valid
  have grown := below_succ_of_some stored
  have fresh : below n (fileLog file) n = none := by simp [below]
  refine ⟨⟨replayed.sound.opened, replayed.sound.raw, ?_, ?_⟩, ?_, ?_, ?_,
    (replayed.counter valid).1, (replayed.counter valid).2⟩
  · exact replayed.sound.owns.move replayed.free marks
  · have before := replayed.sound.inRange
    simp only [KvAppendPoint.InRange, KvStor.scanned, KvAppendPoint.updateAppendPoint, marks.size] at *
    split
    · exact .inl (Nat.le_of_lt inside)
    · exact before
  · rw [grown, KvDirectory.index_withEntry]
    refine replayed.indexes.record replayed.unnamed ?_
    intro slot seq named
    obtain ⟨entry, found, _, rfl⟩ := KvDirectory.index_eq_some.mp named
    exact newer entry found
  · intro key entry found
    simp only [KvDirectory.find_withEntry] at found
    split at found
    · cases found
      exact ⟨block, valid, rfl, rfl, rfl⟩
    · exact replayed.holds found
  · rw [grown]
    exact replayed.follows.update fresh _ _

end Valid

/-! ## What one block does -/

/-- Replay goes on behind block `b`. -/
def Passes (env : OpenEnv) (file : Bytes) (b : Nat) : Prop :=
  (env.read b).Delivers ∧ ∀ key seq, fileLog file b = some (key, seq) →
    ¬ Repeats (below b (fileLog file)) key seq ∧
      (Newer (below b (fileLog file)) key seq → b < capacity) ∧
      (Absent (below b (fileLog file)) key → env.insert b = .inserted)

/-- Block `b` fails an assertion of replay: it repeats the newest version of its key, or
it is the newest itself and lies where the bitmap has no bit for it. -/
def Trips (env : OpenEnv) (file : Bytes) (b : Nat) : Prop :=
  (env.read b).Delivers ∧ ∃ key seq, fileLog file b = some (key, seq) ∧
    (Repeats (below b (fileLog file)) key seq ∨
      Newer (below b (fileLog file)) key seq ∧ capacity ≤ b ∧
        (Absent (below b (fileLog file)) key → env.insert b = .inserted))

theorem Passes.not_trips {env : OpenEnv} {file : Bytes} {b : Nat} (passes : Passes env file b) :
    ¬ Trips env file b := by
  rintro ⟨_, key, seq, stored, trouble⟩
  obtain ⟨once, inside, _⟩ := passes.2 key seq stored
  rcases trouble with repeats | ⟨newer, outside, _⟩
  · exact once repeats
  · exact absurd (inside newer) (Nat.not_lt.mpr outside)

/-- A block that holds no version is passed once it is read. -/
theorem Passes.of_empty {env : OpenEnv} {file : Bytes} {b : Nat} (delivers : (env.read b).Delivers)
    (empty : fileLog file b = none) : Passes env file b := by
  refine ⟨delivers, ?_⟩
  intro key seq impossible
  rw [empty] at impossible
  cases impossible

/-- What the body of the loop can do with a block that was read and is valid. -/
inductive BlockOutcome (env : OpenEnv) (file : Bytes) (n : Nat) (stor : KvStor) :
    Except Fault (Int × KvStor) → Prop where
  | passed {next : KvStor} : Passes env file n → Replayed file (n + 1) next →
    BlockOutcome env file n stor (.ok (0, next))
  | gaveUp : ¬ Passes env file n → ¬ Trips env file n →
    BlockOutcome env file n stor (.ok (-ENOMEM, stor))
  | crashed : ¬ Passes env file n → ¬ Trips env file n → env.insert n = .mallocNull →
    BlockOutcome env file n stor (.error .nullPointer)
  | tripped {which : Assertion} : Trips env file n →
    BlockOutcome env file n stor (.error (.assertion which))

section Block

variable {env : OpenEnv} {file : Bytes} {n : Nat} {stor : KvStor} {block : KvBlock}

theorem passes_of_valid (valid : validBlock file n = some block) :
    Passes env file n ↔ (env.read n).Delivers ∧
      ¬ Repeats (below n (fileLog file)) block.header.keyId block.header.sequence.toNat ∧
      (Newer (below n (fileLog file)) block.header.keyId block.header.sequence.toNat →
        n < capacity) ∧
      (Absent (below n (fileLog file)) block.header.keyId → env.insert n = .inserted) := by
  simp [Passes, fileLog_of_valid valid]

theorem trips_of_valid (valid : validBlock file n = some block) :
    Trips env file n ↔ (env.read n).Delivers ∧
      (Repeats (below n (fileLog file)) block.header.keyId block.header.sequence.toNat ∨
        Newer (below n (fileLog file)) block.header.keyId block.header.sequence.toNat ∧
          capacity ≤ n ∧
          (Absent (below n (fileLog file)) block.header.keyId → env.insert n = .inserted)) := by
  simp [Trips, fileLog_of_valid valid]

/-- The version becomes the entry of its key: all depends on whether the bitmap has a
bit for its block. -/
theorem Replayed.takeOver (replayed : Replayed file n stor) (delivers : (env.read n).Delivers)
    (valid : validBlock file n = some block)
    (newer : ∀ entry, stor.directory.findEntryForKey block.header.keyId = some entry →
      entry.sequence.toNat < block.header.sequence.toNat)
    (inserts : stor.directory.findEntryForKey block.header.keyId = none →
      env.insert n = .inserted)
    {replacedBlock : Nat}
    (replaced : replacedBlock = match stor.directory.findEntryForKey block.header.keyId with
      | some old => old.dataBlock
      | none => UINT32_MAX)
    (stored : stor.directory.storeKey (env.insert n) block.header.keyId n
        block.header.dataBytes.toUInt64 block.header.sequence =
      .ok ⟨0, stor.directory.withEntry ⟨block.header.keyId, block.header.sequence, n,
        block.header.dataBytes⟩, true, replacedBlock⟩) :
    BlockOutcome env file n stor (replayBlock (env.insert n) n block.header stor) := by
  have absent : Absent (below n (fileLog file)) block.header.keyId → env.insert n = .inserted := by
    intro absent
    exact inserts (KvDirectory.index_eq_none.mp (replayed.indexes.absent_iff.mpr absent))
  have newest : Newer (below n (fileLog file)) block.header.keyId block.header.sequence.toNat := by
    refine replayed.indexes.newer_iff.mpr ?_
    intro slot seq named
    obtain ⟨entry, found, _, rfl⟩ := KvDirectory.index_eq_some.mp named
    exact newer entry found
  have once : ¬ Repeats (below n (fileLog file)) block.header.keyId block.header.sequence.toNat := by
    rintro ⟨⟨slot, again⟩, _⟩
    exact absurd (newest slot _ again) (Nat.lt_irrefl _)
  have size := replayed.sound.owns.size
  -- The bitmap has no bit for a block past its end: there the assertion fails.
  by_cases inside : n < stor.blockAllocator.numberOfBlocks
  · obtain ⟨freed, marked, freeing, marking, marks⟩ :=
      freeReplaced_mark replayed.sound.owns.covers block.header.keyId inside replaced
    have next := replayed.newer valid newer inside marks
    have passes : Passes env file n :=
      (passes_of_valid valid).mpr ⟨delivers, once, fun _ => size ▸ inside, absent⟩
    simp only [replayBlock, stored, freeing, marking, bind, Except.bind, pure, Except.pure,
      ne_eq, not_true_eq_false, if_false, if_true]
    exact .passed passes next
  · obtain ⟨freed, freeing, freedSize, _⟩ :=
      freeReplaced_spec replayed.sound.owns.covers block.header.keyId replaced
    have marking := KvBlockAllocator.markBlockAsAllocated_out_of_range
      (show ¬ n < freed.numberOfBlocks by rw [freedSize]; exact inside)
    simp only [replayBlock, stored, freeing, marking, bind, Except.bind, pure, Except.pure,
      ne_eq, not_true_eq_false, if_false, if_true]
    refine .tripped ((trips_of_valid valid).mpr ⟨delivers, .inr ⟨newest, ?_, absent⟩⟩)
    rw [size] at inside
    exact Nat.not_lt.mp inside

theorem replayBlock_outcome (replayed : Replayed file n stor) (delivers : (env.read n).Delivers)
    (valid : validBlock file n = some block) :
    BlockOutcome env file n stor (replayBlock (env.insert n) n block.header stor) := by
  have same : block.header.dataBytes.toUInt64.toUInt16 = block.header.dataBytes := by simp
  cases found : stor.directory.findEntryForKey block.header.keyId with
  | none =>
    have absent := replayed.indexes.absent_iff.mp (KvDirectory.index_eq_none.mpr found)
    have stays : env.insert n ≠ .inserted → ¬ Passes env file n ∧ ¬ Trips env file n := by
      intro fails
      constructor
      · intro passes
        exact fails (((passes_of_valid valid).mp passes).2.2.2 absent)
      · intro trips
        rcases ((trips_of_valid valid).mp trips).2 with ⟨⟨slot, stored⟩, _⟩ | ⟨_, _, inserts⟩
        · exact absent slot _ stored
        · exact fails (inserts absent)
    cases insert : env.insert n with
    | inserted =>
      rw [← insert]
      refine replayed.takeOver delivers valid ?_ (fun _ => insert) (by rw [found]) ?_
      · intro entry impossible
        rw [found] at impossible
        cases impossible
      · rw [insert, KvDirectory.storeKey_absent _ _ _ found, same]
    | mallocNull =>
      obtain ⟨notPasses, notTrips⟩ := stays (by rw [insert]; decide)
      simp only [replayBlock, KvDirectory.storeKey_mallocNull _ _ _ found, bind, Except.bind]
      exact .crashed notPasses notTrips insert
    | tsearchNull =>
      obtain ⟨notPasses, notTrips⟩ := stays (by rw [insert]; decide)
      simp only [replayBlock, KvDirectory.storeKey_tsearchNull _ _ _ found, bind, Except.bind]
      exact .gaveUp notPasses notTrips
  | some entry =>
    have named := KvDirectory.index_of_found found
    rcases Nat.lt_trichotomy entry.sequence.toNat block.header.sequence.toNat with
      newer | equal | older
    · refine replayed.takeOver delivers valid ?_ ?_ (by rw [found]) ?_
      · intro other again
        rw [found] at again
        cases again
        exact newer
      · intro impossible
        rw [found] at impossible
        cases impossible
      · rw [KvDirectory.storeKey_newer _ _ _ found newer, same]
    · -- The file holds the version of the entry once more.
      have again : block.header.sequence = entry.sequence := UInt64.toNat_inj.mp equal.symm
      simp only [replayBlock, KvDirectory.storeKey_equal _ _ _ found again, bind, Except.bind]
      refine .tripped ((trips_of_valid valid).mpr ⟨delivers, .inl ?_⟩)
      exact replayed.indexes.repeats_iff.mpr ⟨entry.dataBlock, equal ▸ named⟩
    · have passes : Passes env file n := by
        refine (passes_of_valid valid).mpr ⟨delivers, ?_, ?_, ?_⟩
        · intro repeats
          obtain ⟨slot, again⟩ := replayed.indexes.repeats_iff.mp repeats
          rw [named, Option.some.injEq, Prod.mk.injEq] at again
          omega
        · intro newest
          have newer := replayed.indexes.newer_iff.mp newest _ _ named
          omega
        · intro absent
          exact absurd (replayed.indexes.latest named).1 (absent _ _)
      have next := replayed.older valid found older
      have kept : freeReplaced stor.blockAllocator UINT32_MAX = .ok stor.blockAllocator := by
        simp [freeReplaced]
      simp only [replayBlock, KvDirectory.storeKey_older _ _ _ found older, kept, bind,
        Except.bind, pure, Except.pure, ne_eq, not_true_eq_false, if_false, Bool.false_eq_true]
      exact .passed passes next

end Block

/-! ## The whole scan -/

/-- How replay of the first `total` blocks can end. -/
inductive ReplayOutcome (env : OpenEnv) (file : Bytes) (total : Nat) :
    Except Fault (Int × KvStor) → Prop where
  | finished {final : KvStor} : (∀ b, b < total → Passes env file b) →
    Replayed file total final → ReplayOutcome env file total (.ok (0, final))
  | gaveUp {b : Nat} {ret : Int} {final : KvStor} : b < total →
    (∀ b', b' < b → Passes env file b') → ¬ Passes env file b → ¬ Trips env file b → ret ≠ 0 →
    Replayed file b final → ReplayOutcome env file total (.ok (ret, final))
  | crashed {b : Nat} : b < total → (∀ b', b' < b → Passes env file b') →
    ¬ Passes env file b → ¬ Trips env file b → env.insert b = .mallocNull →
    ReplayOutcome env file total (.error .nullPointer)
  | tripped {b : Nat} {which : Assertion} : b < total → (∀ b', b' < b → Passes env file b') →
    Trips env file b → ReplayOutcome env file total (.error (.assertion which))

section Scan

variable {env : OpenEnv} {file : Bytes} {n : Nat} {stor : KvStor}

theorem Replayed.delivered (replayed : Replayed file n stor) (small : n < 2 ^ 32)
    (inside : n < blockCount file) {bytes : Bytes}
    (read : stor.blockArray.readBlock (env.read n) file n = .ok bytes) : (env.read n).Delivers :=
  (readBlock_delivers replayed.sound.raw small replayed.sound.opened inside
    (env.read n)).mpr ⟨bytes, read⟩

theorem Replayed.not_delivered (replayed : Replayed file n stor) (small : n < 2 ^ 32)
    (inside : n < blockCount file) {ret : Int}
    (read : stor.blockArray.readBlock (env.read n) file n = .error ret) :
    ¬ (env.read n).Delivers := by
  intro delivers
  obtain ⟨bytes, success⟩ := (readBlock_delivers replayed.sound.raw small
    replayed.sound.opened inside (env.read n)).mp delivers
  rw [read] at success
  cases success

theorem replayFrom_outcome {remaining total : Nat} (replayed : Replayed file n stor)
    (passed : ∀ b, b < n → Passes env file b) (ends : n + remaining = total)
    (inside : total ≤ blockCount file) (small : total ≤ 2 ^ 32) :
    ReplayOutcome env file total (replayFrom env file remaining n stor) := by
  induction remaining generalizing n stor with
  | zero =>
    obtain rfl : n = total := by omega
    exact .finished passed replayed
  | succ remaining ih =>
    have here : n < total := by omega
    have present : n < blockCount file := by omega
    have range : n < 2 ^ 32 := by omega
    rw [replayFrom]
    cases read : stor.blockArray.readBlock (env.read n) file n with
    | error ret =>
      have fails := replayed.not_delivered range present read
      exact .gaveUp here passed (fun passes => fails passes.1) (fun trips => fails trips.1)
        (readBlock_error_ne_zero read) replayed
    | ok bytes =>
      have stored := blockAt_of_readBlock replayed.sound.raw range read
      have delivered := replayed.delivered range present read
      -- Both for a block that passes and for one that is not valid, the scan goes on.
      have further : ∀ {next : KvStor}, Passes env file n → Replayed file (n + 1) next →
          ReplayOutcome env file total (replayFrom env file remaining (n + 1) next) := by
        intro next passes replayed'
        refine ih replayed' ?_ (by omega)
        intro b before
        by_cases same : b = n
        · exact same ▸ passes
        · exact passed b (by omega)
      by_cases valid : (KvBlock.ofBytes bytes).validate = true
      · have held := validBlock_eq_some.mpr ⟨stored, valid⟩
        have outcome := replayBlock_outcome replayed delivered held
        simp only [if_pos valid]
        generalize replayBlock (env.insert n) n (KvBlock.ofBytes bytes).header stor = result
          at outcome
        cases outcome with
        | passed passes next => exact further passes next
        | gaveUp notPasses notTrips =>
          exact .gaveUp here passed notPasses notTrips (by decide) replayed
        | crashed notPasses notTrips insert =>
          exact .crashed here passed notPasses notTrips insert
        | tripped trips => exact .tripped here passed trips
      · have empty := fileLog_of_invalid stored valid
        simp only [if_neg valid]
        exact further (.of_empty delivered empty) (replayed.skip empty)

end Scan

end KeyValueStore
