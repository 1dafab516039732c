import KeyValueStore.Class.Steady
import KeyValueStore.Submission.Recovery

/-! # The scan and the replay of a file

On one file the scan of the class store and the replay of the other store go side by
side: they build the same directory and the same append point (`scanFrom_mirrors`).  What
is known of replay, of any file, so holds of the scan.  They part over deletions, whose
blocks only replay marks. -/

namespace KeyValueStore.KvStore

open VersionLog

/-- `scanned` is where the scan stands when replay stands at `replayed`. -/
structure Mirrors (replayed scanned : KvStor) : Prop where
  blockArray : scanned.blockArray = replayed.blockArray
  directory : scanned.directory = replayed.directory
  appendPoint : scanned.appendPoint = replayed.appendPoint
  size : scanned.blockAllocator.numberOfBlocks = capacity
  marked : ∀ b, b ∈ scanned.blockAllocator.allocated ↔ ∃ key entry,
    scanned.directory.findEntryForKey key = some entry ∧ entry.dataBytes ≠ 0 ∧ entry.dataBlock = b
  counter : scanned.currentSequenceNumber = 0

/-- Replay and the scan end in the same way. -/
inductive EndsAlike : Except Fault (Int × KvStor) → Except Fault (Int × KvStor) → Prop where
  | failed {fault : Fault} : EndsAlike (.error fault) (.error fault)
  | returned {ret : Int} {replayed scanned : KvStor} : (ret = 0 → Mirrors replayed scanned) →
    EndsAlike (.ok (ret, replayed)) (.ok (ret, scanned))

section Block

variable {file : Bytes} {n : Nat} {replayed scanned : KvStor} {header : KvBlockHeader}

theorem Mirrors.covers (mirrors : Mirrors replayed scanned) (state : Replayed file n replayed)
    (inside : n ≤ capacity) : Covers scanned.directory scanned.blockAllocator := by
  refine ⟨?_, ?_⟩
  · rw [KvBlockAllocator.Fits, mirrors.size, capacity_eq]
    decide
  · intro key entry found
    rw [mirrors.directory] at found
    have before := (below_eq_some.mp (state.indexes.latest (KvDirectory.index_of_found found)).1).1
    rw [mirrors.size]
    omega

/-- The header becomes the entry of its key: the scan marks its block if it has data. -/
theorem Mirrors.takeOver (mirrors : Mirrors replayed scanned) (state : Replayed file n replayed)
    (inside : n < capacity) {replacedBlock : Nat}
    (replaced : replacedBlock = match scanned.directory.findEntryForKey header.keyId with
      | some old => old.dataBlock
      | none => UINT32_MAX) :
    ∃ freed marked, freeReplaced scanned.blockAllocator replacedBlock = .ok freed ∧
      (if header.dataBytes > 0 then freed.markBlockAsAllocated n else .ok freed) = .ok marked ∧
      marked.numberOfBlocks = capacity ∧ ∀ b, b ∈ marked.allocated ↔ ∃ key entry,
        (scanned.directory.withEntry ⟨header.keyId, header.sequence, n, header.dataBytes⟩).findEntryForKey
          key = some entry ∧ entry.dataBytes ≠ 0 ∧ entry.dataBlock = b := by
  have covers := mirrors.covers state (Nat.le_of_lt inside)
  obtain ⟨freed, freeing, size, kept⟩ := freeReplaced_spec covers header.keyId replaced
  have live : header.dataBytes > 0 ↔ header.dataBytes ≠ 0 := by
    rw [gt_iff_lt, UInt16.lt_iff_toNat_lt, Ne, ← UInt16.toNat_inj, UInt16.toNat_zero]
    omega
  have marking : ∃ marked,
      (if header.dataBytes > 0 then freed.markBlockAsAllocated n else .ok freed) = .ok marked ∧
      marked.numberOfBlocks = capacity ∧
      ∀ b, b ∈ marked.allocated ↔ (header.dataBytes ≠ 0 ∧ b = n) ∨ b ∈ freed.allocated := by
    by_cases data : header.dataBytes > 0
    · have fits : freed.Fits := by rw [KvBlockAllocator.Fits, size]; exact covers.fits
      obtain ⟨marked, marking, markedSize, set⟩ := KvBlockAllocator.markBlockAsAllocated_spec fits
        (show n < freed.numberOfBlocks by rw [size, mirrors.size]; exact inside)
      refine ⟨marked, by rw [if_pos data]; exact marking, ?_, fun b => ?_⟩
      · rw [markedSize, size, mirrors.size]
      · rw [set, Finset.mem_insert]
        simp [live.mp data]
    · refine ⟨freed, if_neg data, by rw [size, mirrors.size], fun b => ?_⟩
      rw [live] at data
      simp [data]
  obtain ⟨marked, marking, markedSize, set⟩ := marking
  refine ⟨freed, marked, freeing, marking, markedSize, ?_⟩
  intro b
  rw [set, kept, mirrors.marked]
  constructor
  · rintro (⟨data, rfl⟩ | ⟨⟨key, entry, found, data, rfl⟩, other⟩)
    · exact ⟨header.keyId, ⟨header.keyId, header.sequence, b, header.dataBytes⟩, by simp, data, rfl⟩
    · refine ⟨key, entry, ?_, data, rfl⟩
      rw [KvDirectory.find_withEntry, if_neg, found]
      rintro rfl
      exact other entry found rfl
  · rintro ⟨key, entry, found, data, rfl⟩
    rw [KvDirectory.find_withEntry] at found
    split at found
    · cases found
      exact .inl ⟨data, rfl⟩
    · rename_i different
      refine .inr ⟨⟨key, entry, found, data, rfl⟩, ?_⟩
      -- Two keys with one block: but a block holds one version.
      intro old foundOld shared
      rw [mirrors.directory] at found foundOld
      exact different (state.sound.owns.injective found foundOld shared)

/-- Where a header wins, both enter it and change their bitmaps. -/
theorem Mirrors.wins (mirrors : Mirrors replayed scanned) (state : Replayed file n replayed)
    (inside : n < capacity) {insert : InsertResult} {replacedBlock : Nat}
    (replaced : replacedBlock = match replayed.directory.findEntryForKey header.keyId with
      | some old => old.dataBlock
      | none => UINT32_MAX)
    (stored : replayed.directory.storeKey insert header.keyId n header.dataBytes.toUInt64
      header.sequence = .ok ⟨0, replayed.directory.withEntry
        ⟨header.keyId, header.sequence, n, header.dataBytes⟩, true, replacedBlock⟩) :
    EndsAlike (replayBlock insert n header replayed) (scanBlock insert n header scanned) := by
  have bit : n < replayed.blockAllocator.numberOfBlocks := by
    rw [state.sound.owns.size, KeyValueStore.capacity]
    rw [capacity] at inside
    omega
  have same := mirrors.directory
  obtain ⟨freed, marked, freeing, marking, _⟩ :=
    freeReplaced_mark state.sound.owns.covers header.keyId bit replaced
  rw [← same] at replaced
  obtain ⟨freed', marked', freeing', marking', size, set⟩ :=
    mirrors.takeOver state inside replaced
  have scanned' : scanBlock insert n header scanned = .ok (0, { scanned with
      directory := replayed.directory.withEntry
        ⟨header.keyId, header.sequence, n, header.dataBytes⟩
      blockAllocator := marked'
      appendPoint := scanned.appendPoint.updateAppendPoint n header.sequence }) := by
    by_cases data : header.dataBytes > 0
    · rw [if_pos data] at marking'
      simp [scanBlock, same, stored, freeing', marking', data, bind, Except.bind, pure,
        Except.pure]
    · rw [if_neg data, Except.ok.injEq] at marking'
      simp [scanBlock, same, stored, freeing', marking', data, bind, Except.bind, pure,
        Except.pure]
  simp only [replayBlock, stored, freeing, marking, scanned', bind, Except.bind, pure,
    Except.pure, ne_eq, not_true_eq_false, if_false, if_true]
  refine .returned fun _ => ⟨mirrors.blockArray, rfl, ?_, size, ?_, mirrors.counter⟩
  · rw [mirrors.appendPoint]
  · rw [← same]
    exact set

/-- One valid block. -/
theorem scanBlock_mirrors (mirrors : Mirrors replayed scanned) (state : Replayed file n replayed)
    (inside : n < capacity) (insert : InsertResult) :
    EndsAlike (replayBlock insert n header replayed) (scanBlock insert n header scanned) := by
  have bytes : header.dataBytes.toUInt64.toUInt16 = header.dataBytes := by simp
  have same := mirrors.directory
  cases found : replayed.directory.findEntryForKey header.keyId with
  | none =>
    cases insert with
    | inserted =>
      refine mirrors.wins state inside (by rw [found]) ?_
      rw [KvDirectory.storeKey_absent _ _ _ found, bytes]
    | mallocNull =>
      simp only [replayBlock, scanBlock, same, KvDirectory.storeKey_mallocNull _ _ _ found, bind,
        Except.bind]
      exact .failed
    | tsearchNull =>
      simp only [replayBlock, scanBlock, same, KvDirectory.storeKey_tsearchNull _ _ _ found, bind,
        Except.bind, pure, Except.pure]
      exact .returned fun zero => absurd zero (by decide)
  | some entry =>
    rcases Nat.lt_trichotomy entry.sequence.toNat header.sequence.toNat with newer | equal | older
    · refine mirrors.wins state inside (by rw [found]) ?_
      rw [KvDirectory.storeKey_newer _ _ _ found newer, bytes]
    · have again : header.sequence = entry.sequence := UInt64.toNat_inj.mp equal.symm
      simp only [replayBlock, scanBlock, same, KvDirectory.storeKey_equal _ _ _ found again, bind,
        Except.bind]
      exact .failed
    · have kept : ∀ allocator, freeReplaced allocator UINT32_MAX = .ok allocator := by
        simp [freeReplaced]
      simp only [replayBlock, scanBlock, same, KvDirectory.storeKey_older _ _ _ found older, kept,
        bind, Except.bind, pure, Except.pure, ne_eq, not_true_eq_false, if_false,
        Bool.false_eq_true, false_and]
      refine .returned fun _ => ⟨mirrors.blockArray, rfl, ?_, mirrors.size, ?_, mirrors.counter⟩
      · rw [mirrors.appendPoint]
      · rw [← same]
        exact mirrors.marked

end Block

/-- The scan ends as replay does, and in the same place. -/
theorem scanFrom_mirrors {env : OpenEnv} {file : Bytes} {remaining n : Nat}
    {replayed scanned : KvStor} (mirrors : Mirrors replayed scanned)
    (state : Replayed file n replayed) (inside : n + remaining ≤ blockCount file)
    (count : blockCount file ≤ capacity) :
    EndsAlike (replayFrom env.toOpenEnv file remaining n replayed)
      (scanFrom env file remaining n scanned) := by
  induction remaining generalizing n replayed scanned with
  | zero => exact .returned fun _ => mirrors
  | succ remaining ih =>
    have here : n < capacity := by omega
    have small : n < 2 ^ 32 := by
      rw [capacity_eq] at here
      omega
    rw [replayFrom, scanFrom, mirrors.blockArray]
    cases read : replayed.blockArray.readBlock (env.read n) file n with
    | error ret => exact .returned fun zero => absurd zero (readBlock_error_ne_zero read)
    | ok bytes =>
      have stored := blockAt_of_readBlock state.sound.raw small read
      by_cases valid : (KvBlock.ofBytes bytes).validate = true
      · have held := validBlock_eq_some.mpr ⟨stored, valid⟩
        have delivers := state.delivered small (show n < blockCount file by omega) read
        have outcome := replayBlock_outcome state delivers held
        have block := @scanBlock_mirrors _ _ _ _ (KvBlock.ofBytes bytes).header mirrors state here
          (env.insert n)
        simp only [if_pos valid]
        generalize replayBlock (env.insert n) n (KvBlock.ofBytes bytes).header replayed = result
          at outcome block
        generalize scanBlock (env.insert n) n (KvBlock.ofBytes bytes).header scanned = result'
          at block
        cases block with
        | failed => exact .failed
        | returned mirrors' =>
          cases outcome with
          | passed _ next =>
            simp only [ne_eq, not_true_eq_false, if_false]
            exact ih (mirrors' rfl) next (by omega)
          | gaveUp _ _ =>
            have code : (-ENOMEM : Int) ≠ 0 := by decide
            simp only [if_pos code]
            exact .returned fun zero => absurd zero code
      · simp only [if_neg valid]
        exact ih mirrors (state.skip (fileLog_of_invalid stored valid)) (by omega)

end KeyValueStore.KvStore
