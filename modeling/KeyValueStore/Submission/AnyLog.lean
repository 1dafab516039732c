import KeyValueStore.Submission.AnyFile
import KeyValueStore.Submission.Consistency

/-! # Replay of any log

What replay makes of a file that the store need not have written: the newest version of
every key, the blocks of these versions, and where the log goes on
(`replay_finds_newest`).  All but the append point is in `Replayed`; of blocks with the
greatest sequence replay stays at the last, which `AtLast` adds. -/

namespace KeyValueStore

open VersionLog

/-! ## The append point -/

/-- The append point after a scan of `log`: its newest block, and of several the last. -/
def KvAppendPoint.AtLast (appendPoint : KvAppendPoint) (log : Nat → Option (UInt64 × Nat)) : Prop :=
  (∀ b, log b = none) ∧ appendPoint = ⟨0, 0⟩ ∨
    (∃ key, log appendPoint.currentAppendPoint =
        some (key, appendPoint.lastScannedSequenceNumber.toNat)) ∧
      ∀ b key seq, log b = some (key, seq) →
        seq < appendPoint.lastScannedSequenceNumber.toNat ∨
          seq = appendPoint.lastScannedSequenceNumber.toNat ∧ b ≤ appendPoint.currentAppendPoint

theorem KvAppendPoint.AtLast.update {appendPoint : KvAppendPoint}
    {log : Nat → Option (UInt64 × Nat)} {n : Nat} (atLast : appendPoint.AtLast (below n log))
    {key sequence : UInt64} (stored : log n = some (key, sequence.toNat)) :
    (appendPoint.updateAppendPoint n sequence).AtLast (below (n + 1) log) := by
  have scanned : ∀ {b key' seq}, below (n + 1) log b = some (key', seq) →
      (b = n ∧ seq = sequence.toNat) ∨ (b < n ∧ below n log b = some (key', seq)) := by
    intro b key' seq held
    obtain ⟨inside, held⟩ := below_eq_some.mp held
    by_cases last : b = n
    · rw [last, stored, Option.some.injEq, Prod.mk.injEq] at held
      exact .inl ⟨last, held.2.symm⟩
    · exact .inr ⟨by omega, below_eq_some.mpr ⟨by omega, held⟩⟩
  rw [updateAppendPoint]
  by_cases newest : sequence ≥ appendPoint.lastScannedSequenceNumber
  · rw [if_pos newest]
    rw [ge_iff_le, UInt64.le_iff_toNat_le] at newest
    refine .inr ⟨⟨key, below_eq_some.mpr ⟨Nat.lt_succ_self n, stored⟩⟩, ?_⟩
    intro b key' seq held
    rcases scanned held with ⟨rfl, rfl⟩ | ⟨before, held⟩
    · exact .inr ⟨rfl, Nat.le_refl _⟩
    · -- An earlier block with the same sequence lies below this one.
      have bound : seq ≤ sequence.toNat := by
        rcases atLast with ⟨empty, _⟩ | ⟨_, greatest⟩
        · rw [empty b] at held
          cases held
        · have order := greatest b key' seq held
          omega
      show seq < sequence.toNat ∨ seq = sequence.toNat ∧ b ≤ n
      omega
  · rw [if_neg newest]
    rw [ge_iff_le, UInt64.le_iff_toNat_le] at newest
    rcases atLast with ⟨_, rfl⟩ | ⟨⟨key', held⟩, greatest⟩
    · exact absurd (Nat.zero_le _) newest
    · obtain ⟨inside, held⟩ := below_eq_some.mp held
      refine .inr ⟨⟨key', below_eq_some.mpr ⟨by omega, held⟩⟩, ?_⟩
      intro b key'' seq stored'
      rcases scanned stored' with ⟨rfl, rfl⟩ | ⟨_, earlier⟩
      · exact .inl (by omega)
      · exact greatest b key'' seq earlier

theorem replayBlock_passed {insert : InsertResult} {b : Nat} {header : KvBlockHeader}
    {stor next : KvStor} (returned : replayBlock insert b header stor = .ok (0, next)) :
    next.blockArray = stor.blockArray ∧
      next.appendPoint = stor.appendPoint.updateAppendPoint b header.sequence := by
  simp only [replayBlock, bind, Except.bind, pure, Except.pure] at returned
  split at returned
  · cases returned
  · split at returned
    · rename_i failed
      rw [Except.ok.injEq, Prod.mk.injEq] at returned
      exact absurd returned.1 failed
    · split at returned
      · cases returned
      · -- Whether the block is marked or not, the rest is the same.
        split at returned
        · split at returned <;> cases returned
          exact ⟨rfl, rfl⟩
        · cases returned
          exact ⟨rfl, rfl⟩

theorem replayFrom_atLast {env : OpenEnv} {file : Bytes} {remaining n : Nat} {stor final : KvStor}
    (raw : stor.blockArray.rawBlockBytes = sizeofKvBlock) (small : n + remaining ≤ 2 ^ 32)
    (atLast : stor.appendPoint.AtLast (below n (fileLog file)))
    (returned : replayFrom env file remaining n stor = .ok (0, final)) :
    final.appendPoint.AtLast (below (n + remaining) (fileLog file)) := by
  induction remaining generalizing n stor with
  | zero =>
    cases returned
    exact atLast
  | succ remaining ih =>
    rw [replayFrom] at returned
    rw [show n + (remaining + 1) = n + 1 + remaining by omega]
    split at returned
    · rename_i ret failed
      rw [Except.ok.injEq, Prod.mk.injEq] at returned
      exact absurd returned.1 (readBlock_error_ne_zero failed)
    · rename_i bytes read
      have stored := blockAt_of_readBlock raw (show n < 2 ^ 32 by omega) read
      simp only at returned
      split at returned
      · rename_i valid
        split at returned
        · cases returned
        · rename_i ret next passed
          split at returned
          · rename_i failed
            rw [Except.ok.injEq, Prod.mk.injEq] at returned
            exact absurd returned.1 failed
          · rename_i zero
            obtain rfl : ret = 0 := not_not.mp zero
            obtain ⟨array, appendPoint⟩ := replayBlock_passed passed
            refine ih (by rw [array]; exact raw) (by omega) ?_ returned
            rw [appendPoint]
            exact atLast.update (fileLog_of_valid (validBlock_eq_some.mpr ⟨stored, valid⟩))
      · rename_i invalid
        refine ih raw (by omega) ?_ returned
        rw [below_succ_of_none (fileLog_of_invalid stored invalid)]
        exact atLast

/-! ## The state after replay -/

/-- The newest version of every key of the file, and the end of its log. -/
structure FindsNewest (file : Bytes) (stor : KvStor) : Prop where
  keys : ∀ key, (∃ entry, stor.directory.findEntryForKey key = some entry) ↔
    ∃ b block, validBlock file b = some block ∧ block.header.keyId = key
  /-- The entry names the valid block of its key with the greatest sequence. -/
  entries : ∀ key entry, stor.directory.findEntryForKey key = some entry →
    ∃ block, validBlock file entry.dataBlock = some block ∧ block.header.keyId = key ∧
      entry.sequence = block.header.sequence ∧ entry.dataBytes = block.header.dataBytes ∧
      ∀ b other, validBlock file b = some other → other.header.keyId = key →
        other.header.sequence ≤ block.header.sequence
  bits : ∀ b, stor.blockAllocator.isSet b = .ok true ↔
    ∃ key entry, stor.directory.findEntryForKey key = some entry ∧ entry.dataBlock = b
  /-- Without a valid block the counter and the append point are 0. -/
  empty : (∀ b, validBlock file b = none) →
    stor.currentSequenceNumber = 0 ∧ stor.appendPoint.currentAppendPoint = 0
  /-- The last of the blocks with the greatest sequence is the append point. -/
  newest : ∀ b block, validBlock file b = some block →
    (∀ b' other, validBlock file b' = some other →
      other.header.sequence < block.header.sequence ∨
        other.header.sequence = block.header.sequence ∧ b' ≤ b) →
    stor.currentSequenceNumber = block.header.sequence + 1 ∧
      stor.appendPoint.currentAppendPoint = b

theorem fileLog_eq_none {file : Bytes} {b : Nat} (invalid : validBlock file b = none) :
    fileLog file b = none := by
  rw [fileLog, invalid]
  rfl

section Replayed

variable {file : Bytes} {stor : KvStor}

/-- Without a valid block replay leaves the counter and the append point as they were. -/
theorem Replayed.unmoved (replayed : Replayed file (blockCount file) stor)
    (atLast : stor.appendPoint.AtLast (fileLog file)) (empty : ∀ b, fileLog file b = none) :
    stor.currentSequenceNumber = 0 ∧ stor.appendPoint.currentAppendPoint = 0 := by
  have bounded := replayed.bounded
  rw [below_blockCount] at bounded
  constructor
  · have zero := bounded 0 fun b key seq stored => by
      rw [empty b] at stored
      cases stored
    exact UInt64.toNat_inj.mp (Nat.le_zero.mp zero)
  · rcases atLast with ⟨_, start⟩ | ⟨⟨key, stored⟩, _⟩
    · rw [start]
    · rw [empty] at stored
      cases stored

/-- The counter and the append point follow the last of the newest blocks. -/
theorem Replayed.follows_newest (replayed : Replayed file (blockCount file) stor)
    (noWrap : ∀ b block, validBlock file b = some block → block.header.sequence.toNat < 2 ^ 64 - 1)
    (atLast : stor.appendPoint.AtLast (fileLog file)) {b : Nat} {block : KvBlock}
    (valid : validBlock file b = some block)
    (last : ∀ b' key seq, fileLog file b' = some (key, seq) →
      seq < block.header.sequence.toNat ∨ seq = block.header.sequence.toNat ∧ b' ≤ b) :
    stor.currentSequenceNumber = block.header.sequence + 1 ∧
      stor.appendPoint.currentAppendPoint = b := by
  have counted := replayed.counted fun b block valid => by
    have small := noWrap b block valid
    omega
  have bounded := replayed.bounded
  rw [below_blockCount] at counted bounded
  have stored := fileLog_of_valid valid
  constructor
  · have above := counted b _ _ stored
    have under := bounded (block.header.sequence.toNat + 1) fun b' key seq stored' => by
      have order := last b' key seq stored'
      omega
    have small := noWrap b block valid
    refine UInt64.toNat_inj.mp ?_
    rw [UInt64.toNat_add, UInt64.toNat_one, Nat.mod_eq_of_lt (by omega)]
    omega
  · rcases atLast with ⟨empty, _⟩ | ⟨⟨key, held⟩, above⟩
    · rw [empty b] at stored
      cases stored
    · have here := above b _ _ stored
      have there := last _ _ _ held
      omega

/-- The newest version is the one that the index of the log names. -/
theorem Replayed.findsNewest (replayed : Replayed file (blockCount file) stor)
    (noWrap : ∀ b block, validBlock file b = some block → block.header.sequence.toNat < 2 ^ 64 - 1)
    (atLast : stor.appendPoint.AtLast (fileLog file)) : FindsNewest file stor := by
  have indexes := replayed.indexes
  rw [below_blockCount] at indexes
  refine ⟨?_, ?_, ?_, ?_, ?_⟩
  · intro key
    constructor
    · rintro ⟨entry, found⟩
      obtain ⟨block, valid, holds⟩ := replayed.holds found
      exact ⟨_, block, valid, holds.keyId.trans (KvDirectory.keyId_of_find found)⟩
    · rintro ⟨b, block, valid, rfl⟩
      obtain ⟨⟨slot, seq⟩, named⟩ := indexes.complete (fileLog_of_valid valid)
      obtain ⟨entry, found, _⟩ := KvDirectory.index_eq_some.mp named
      exact ⟨entry, found⟩
  · intro key entry found
    obtain ⟨block, valid, holds⟩ := replayed.holds found
    refine ⟨block, valid, holds.keyId.trans (KvDirectory.keyId_of_find found), holds.sequence.symm,
      holds.dataBytes.symm, ?_⟩
    rintro b other valid' rfl
    have order := indexes.le (fileLog_of_valid valid') (KvDirectory.index_of_found found)
    rw [UInt64.le_iff_toNat_le, holds.sequence]
    exact order
  · intro b
    exact (KvBlockAllocator.isSet_iff replayed.sound.owns.fits b).trans
      (replayed.sound.owns.owned b)
  · intro empty
    exact replayed.unmoved atLast fun b => fileLog_eq_none (empty b)
  · intro b block valid last
    refine replayed.follows_newest noWrap atLast valid ?_
    intro b' key seq stored
    obtain ⟨other, valid', version⟩ := fileLog_eq_some.mp stored
    rw [KvBlock.version, Prod.mk.injEq] at version
    have order := last b' other valid'
    rw [UInt64.lt_iff_toNat_lt, ← UInt64.toNat_inj, version.2] at order
    exact order

end Replayed

/-- For any file whose blocks the bitmap covers, whatever they hold, as long as no version
of a key is in it twice and the counter does not wrap. -/
theorem replay_finds_newest {env : OpenEnv} (succeeds : env.Succeeds) {file : Bytes}
    (count : blockCount file ≤ capacity)
    (once : ∀ b b' block block', validBlock file b = some block → validBlock file b' = some block' →
      block.header.keyId = block'.header.keyId →
      block.header.sequence = block'.header.sequence → b = b')
    (noWrap : ∀ b block, validBlock file b = some block → block.header.sequence.toNat < 2 ^ 64 - 1)
    (fd : Nat) :
    ∃ stor, kvStoreReplayLog env file (.initial (some fd)) = .ok (0, stor) ∧
      FindsNewest file stor := by
  have total := replayedBlocks_eq count
  have small : blockCount file ≤ 2 ^ 32 := count.trans (by rw [capacity, MAXKEYS]; decide)
  have passes : ∀ b, Passes env file b := by
    intro b
    refine (succeeds.passes_iff count).mpr ?_
    rintro key seq stored ⟨⟨b', again⟩, _⟩
    obtain ⟨before, again⟩ := below_eq_some.mp again
    obtain ⟨block, valid, version⟩ := fileLog_eq_some.mp stored
    obtain ⟨block', valid', version'⟩ := fileLog_eq_some.mp again
    rw [← version'] at version
    simp only [KvBlock.version, Prod.mk.injEq, UInt64.toNat_inj] at version
    have same := once b b' block block' valid valid' version.1 version.2
    omega
  have outcome := @replayFrom_outcome env file 0 (.initial (some fd)) (blockCount file)
    (blockCount file) (replayed_initial file fd) (fun b impossible => absurd impossible (Nat.not_lt_zero b))
    (Nat.zero_add _) (Nat.le_refl _) small
  rw [kvStoreReplayLog_initial, succeeds.seekEnd, total]
  generalize ended : replayFrom env file (blockCount file) 0 (.initial (some fd)) = result at outcome
  cases outcome with
  | finished _ replayed =>
    have start : (KvStor.initial (some fd)).appendPoint.AtLast (below 0 (fileLog file)) :=
      .inl ⟨fun b => by rw [below_zero], rfl⟩
    have atLast := replayFrom_atLast rfl (by omega) start ended
    rw [Nat.zero_add, below_blockCount] at atLast
    exact ⟨_, rfl, replayed.findsNewest noWrap atLast⟩
  | gaveUp _ _ stops _ _ _ => exact absurd (passes _) stops
  | crashed _ _ stops _ _ => exact absurd (passes _) stops
  | tripped _ _ trips => exact absurd trips (passes _).not_trips

/-- Version 3 of key 1, a deletion. -/
def KvBlock.outdated : KvBlock :=
  { BlockWrite.quiet.memory with header := ⟨kvBlockSignature, 1, 3, 0, 0, 0⟩ }

/-- Version 5 of key 1, and behind it version 3. -/
def outOfOrder : Bytes :=
  overwritten (overwritten [] 0 .sample sizeofKvBlock) 1 .outdated sizeofKvBlock

theorem blockCount_outOfOrder : blockCount outOfOrder = 2 := by
  rw [outOfOrder, blockCount_overwritten_full (Nat.le_refl _),
    blockCount_overwritten_full (Nat.le_refl _)]
  simp [blockCount]

theorem validBlock_outOfOrder {b : Nat} {block : KvBlock}
    (valid : validBlock outOfOrder b = some block) :
    b = 0 ∧ block = .sample ∨ b = 1 ∧ block = .outdated := by
  have dense : 1 ≤ blockCount (overwritten [] 0 KvBlock.sample sizeofKvBlock) := by
    rw [blockCount_overwritten_full (Nat.le_refl _)]
    exact Nat.le_max_right _ _
  rw [outOfOrder, validBlock_overwritten (Nat.le_refl _) dense (by decide),
    validBlock_overwritten (Nat.le_refl _) (Nat.zero_le _) (by decide)] at valid
  by_cases second : b = 1
  · subst second
    rw [Function.update_self, Option.some.injEq] at valid
    exact .inr ⟨rfl, valid.symm⟩
  · rw [Function.update_of_ne second] at valid
    by_cases first : b = 0
    · subst first
      rw [Function.update_self, Option.some.injEq] at valid
      exact .inl ⟨rfl, valid.symm⟩
    · rw [Function.update_of_ne first] at valid
      simp [validBlock, blockAt, blockCount] at valid

theorem replay_finds_newest_out_of_order :
    ∃ stor, kvStoreReplayLog .quiet outOfOrder (.initial (some 3)) = .ok (0, stor) ∧
      FindsNewest outOfOrder stor := by
  refine replay_finds_newest OpenEnv.quiet_succeeds ?_ ?_ ?_ 3
  · rw [blockCount_outOfOrder, capacity, MAXKEYS]
    decide
  · intro b b' block block' valid valid' _ sequence
    have apart : KvBlock.sample.header.sequence ≠ KvBlock.outdated.header.sequence := by decide
    rcases validBlock_outOfOrder valid with ⟨rfl, rfl⟩ | ⟨rfl, rfl⟩ <;>
      rcases validBlock_outOfOrder valid' with ⟨rfl, rfl⟩ | ⟨rfl, rfl⟩
    · rfl
    · exact absurd sequence apart
    · exact absurd sequence.symm apart
    · rfl
  · intro b block valid
    rcases validBlock_outOfOrder valid with ⟨_, rfl⟩ | ⟨_, rfl⟩ <;> decide

end KeyValueStore
