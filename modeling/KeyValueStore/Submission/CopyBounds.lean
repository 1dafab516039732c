import KeyValueStore.Submission.AnyFile

/-! # How far `kv_get` copies

The number of bytes that `kv_get` copies comes from a block header that replay does not
check.  Whatever the file, no get of an opened store copies past the data of a block
exactly if the newest version of every key has a size that fits a block
(`copies_bounded_iff`). -/

namespace KeyValueStore

open Runs VersionLog

/-- A get copies at most `MAXBLOB` bytes, all of them from the data of the block. -/
structure CopiesInside (m : Machine) (read : ReadResult) (key : UInt64) (v : Value) : Prop where
  inside : ∀ next, exec m (.get read key v) ≠ .error .outOfBounds next
  size : ∀ response next, exec m (.get read key v) = .ok response next → response.ret = 0 →
    ∃ out, response.value = some out ∧ out.size.toNat ≤ MAXBLOB

/-- The sizes of all entries fit a block. -/
def KvDirectory.Bounded (directory : KvDirectory) : Prop :=
  ∀ key entry, directory.findEntryForKey key = some entry → entry.dataBytes.toNat ≤ MAXBLOB

/-- What a get of a bounded entry can end in. -/
theorem kvGet_bounded (read : ReadResult) {stor : KvStor} (file : Bytes) (key : UInt64) (v : Value)
    (bounded : stor.directory.Bounded) :
    ∃ ret out, kvGet read stor file key v = .ok (ret, out) ∧
      (ret = 0 → out.size.toNat ≤ MAXBLOB) := by
  rw [kvGet, KvDirectory.lookupKey]
  cases found : stor.directory.findEntryForKey key with
  | none => exact ⟨_, v, rfl, fun zero => absurd zero (by decide)⟩
  | some entry =>
    have fits := bounded key entry found
    simp only
    split
    · exact ⟨_, v, rfl, fun zero => absurd zero (by decide)⟩
    · split
      · exact ⟨_, v, rfl, fun zero => absurd zero (by decide)⟩
      · rename_i enough
        split
        · rename_i ret failed
          exact ⟨ret, v, rfl, fun zero => absurd zero (readBlock_error_ne_zero failed)⟩
        · rename_i bytes _
          split
          · exact ⟨_, v, rfl, fun zero => absurd zero (by decide)⟩
          · rw [UInt64.lt_iff_toNat_lt, UInt16.toNat_toUInt64] at enough
            have room := v.size_le
            have source : entry.dataBytes.toUInt64.toNat ≤ (KvBlock.ofBytes bytes).data.length := by
              rw [UInt16.toNat_toUInt64, KvBlock.data_length]
              exact fits
            have target : entry.dataBytes.toUInt64.toNat ≤ v.data.length := by
              rw [UInt16.toNat_toUInt64]
              omega
            rw [memcpy_eq source target]
            refine ⟨0, _, rfl, fun _ => ?_⟩
            rw [UInt16.toNat_toUInt64]
            exact fits

theorem KvDirectory.Bounded.copiesInside {m : Machine} (bounded : m.stor.directory.Bounded)
    (read : ReadResult) (key : UInt64) (v : Value) : CopiesInside m read key v := by
  obtain ⟨ret, out, returned, size⟩ := kvGet_bounded read m.file key v bounded
  have answered := exec_get_of_kvGet returned
  refine ⟨?_, ?_⟩
  · rintro next ended
    rw [answered] at ended
    cases ended
  · intro response next returned' zero
    rw [answered, EStateM.Result.ok.injEq] at returned'
    obtain ⟨rfl, _⟩ := returned'
    exact ⟨out, rfl, size zero⟩

/-! ## Later calls -/

/-- What the calls of a process keep. -/
structure Bounding (m : Machine) : Prop where
  sound : Sound m.stor
  bounded : m.stor.directory.Bounded

theorem Bounding.update {m : Machine} (bounding : Bounding m) {call : Call} {env : BlockWrite}
    {key size : UInt64} {valueData : Option Bytes} (appends : call.Appends env key size valueData)
    {response : Response} {next : Machine} (returned : exec m call = .ok response next) :
    Bounding next := by
  refine ⟨bounding.sound.update appends returned, ?_⟩
  have outcome := exec_update bounding.sound appends
  rw [returned] at outcome
  generalize ended : EStateM.Result.ok response next = result at outcome
  cases outcome with
  | rejected _ =>
    cases ended
    exact bounding.bounded
  | appended _ payload _ outcome =>
    cases outcome with
    | full _ | failed _ _ _ | tsearchNull _ _ _ _ =>
      cases ended
      exact bounding.bounded
    | done _ _ _ _ _ =>
      cases ended
      -- A size that passes the checks of the update fits in 16 bits.
      intro key' entry found
      have fits := payload.fits
      rw [show (m.committed _ _ _ _ _).stor.directory = m.stor.directory.withEntry _ from rfl,
        KvDirectory.find_withEntry] at found
      split at found
      · cases found
        rw [UInt64.toNat_toUInt16, MAXBLOB]
        omega
      · exact bounding.bounded key' entry found
    | stopped _ _ | reused _ _ _ _ | stale _ _ _ _ | mallocNull _ _ _ _ => cases ended

theorem Bounding.step {m : Machine} {call : Call} {response : Response} {next : Machine}
    (bounding : Bounding m) (inProcess : call.InProcess)
    (returned : exec m call = .ok response next) : Bounding next := by
  cases call with
  | set env key v => exact bounding.update (.set env key v) returned
  | del env key => exact bounding.update (.del env key) returned
  | get read key v =>
    rcases exec_get m read key v with ⟨_, returned'⟩ | failed
    · rw [returned, EStateM.Result.ok.injEq] at returned'
      exact returned'.2 ▸ bounding
    · rw [returned] at failed
      cases failed
  | reopen _ _ => exact absurd inProcess id

/-! ## The entry of an oversized version -/

/-- A buffer of 65535 bytes. -/
def Value.large : Value where
  size := 65535
  data := List.replicate 65535 0
  size_le := by rw [List.length_replicate]; decide

/-- A get with a large buffer copies an entry that is too large past its block. -/
theorem Replayed.get_oversized {file : Bytes} {total : Nat} {stor : KvStor}
    (replayed : Replayed file total stor) (small : total ≤ 2 ^ 32) {key : UInt64}
    {entry : DirectoryEntry} (found : stor.directory.findEntryForKey key = some entry)
    (oversized : MAXBLOB < entry.dataBytes.toNat) (opened : Bool) :
    exec ⟨file, stor, opened⟩ (.get .full key .large) = .error .outOfBounds ⟨file, stor, opened⟩ := by
  obtain ⟨block, valid, holds⟩ := replayed.holds found
  obtain ⟨stored, signed⟩ := validBlock_eq_some.mp valid
  have scanned := (below_eq_some.mp (replayed.indexes.latest (KvDirectory.index_of_found found)).1).1
  have inside := blockAt_isSome stored
  obtain ⟨bytes, read⟩ := (readBlock_delivers replayed.sound.raw (by omega) replayed.sound.opened
    inside .full).mp trivial
  have same := blockAt_of_readBlock replayed.sound.raw (by omega) read
  rw [stored, Option.some.injEq] at same
  have live : entry.dataBytes.toUInt64 ≠ 0 := by
    rw [Ne, toUInt64_eq_zero]
    rintro zero
    rw [zero] at oversized
    exact absurd oversized (by decide)
  have enough : ¬ Value.large.size < entry.dataBytes.toUInt64 := by
    rw [UInt64.lt_iff_toNat_lt, UInt16.toNat_toUInt64]
    have bound := entry.dataBytes.toNat_lt
    show ¬ 65535 < entry.dataBytes.toNat
    omega
  have past : memcpy Value.large.data block.data entry.dataBytes.toUInt64.toNat =
      .error .outOfBounds := by
    refine dif_neg ?_
    rintro ⟨fits, _⟩
    rw [UInt16.toNat_toUInt64, KvBlock.data_length] at fits
    rw [MAXBLOB] at oversized
    omega
  have got : kvGet .full stor file key .large = .error .outOfBounds := by
    simp only [kvGet, KvDirectory.lookupKey, found, if_neg live, dif_neg enough, read, ← same,
      signed, not_true_eq_false, if_false, past, bind, Except.bind]
  simp [exec, perform, got]

/-! ## Any file -/

/-- Among the blocks that replay looks at, the newest version of every key has a size that
fits a block. -/
def NewestFit (file : Bytes) : Prop :=
  ∀ b block, validBlock file b = some block →
    Latest (below (replayedBlocks file) (fileLog file)) block.header.keyId b
      block.header.sequence.toNat →
    block.header.dataBytes.toNat ≤ MAXBLOB

theorem Replayed.bounded_iff {file : Bytes} {stor : KvStor}
    (replayed : Replayed file (replayedBlocks file) stor) :
    stor.directory.Bounded ↔ NewestFit file := by
  constructor
  · intro bounded b block valid latest
    obtain ⟨⟨slot, seq⟩, named⟩ := replayed.indexes.complete latest.1
    obtain ⟨rfl, rfl⟩ := latest.unique (replayed.indexes.latest named)
    obtain ⟨entry, found, rfl, _⟩ := KvDirectory.index_eq_some.mp named
    obtain ⟨block', valid', holds⟩ := replayed.holds found
    obtain rfl := Option.some.inj (valid.symm.trans valid')
    rw [holds.dataBytes]
    exact bounded _ entry found
  · intro fit key entry found
    obtain ⟨block, valid, holds⟩ := replayed.holds found
    rw [← holds.dataBytes]
    refine fit _ block valid ?_
    rw [holds.keyId, holds.sequence, KvDirectory.keyId_of_find found]
    exact replayed.indexes.latest (KvDirectory.index_of_found found)

/-- For any file that opens: after any further calls no get copies past the data of a block
exactly if the newest version of every key in the file has a size that fits. -/
theorem copies_bounded_iff {m opened : Machine} {argc : Nat} {env : OpenEnv}
    (returned : exec m (.reopen argc env) = .ok ⟨0, none⟩ opened) :
    (∀ calls, (∀ call ∈ calls, Call.InProcess call) →
      ∀ responses last, run exec opened calls = .ok responses last →
        ∀ read key v, CopiesInside last read key v) ↔ NewestFit m.file := by
  obtain ⟨file, replayed⟩ := reopen_returned returned
  rw [← replayed.bounded_iff]
  constructor
  · intro inside key entry found
    by_contra oversized
    rw [Nat.not_le] at oversized
    have small : replayedBlocks m.file ≤ 2 ^ 32 := Nat.le_of_lt (Nat.mod_lt _ (by decide))
    have ended := replayed.get_oversized small found oversized opened.opened
    rw [← file] at ended
    exact (inside [] (by simp) [] opened rfl .full key .large).inside _ ended
  · intro bounded calls inProcess responses last ran read key v
    have start : Bounding opened := ⟨replayed.sound, bounded⟩
    have allowed : Allowed exec (fun _ call => call.InProcess) opened calls :=
      Allowed.of_mem calls opened fun _ call member => inProcess call member
    exact (run_keeps Bounding.step start allowed ran).bounded.copiesInside read key v

/-! ## A file of one block -/

section OneBlock

variable {block : KvBlock}

theorem one_block_not_fit (valid : block.validate = true)
    (oversized : MAXBLOB < block.header.dataBytes.toNat) :
    ¬ NewestFit (overwritten [] 0 block sizeofKvBlock) := by
  intro fit
  refine absurd (fit 0 block ?_ ?_) (Nat.not_le.mpr oversized)
  · rw [validBlock_overwritten (Nat.le_refl _) (Nat.zero_le _) valid, Function.update_self]
  · rw [replayedBlocks, blockCount_one, fileLog_one valid]
    refine ⟨below_eq_some.mpr ⟨by decide, Function.update_self ..⟩, ?_⟩
    intro slot seq stored apart
    have held := (below_eq_some.mp stored).2
    rw [Function.update_of_ne apart] at held
    cases held

end OneBlock

theorem copies_bounded_iff_sample :
    ∃ opened, exec ⟨overwritten [] 0 .sample sizeofKvBlock, .initial none, false⟩
        (.reopen 2 .quiet) = .ok ⟨0, none⟩ opened ∧
      ((∀ calls, (∀ call ∈ calls, Call.InProcess call) →
        ∀ responses last, run exec opened calls = .ok responses last →
          ∀ read key v, CopiesInside last read key v) ↔
        NewestFit (overwritten [] 0 .sample sizeofKvBlock)) := by
  obtain ⟨opened, returned⟩ := one_block_opens .sample (.initial none)
  have iff := copies_bounded_iff returned
  exact ⟨opened, returned, iff⟩

/-- Version 5 of key 1, with a header that says 65535 bytes of data. -/
def KvBlock.oversized : KvBlock :=
  { BlockWrite.quiet.memory with header := ⟨kvBlockSignature, 1, 5, 65535, 0, 0⟩ }

/-- The file with this one block opens, and a get copies past the block. -/
theorem get_copies_past_block :
    ∃ opened, exec ⟨overwritten [] 0 .oversized sizeofKvBlock, .initial none, false⟩
        (.reopen 2 .quiet) = .ok ⟨0, none⟩ opened ∧
      ∃ key, ¬ CopiesInside opened .full key .large := by
  have valid : KvBlock.oversized.validate = true := by decide
  have large : MAXBLOB < KvBlock.oversized.header.dataBytes.toNat := by
    show MAXBLOB < 65535
    rw [MAXBLOB]
    omega
  obtain ⟨opened, returned⟩ := one_block_opens .oversized (.initial none)
  obtain ⟨file, replayed⟩ := reopen_returned returned
  have unbounded := mt replayed.bounded_iff.mp (one_block_not_fit valid large)
  simp only [KvDirectory.Bounded, not_forall, Nat.not_le] at unbounded
  obtain ⟨key, entry, found, oversized⟩ := unbounded
  have small : replayedBlocks (overwritten [] 0 KvBlock.oversized sizeofKvBlock) ≤ 2 ^ 32 :=
    Nat.le_of_lt (Nat.mod_lt _ (by decide))
  have ended := replayed.get_oversized small found oversized opened.opened
  rw [← file] at ended
  exact ⟨opened, returned, key, fun copies => copies.inside _ ended⟩

end KeyValueStore
