import KeyValueStore.Submission.Append
import KeyValueStore.Submission.System

/-! # Entries backed by the file

`Readable` is what `kv_get` lives on: the block of every entry holds the version that
the entry names.  `Backed` adds what the store's own entries satisfy.  It survives every
call that returns, whatever its write did to the block it was aimed at, because that
block belongs to no entry.

`exec_update` lists what `kv_set` and `kv_del` can do; `Backed.searched`,
`Backed.wrote` and `Backed.committed` are the three states they can leave behind. -/

namespace KeyValueStore

/-- The block holds the version that the entry names. -/
structure HoldsEntry (block : KvBlock) (entry : DirectoryEntry) : Prop where
  keyId : block.header.keyId = entry.keyId
  sequence : block.header.sequence = entry.sequence
  dataBytes : block.header.dataBytes = entry.dataBytes

theorem HoldsEntry.version {block : KvBlock} {entry : DirectoryEntry}
    (holds : HoldsEntry block entry) : block.version = (entry.keyId, entry.sequence.toNat) := by
  rw [KvBlock.version, holds.keyId, holds.sequence]

theorem Carries.holds {block : KvBlock} {key size sequence : UInt64} {valueData : Option Bytes}
    (carries : Carries block key size valueData sequence) (small : size.toNat ≤ 4096) (d : Nat) :
    HoldsEntry block ⟨key, sequence, d, size.toUInt16⟩ := by
  refine ⟨carries.keyId, carries.sequence_eq, UInt16.toNat_inj.mp ?_⟩
  rw [carries.dataBytes, UInt64.toNat_toUInt16]
  omega

structure Readable (m : Machine) : Prop where
  sound : Sound m.stor
  holds : ∀ {key entry}, m.stor.directory.findEntryForKey key = some entry →
    ∃ block, validBlock m.file entry.dataBlock = some block ∧ HoldsEntry block entry

structure Backed (m : Machine) : Prop extends Readable m where
  fits : ∀ {key entry}, m.stor.directory.findEntryForKey key = some entry →
    entry.dataBytes.toNat ≤ MAXBLOB
  counted : ∀ {key entry}, m.stor.directory.findEntryForKey key = some entry →
    entry.sequence.toNat ≤ m.stor.currentSequenceNumber.toNat

/-- The value of an entry. -/
def entryValue (file : Bytes) (entry : DirectoryEntry) : Option Bytes :=
  if entry.dataBytes = 0 then none
  else (blockAt file entry.dataBlock).map fun block => block.data.take entry.dataBytes.toNat

/-- The map that the store serves. -/
def Machine.mapping (m : Machine) : Mapping := fun key =>
  (m.stor.directory.findEntryForKey key).bind (entryValue m.file)

theorem Machine.mapping_of_absent {m : Machine} {key : UInt64}
    (absent : m.stor.directory.findEntryForKey key = none) : m.mapping key = none := by
  simp only [mapping, absent, Option.bind_none]

theorem Machine.mapping_of_found {m : Machine} {key : UInt64} {entry : DirectoryEntry}
    (found : m.stor.directory.findEntryForKey key = some entry) :
    m.mapping key = entryValue m.file entry := by
  simp only [mapping, found, Option.bind_some]

theorem toUInt64_eq_zero {bytes : UInt16} : bytes.toUInt64 = 0 ↔ bytes = 0 := by
  rw [← UInt64.toNat_inj, ← UInt16.toNat_inj]
  simp

theorem exec_get_of_kvGet {m : Machine} {read : ReadResult} {key : UInt64} {v out : Value}
    {ret : Int} (returned : kvGet read m.stor m.file key v = .ok (ret, out)) :
    exec m (.get read key v) = .ok ⟨ret, some out⟩ m := by
  simp only [exec, perform, bind_apply, getStor_apply, getFile_apply, returned, lift_ok,
    pure_apply]

/-- A buffer that is too small is refused before anything is read. -/
theorem kvGet_small (read : ReadResult) {stor : KvStor} (file : Bytes) {key : UInt64} {v : Value}
    {entry : DirectoryEntry} (found : stor.directory.findEntryForKey key = some entry)
    (small : v.size.toNat < entry.dataBytes.toNat) :
    kvGet read stor file key v = .ok (-EINVAL, v) := by
  have live : entry.dataBytes.toUInt64 ≠ 0 := by
    intro deleted
    rw [toUInt64_eq_zero.mp deleted] at small
    exact absurd small (Nat.not_lt_zero _)
  have smaller : v.size < entry.dataBytes.toUInt64 := by
    rw [UInt64.lt_iff_toNat_lt]
    simpa using small
  simp only [kvGet, KvDirectory.lookupKey, found, if_neg live, dif_pos smaller]

/-! ## `kv_get` -/

/-- The get of a live key with a buffer that is large enough: the read decides. -/
theorem kvGet_live {stor : KvStor} {file : Bytes} {key : UInt64} {entry : DirectoryEntry}
    {block : KvBlock} (opened : stor.blockArray.fd ≠ none)
    (raw : stor.blockArray.rawBlockBytes = sizeofKvBlock) (read : ReadResult) {v : Value}
    (found : stor.directory.findEntryForKey key = some entry) (small : entry.dataBlock < 2 ^ 32)
    (valid : validBlock file entry.dataBlock = some block) (live : entry.dataBytes ≠ 0)
    (fits : entry.dataBytes.toNat ≤ MAXBLOB) (enough : entry.dataBytes.toNat ≤ v.size.toNat) :
    (∃ out, kvGet read stor file key v = .ok (0, out) ∧
        out.size.toNat = entry.dataBytes.toNat ∧ entryValue file entry = some out.bytes) ∨
      ∃ ret, kvGet read stor file key v = .ok (ret, v) ∧ ¬ read.Delivers ∧ ret ≠ 0 := by
  obtain ⟨stored, validated⟩ := validBlock_eq_some.mp valid
  have size : entry.dataBytes.toUInt64.toNat = entry.dataBytes.toNat := by simp
  have nonzero : entry.dataBytes.toUInt64 ≠ 0 := mt toUInt64_eq_zero.mp live
  have notSmall : ¬ v.size < entry.dataBytes.toUInt64 := by
    rw [UInt64.lt_iff_toNat_lt, size]
    omega
  simp only [MAXBLOB] at fits
  simp only [kvGet, KvDirectory.lookupKey, found, if_neg nonzero, dif_neg notSmall]
  cases delivered : stor.blockArray.readBlock read file entry.dataBlock with
  | error ret =>
    refine .inr ⟨ret, rfl, ?_, readBlock_error_ne_zero delivered⟩
    -- A read of a block that is there fails only if not all of it comes in.
    intro delivers
    obtain ⟨bytes, impossible⟩ :=
      (readBlock_delivers raw small opened (blockAt_isSome stored) read).mp delivers
    rw [delivered] at impossible
    cases impossible
  | ok image =>
    have same := blockAt_of_readBlock raw small delivered
    rw [stored, Option.some.injEq] at same
    have room := v.size_le
    have inside : entry.dataBytes.toUInt64.toNat ≤ block.data.length := by
      rw [block.data_length, size]
      omega
    have copied := memcpy_eq inside (show _ ≤ v.data.length by rw [size]; omega)
    simp only [← same, validated, not_true_eq_false, if_false, copied]
    refine .inl ⟨_, rfl, size, ?_⟩
    rw [size] at inside
    simp only [entryValue, if_neg live, stored, Option.map_some, Value.bytes, size]
    rw [List.take_append_of_le_length (by simp; omega), List.take_take, Nat.min_self]

/-- The block of every entry can be read. -/
structure Legible (m : Machine) : Prop where
  opened : m.stor.blockArray.fd ≠ none
  raw : m.stor.blockArray.rawBlockBytes = sizeofKvBlock
  small : ∀ {key entry}, m.stor.directory.findEntryForKey key = some entry →
    entry.dataBlock < 2 ^ 32
  valid : ∀ {key entry}, m.stor.directory.findEntryForKey key = some entry →
    ∃ block, validBlock m.file entry.dataBlock = some block

namespace Legible

variable {m : Machine} {key : UInt64} {entry : DirectoryEntry}

/-- The value of a live entry has the length that the entry says. -/
theorem value_of_live (legible : Legible m)
    (found : m.stor.directory.findEntryForKey key = some entry) (live : entry.dataBytes ≠ 0) :
    ∃ bytes, entryValue m.file entry = some bytes ∧
      bytes.length = min entry.dataBytes.toNat 4096 := by
  obtain ⟨block, valid⟩ := legible.valid found
  have stored := (validBlock_eq_some.mp valid).1
  refine ⟨block.data.take entry.dataBytes.toNat, ?_, ?_⟩
  · simp only [entryValue, if_neg live, stored, Option.map_some]
  · rw [List.length_take, block.data_length]

theorem mapping_eq_none (legible : Legible m) :
    m.mapping key = none ↔ ¬ m.stor.directory.Live key := by
  cases found : m.stor.directory.findEntryForKey key with
  | none => simp [Machine.mapping_of_absent found, KvDirectory.Live, found]
  | some entry =>
    by_cases live : entry.dataBytes = 0
    · simp [Machine.mapping_of_found found, KvDirectory.Live, found, entryValue, live]
    · obtain ⟨bytes, value, _⟩ := legible.value_of_live found live
      simp [Machine.mapping_of_found found, KvDirectory.Live, found, value, live]

/-- A get answers from the map, unless its read fails; then the caller's value stays. -/
theorem get (legible : Legible m) (read : ReadResult) (key : UInt64) (v : Value)
    (fits : ∀ {entry}, m.stor.directory.findEntryForKey key = some entry →
      entry.dataBytes.toNat ≤ MAXBLOB) :
    ∃ response, exec m (.get read key v) = .ok response m ∧
      (Answers m.mapping (.get read key v) response ∨
        ¬ read.Delivers ∧ response.ret ≠ 0 ∧ response.value = some v) := by
  cases found : m.stor.directory.findEntryForKey key with
  | none =>
    refine ⟨⟨-ENOENT, some v⟩, exec_get_of_kvGet ?_, .inl ?_⟩
    · simp only [kvGet, KvDirectory.lookupKey, found]
    · simp only [Answers, Machine.mapping_of_absent found]
  | some entry =>
    by_cases deleted : entry.dataBytes = 0
    · refine ⟨⟨-ENOENT, some v⟩, exec_get_of_kvGet ?_, .inl ?_⟩
      · simp only [kvGet, KvDirectory.lookupKey, found, if_pos (toUInt64_eq_zero.mpr deleted)]
      · simp only [Answers, Machine.mapping_of_found found, entryValue, if_pos deleted]
    · obtain ⟨bytes, value, length⟩ := legible.value_of_live found deleted
      have small := fits found
      simp only [MAXBLOB] at small
      by_cases enough : entry.dataBytes.toNat ≤ v.size.toNat
      · obtain ⟨block, valid⟩ := legible.valid found
        rcases kvGet_live legible.opened legible.raw read found (legible.small found) valid deleted
            (fits found) enough with
          ⟨out, returned, size, same⟩ | ⟨ret, returned, failed, nonzero⟩
        · refine ⟨⟨0, some out⟩, exec_get_of_kvGet returned, .inl ?_⟩
          rw [value, Option.some.injEq] at same
          have large : ¬ v.size.toNat < bytes.length := by omega
          simp only [Answers, Machine.mapping_of_found found, value, if_neg large, true_and]
          exact ⟨out, rfl, by omega, same.symm⟩
        · exact ⟨⟨ret, some v⟩, exec_get_of_kvGet returned, .inr ⟨failed, nonzero, rfl⟩⟩
      · have tooSmall : v.size.toNat < entry.dataBytes.toNat := by omega
        have short : v.size.toNat < bytes.length := by omega
        refine ⟨⟨-EINVAL, some v⟩, exec_get_of_kvGet (kvGet_small read _ found tooSmall), .inl ?_⟩
        simp only [Answers, Machine.mapping_of_found found, value, if_pos short]

end Legible

theorem Readable.legible {m : Machine} (readable : Readable m) : Legible m where
  opened := readable.sound.opened
  raw := readable.sound.raw
  small := by
    intro key entry found
    have inside := readable.sound.owns.block_lt found
    rw [readable.sound.owns.size, capacity, MAXKEYS] at inside
    omega
  valid := by
    intro key entry found
    obtain ⟨block, valid, _⟩ := readable.holds found
    exact ⟨block, valid⟩

/-! ## `kv_set` and `kv_del` -/

/-- What a set or a deletion appends. -/
inductive Call.Appends : Call → BlockWrite → UInt64 → UInt64 → Option Bytes → Prop
  | set (env : BlockWrite) (key : UInt64) (v : Value) :
    Appends (.set env key v) env key v.size (some v.data)
  | del (env : BlockWrite) (key : UInt64) : Appends (.del env key) env key 0 none

/-- The response to an update that ended with a code. -/
def reply : EStateM.Result Fault Machine Int → EStateM.Result Fault Machine Response
  | .ok ret next => .ok ⟨ret, none⟩ next
  | .error fault next => .error fault next

/-- The code of an update that its checks reject. -/
def Call.rejection : Call → Int
  | .set .. => -EINVAL
  | _ => -ENOENT

theorem Call.rejection_ne_zero (call : Call) : call.rejection ≠ 0 := by
  cases call <;> simp [rejection, EINVAL, ENOENT]

/-- What an update can do. -/
inductive UpdateOutcome (m : Machine) (call : Call) (env : BlockWrite) (key size : UInt64)
    (valueData : Option Bytes) : EStateM.Result Fault Machine Response → Prop where
  | rejected : ¬ call.Accepted m →
    UpdateOutcome m call env key size valueData (.ok ⟨call.rejection, none⟩ m)
  | appended {block : KvBlock} {result : EStateM.Result Fault Machine Int} : call.Accepted m →
    Payload size valueData → Carries block key size valueData m.nextSequence →
    AppendOutcome env key size block m result →
    UpdateOutcome m call env key size valueData (reply result)

theorem exec_set (m : Machine) (env : BlockWrite) (key : UInt64) (v : Value) :
    exec m (.set env key v) = reply (kvSet env key v m) := by
  simp only [exec, perform, bind_apply]
  cases kvSet env key v m <;> rfl

theorem exec_del (m : Machine) (env : BlockWrite) (key : UInt64) :
    exec m (.del env key) = reply (kvDel env key m) := by
  simp only [exec, perform, bind_apply]
  cases kvDel env key m <;> rfl

/-- The checks of an update decide, and then its append. -/
theorem exec_checked (m : Machine) {call : Call} {env : BlockWrite} {key size : UInt64}
    {valueData : Option Bytes} (appends : call.Appends env key size valueData) :
    ¬ call.Accepted m ∧ exec m call = .ok ⟨call.rejection, none⟩ m ∨
      call.Accepted m ∧ Payload size valueData ∧
        exec m call = reply (kvAppend env key size valueData m) := by
  cases appends with
  | set env key v =>
    rw [exec_set, kvSet]
    -- Past this check the conversion to `uint32_t` keeps the size.
    by_cases bad : v.size.toNat = 0 ∨ v.size.toNat > MAXBLOB
    · rw [if_pos bad]
      refine .inl ⟨?_, rfl⟩
      simp only [Call.Accepted]
      omega
    · rw [if_neg bad]
      simp only [not_or, MAXBLOB] at bad
      refine .inr ⟨⟨bad.1, ?_⟩, ⟨by omega, fun source same => by cases same; exact v.size_le⟩, rfl⟩
      simp only [MAXBLOB]
      omega
  | del env key =>
    rw [exec_del]
    simp only [kvDel, bind_apply, getStor_apply, KvDirectory.lookupKey]
    cases found : m.stor.directory.findEntryForKey key with
    | none =>
      refine .inl ⟨?_, rfl⟩
      rintro ⟨entry, impossible, _⟩
      rw [found] at impossible
      cases impossible
    | some entry =>
      by_cases deleted : entry.dataBytes = 0
      · simp only [if_pos (toUInt64_eq_zero.mpr deleted)]
        refine .inl ⟨?_, rfl⟩
        rintro ⟨other, same, live⟩
        rw [found] at same
        cases same
        exact live deleted
      · simp only [if_neg (mt toUInt64_eq_zero.mp deleted)]
        exact .inr ⟨⟨entry, found, deleted⟩,
          ⟨by decide, fun _ impossible => by cases impossible⟩, trivial⟩

theorem exec_update {m : Machine} (sound : Sound m.stor) {call : Call} {env : BlockWrite}
    {key size : UInt64} {valueData : Option Bytes} (appends : call.Appends env key size valueData) :
    UpdateOutcome m call env key size valueData (exec m call) := by
  rcases exec_checked m appends with ⟨refused, returned⟩ | ⟨accepted, payload, appended⟩
  · rw [returned]
    exact .rejected refused
  · rw [appended]
    obtain ⟨block, carries, outcome⟩ := sound.usable.kvAppend_outcome env key payload
    exact .appended accepted payload carries outcome

/-- Each way to fail once there is a block to write to is met. -/
theorem exec_update_stops {m : Machine} (sound : Sound m.stor) {call : Call} {env : BlockWrite}
    {key size : UInt64} {valueData : Option Bytes} (appends : call.Appends env key size valueData)
    (accepted : call.Accepted m) {d : Nat} (found : m.destination = some d) :
    ∃ block, Payload size valueData ∧ Carries block key size valueData m.nextSequence ∧
      (env.write.code = none → exec m call = .error .stopped (m.wrote d block env.write)) ∧
      (∀ ret, env.write.code = some ret → ret ≠ 0 →
        exec m call = .ok ⟨ret, none⟩ (m.wrote d block env.write)) ∧
      (env.write.code = some 0 → m.stor.directory.findEntryForKey key = none →
        env.insert = .tsearchNull →
        exec m call = .ok ⟨-ENOMEM, none⟩ (m.wrote d block env.write)) := by
  have outcome := exec_update sound appends
  generalize exec m call = result at outcome
  cases outcome with
  | rejected refused => exact absurd accepted refused
  | appended _ payload carries outcome =>
    refine ⟨_, payload, carries, ?_⟩
    cases outcome with
    | full none_ => simp [found] at none_
    | failed found' code nonzero =>
      obtain rfl := Option.some.inj (found.symm.trans found')
      simp [code, nonzero, reply]
    | stopped found' code =>
      obtain rfl := Option.some.inj (found.symm.trans found')
      simp [code, reply]
    | tsearchNull found' code absent insert =>
      obtain rfl := Option.some.inj (found.symm.trans found')
      simp [code, reply]
    | reused _ code lookup _ => simp [code, lookup]
    | stale _ code lookup _ => simp [code, lookup]
    | mallocNull _ code _ insert => simp [code, insert]
    | done _ code _ inserts _ =>
      refine ⟨by simp [code], by simp [code], fun _ absent insert => ?_⟩
      rw [inserts absent] at insert
      cases insert

/-! ## The states an update leaves -/

theorem Machine.nextSequence_toNat {m : Machine}
    (noWrap : m.stor.currentSequenceNumber.toNat + 1 < 2 ^ 64) :
    m.nextSequence.toNat = m.stor.currentSequenceNumber.toNat + 1 := by
  rw [nextSequence, UInt64.toNat_add]
  exact Nat.mod_eq_of_lt noWrap

/-- The append point has moved to the block that it stands for. -/
theorem Sound.searched {m : Machine} (sound : Sound m.stor) : Sound m.searched.stor where
  opened := sound.opened
  raw := sound.raw
  owns := sound.owns
  inRange := by
    cases found : m.stor.appendPoint.next m.stor.blockAllocator with
    | none => exact .inr (by simp [Machine.searched, found])
    | some d =>
      have inside := (sound.destination_free found).1
      refine .inl ?_
      simp only [Machine.searched, found, Option.getD_some]
      exact Nat.le_of_lt inside

/-- The block of the key has been exchanged for the destination. -/
theorem Sound.committed {m : Machine} (sound : Sound m.stor) {key : UInt64} {d : Nat}
    (found : m.destination = some d) {allocator : KvBlockAllocator}
    (marks : Marks m.stor.directory m.stor.blockAllocator key d allocator)
    (block : KvBlock) (write : WriteResult) (dataBytes : UInt16) :
    Sound (m.committed d block write ⟨key, m.nextSequence, d, dataBytes⟩ allocator).stor where
  opened := sound.opened
  raw := sound.raw
  owns := sound.owns.move (sound.destination_free found).2 marks
  inRange := by
    have inRange := sound.searched.inRange
    simp only [KvAppendPoint.InRange, Machine.committed, marks.size] at inRange ⊢
    exact inRange

/-- The map depends on the directory and on the blocks of its entries. -/
theorem Machine.mapping_congr {m m' : Machine}
    (directory : ∀ key, m'.stor.directory.findEntryForKey key =
      m.stor.directory.findEntryForKey key)
    (values : ∀ {key entry}, m.stor.directory.findEntryForKey key = some entry →
      entryValue m'.file entry = entryValue m.file entry) : m'.mapping = m.mapping := by
  funext key
  simp only [mapping, directory]
  cases found : m.stor.directory.findEntryForKey key with
  | none => rfl
  | some entry => exact values found

theorem entryValue_congr {file file' : Bytes} {entry : DirectoryEntry}
    (same : blockAt file' entry.dataBlock = blockAt file entry.dataBlock) :
    entryValue file' entry = entryValue file entry := by
  rw [entryValue, entryValue, same]

/-- The counter has reached every entry. -/
def Machine.Counted (m : Machine) : Prop :=
  ∀ key entry, m.stor.directory.findEntryForKey key = some entry →
    entry.sequence.toNat ≤ m.stor.currentSequenceNumber.toNat

theorem Machine.Counted.fresh {m : Machine} (counted : m.Counted)
    (noWrap : m.stor.currentSequenceNumber.toNat + 1 < 2 ^ 64) {key : UInt64}
    {entry : DirectoryEntry} (found : m.stor.directory.findEntryForKey key = some entry) :
    entry.sequence.toNat < m.nextSequence.toNat := by
  have bound := counted key entry found
  have next := Machine.nextSequence_toNat noWrap
  omega

theorem Machine.Counted.searched {m : Machine} (counted : m.Counted)
    (noWrap : m.stor.currentSequenceNumber.toNat + 1 < 2 ^ 64) : m.searched.Counted :=
  fun _ _ found => Nat.le_of_lt (counted.fresh noWrap found)

theorem Machine.Counted.committed {m : Machine} (counted : m.Counted)
    (noWrap : m.stor.currentSequenceNumber.toNat + 1 < 2 ^ 64) (key : UInt64) (d : Nat)
    (block : KvBlock) (write : WriteResult) (dataBytes : UInt16) (allocator : KvBlockAllocator) :
    (m.committed d block write ⟨key, m.nextSequence, d, dataBytes⟩ allocator).Counted := by
  intro key' entry lookup
  simp only [Machine.committed, KvDirectory.find_withEntry] at lookup ⊢
  split at lookup
  · cases lookup
    exact Nat.le_refl _
  · exact counted.searched noWrap key' entry lookup

namespace Backed

variable {m : Machine} {key : UInt64} {entry : DirectoryEntry} {d : Nat}

/-- `Readable.get` for the store's own entries. -/
theorem get (backed : Backed m) (read : ReadResult) (key : UInt64) (v : Value) :
    ∃ response, exec m (.get read key v) = .ok response m ∧
      (Answers m.mapping (.get read key v) response ∨
        ¬ read.Delivers ∧ response.ret ≠ 0 ∧ response.value = some v) :=
  backed.toReadable.legible.get read key v backed.fits

/-- A write to the destination leaves the blocks of the entries alone. -/
theorem blockAt_kept (backed : Backed m) (free : d ∉ m.stor.blockAllocator.allocated)
    (found : m.stor.directory.findEntryForKey key = some entry) (block : KvBlock) (count : Nat) :
    blockAt (overwritten m.file d block count) entry.dataBlock = blockAt m.file entry.dataBlock := by
  obtain ⟨_, valid, _⟩ := backed.holds found
  have apart : entry.dataBlock ≠ d := by
    rintro rfl
    exact free (backed.sound.owns.mem_of_find found)
  exact blockAt_overwritten_of_ne apart (blockAt_isSome (validBlock_eq_some.mp valid).1)

theorem searched (backed : Backed m)
    (noWrap : m.stor.currentSequenceNumber.toNat + 1 < 2 ^ 64) : Backed m.searched where
  sound := backed.sound.searched
  holds := backed.holds
  fits := backed.fits
  counted := Machine.Counted.searched (fun _ _ => backed.counted) noWrap _ _

theorem wrote (backed : Backed m) (noWrap : m.stor.currentSequenceNumber.toNat + 1 < 2 ^ 64)
    (found : m.destination = some d) (block : KvBlock) (write : WriteResult) :
    Backed (m.wrote d block write) where
  sound := backed.sound.searched
  holds := by
    intro key entry entryFound
    obtain ⟨held, valid, holds⟩ := backed.holds entryFound
    have kept := backed.blockAt_kept (backed.sound.destination_free found).2 entryFound block
      write.changed
    refine ⟨held, ?_, holds⟩
    simp only [Machine.wrote, validBlock, kept]
    exact valid
  fits := backed.fits
  counted := (backed.searched noWrap).counted

theorem mapping_wrote (backed : Backed m) (found : m.destination = some d) (block : KvBlock)
    (write : WriteResult) : (m.wrote d block write).mapping = m.mapping := by
  have free := (backed.sound.destination_free found).2
  refine Machine.mapping_congr (fun _ => rfl) ?_
  intro key entry lookup
  exact entryValue_congr (backed.blockAt_kept free lookup block write.changed)

theorem committed (backed : Backed m) (noWrap : m.stor.currentSequenceNumber.toNat + 1 < 2 ^ 64)
    (found : m.destination = some d) {write : WriteResult} (full : sizeofKvBlock ≤ write.changed)
    {size : UInt64} {valueData : Option Bytes} {block : KvBlock}
    (carries : Carries block key size valueData m.nextSequence) (payload : Payload size valueData)
    {allocator : KvBlockAllocator}
    (marks : Marks m.stor.directory m.stor.blockAllocator key d allocator) :
    Backed (m.committed d block write ⟨key, m.nextSequence, d, size.toUInt16⟩ allocator) := by
  have small := payload.fits
  have dataBytes : size.toUInt16.toNat = size.toNat := by
    rw [UInt64.toNat_toUInt16]
    omega
  have wrote := backed.wrote noWrap found block write
  refine ⟨⟨backed.sound.committed found marks block write _, ?_⟩, ?_, ?_⟩
  · intro key' entry lookup
    simp only [Machine.committed, KvDirectory.find_withEntry] at lookup ⊢
    split at lookup
    · cases lookup
      refine ⟨block, ?_, carries.holds payload.fits d⟩
      exact validBlock_eq_some.mpr ⟨blockAt_overwritten_full full, carries.valid⟩
    · exact wrote.holds lookup
  · intro key' entry lookup
    simp only [Machine.committed, KvDirectory.find_withEntry] at lookup
    split at lookup
    · cases lookup
      simp only [dataBytes, MAXBLOB]
      omega
    · exact wrote.fits lookup
  · exact Machine.Counted.committed (fun _ _ => backed.counted) noWrap key d block write _ _ _ _

end Backed

/-! ## The map after an update -/

/-- The value that a completed update leaves for its key. -/
def Call.recorded : Call → Option Bytes
  | .set _ _ v => some v.bytes
  | _ => none

theorem Mapping.record_update {call : Call} {env : BlockWrite} {key size : UInt64}
    {valueData : Option Bytes} (appends : call.Appends env key size valueData)
    (mapping : Mapping) :
    mapping.record call ⟨0, none⟩ = Function.update mapping key call.recorded := by
  cases appends <;> rfl

/-- The entry of a block with data reads as these data. -/
theorem entryValue_carries {block : KvBlock} {key size sequence : UInt64} {source : Bytes}
    (carries : Carries block key size (some source) sequence) (small : size.toNat ≤ 4096)
    (nonzero : size.toNat ≠ 0) {file : Bytes} {entry : DirectoryEntry}
    (stored : blockAt file entry.dataBlock = some block)
    (dataBytes : entry.dataBytes = size.toUInt16) :
    entryValue file entry = some (source.take size.toNat) := by
  have size_eq : entry.dataBytes.toNat = size.toNat := by
    rw [dataBytes, UInt64.toNat_toUInt16]
    omega
  have live : entry.dataBytes ≠ 0 := by
    intro deleted
    rw [deleted] at size_eq
    exact nonzero size_eq.symm
  simp only [entryValue, if_neg live, stored, Option.map_some, size_eq, carries.data source rfl]

/-- The entry of a completed update reads as the value that was given. -/
theorem entryValue_committed {m : Machine} {call : Call} {env : BlockWrite} {key size : UInt64}
    {valueData : Option Bytes} (accepted : call.Accepted m)
    (appends : call.Appends env key size valueData) (payload : Payload size valueData)
    {block : KvBlock} {sequence : UInt64} (carries : Carries block key size valueData sequence)
    {file : Bytes} {entry : DirectoryEntry} (stored : blockAt file entry.dataBlock = some block)
    (dataBytes : entry.dataBytes = size.toUInt16) : entryValue file entry = call.recorded := by
  cases appends with
  | set env key v => exact entryValue_carries carries payload.fits accepted.1 stored dataBytes
  | del env key =>
    have deleted : entry.dataBytes = 0 := dataBytes
    simp only [entryValue, if_pos deleted, Call.recorded]

/-- The map after the entry of one key has changed. -/
theorem Machine.mapping_update {m next : Machine} {key : UInt64} {value : Option Bytes}
    (here : next.mapping key = value)
    (directory : ∀ key', key' ≠ key →
      next.stor.directory.findEntryForKey key' = m.stor.directory.findEntryForKey key')
    (values : ∀ {key' entry}, m.stor.directory.findEntryForKey key' = some entry → key' ≠ key →
      entryValue next.file entry = entryValue m.file entry) :
    next.mapping = Function.update m.mapping key value := by
  funext key'
  by_cases same : key' = key
  · rw [same, Function.update_self, here]
  · rw [Function.update_of_ne same, mapping, mapping, directory key' same]
    exact Option.bind_congr fun entry found => values found same

theorem Backed.mapping_committed {m : Machine} (backed : Backed m) {call : Call}
    {env : BlockWrite} {key size : UInt64} {valueData : Option Bytes} (accepted : call.Accepted m)
    (appends : call.Appends env key size valueData) (payload : Payload size valueData)
    {block : KvBlock} (carries : Carries block key size valueData m.nextSequence) {d : Nat}
    (found : m.destination = some d) {write : WriteResult} (full : sizeofKvBlock ≤ write.changed)
    (allocator : KvBlockAllocator) :
    (m.committed d block write ⟨key, m.nextSequence, d, size.toUInt16⟩ allocator).mapping =
      m.mapping.record call ⟨0, none⟩ := by
  rw [Mapping.record_update appends]
  have free := (backed.sound.destination_free found).2
  refine Machine.mapping_update ?_ ?_ ?_
  · have lookup : (m.committed d block write ⟨key, m.nextSequence, d, size.toUInt16⟩
        allocator).stor.directory.findEntryForKey key =
        some ⟨key, m.nextSequence, d, size.toUInt16⟩ := by
      simp [Machine.committed]
    rw [Machine.mapping_of_found lookup]
    exact entryValue_committed accepted appends payload carries (blockAt_overwritten_full full) rfl
  · intro key' different
    simp only [Machine.committed, KvDirectory.find_withEntry, if_neg different]
  · intro key' entry lookup _
    exact entryValue_congr (backed.blockAt_kept free lookup block write.changed)

/-- One update from a backed store that comes back: it either changed nothing in memory
that counts, or did all that was asked. -/
theorem Backed.update {m : Machine} (backed : Backed m) {call : Call} {env : BlockWrite}
    {key size : UInt64} {valueData : Option Bytes} (appends : call.Appends env key size valueData)
    (noWrap : NoWrap m call) (returns : env.write.code ≠ none) (insert : env.insert ≠ .mallocNull) :
    ∃ ret next, exec m call = .ok ⟨ret, none⟩ next ∧ Backed next ∧
      next.mapping = m.mapping.record call ⟨ret, none⟩ ∧
      (ret ≠ 0 → next.stor.directory = m.stor.directory ∧
        next.stor.blockAllocator = m.stor.blockAllocator) := by
  have outcome := exec_update backed.sound appends
  generalize exec m call = result at outcome
  cases outcome with
  | rejected _ =>
    have failed := call.rejection_ne_zero
    refine ⟨call.rejection, m, rfl, backed, ?_, fun _ => ⟨rfl, rfl⟩⟩
    exact (Mapping.record_of_ne_zero failed).symm
  | appended accepted payload carries outcome =>
    have small := noWrap.1 accepted
    cases outcome with
    | full _ =>
      refine ⟨_, _, rfl, backed.searched small, ?_, fun _ => ⟨rfl, rfl⟩⟩
      exact (Mapping.record_of_ne_zero (by decide)).symm
    | failed found code nonzero =>
      refine ⟨_, _, rfl, backed.wrote small found _ _, ?_, fun _ => ⟨rfl, rfl⟩⟩
      rw [backed.mapping_wrote found]
      exact (Mapping.record_of_ne_zero nonzero).symm
    | tsearchNull found code absent failed =>
      refine ⟨_, _, rfl, backed.wrote small found _ _, ?_, fun _ => ⟨rfl, rfl⟩⟩
      rw [backed.mapping_wrote found]
      exact (Mapping.record_of_ne_zero (by decide)).symm
    | done found code newest _ marks =>
      have full := WriteResult.changed_of_code_zero code
      refine ⟨0, _, rfl, backed.committed small found full carries payload marks, ?_, ?_⟩
      · exact backed.mapping_committed accepted appends payload carries found full _
      · exact fun impossible => absurd rfl impossible
    | stopped _ code => exact absurd code returns
    | mallocNull _ _ _ failed => exact absurd failed insert
    -- The counter is ahead of all entries, so no sequence is used twice.
    | reused _ _ lookup same =>
      have newer := Machine.Counted.fresh (fun _ _ => backed.counted) small lookup
      rw [same] at newer
      exact absurd newer (Nat.lt_irrefl _)
    | stale _ _ lookup older =>
      have newer := Machine.Counted.fresh (fun _ _ => backed.counted) small lookup
      omega

end KeyValueStore
