import KeyValueStore.Class.System

/-! # What a call can do

From a usable store a set, a deletion or a get has the outcomes of `Outcome` and no
others (`exec_outcome`); what is proved about runs is derived from these. -/

namespace KeyValueStore.KvStore

/-- The bitmap `freed` is `allocator` without block `b`. -/
structure Frees (allocator : KvBlockAllocator) (b : Nat) (freed : KvBlockAllocator) : Prop where
  size : freed.numberOfBlocks = allocator.numberOfBlocks
  allocated : ∀ b', b' ∈ freed.allocated ↔ b' ∈ allocator.allocated ∧ b' ≠ b

/-- The machine after the block of a deletion has been written, the entry of its key
removed and the block of that entry freed. -/
def removed (m : Machine) (d : Nat) (block : KvBlock) (write : WriteResult) (key : UInt64)
    (allocator : KvBlockAllocator) : Machine :=
  { m.wrote d block write with stor := { m.searched.stor with
      directory := without m.stor.directory key
      blockAllocator := allocator } }

/-- Every way a call on an open store can end, with the machine it leaves. -/
inductive Outcome (port : Port) (m : Machine) :
    Call → EStateM.Result Fault Machine Response → Prop where
  | got {allocated : Bool} {read : ReadResult} {key : UInt64} {v : Value} {response : Response} :
    Outcome port m (.get allocated read key v) (.ok response m)
  | getFault {allocated : Bool} {read : ReadResult} {key : UInt64} {v : Value} {fault : Fault} :
    fault = .nullPointer ∨ fault = .outOfBounds →
    Outcome port m (.get allocated read key v) (.error fault m)
  -- The checks of the call reject it.
  | rejected {call : Call} {env : BlockWrite} : call.env = some env → ¬ call.Accepted m →
    Outcome port m call (.ok ⟨call.rejection, none⟩ m)
  | nullPointer {call : Call} {env : BlockWrite} : call.env = some env →
    ¬ call.PointersValid port → Outcome port m call (.error .nullPointer m)
  -- No block is free.
  | full {call : Call} {env : BlockWrite} : call.env = some env → call.Accepted m →
    m.destination = none → Outcome port m call (.ok ⟨-ENOSPC, none⟩ m.searched)
  -- The write came back with a code; part of the block may be in the file.
  | failed {call : Call} {env : BlockWrite} {d : Nat} {block : KvBlock} {ret : Int} :
    call.env = some env → call.Accepted m → m.destination = some d → env.write.code = some ret →
    ret ≠ 0 → Outcome port m call (.ok ⟨ret, none⟩ (m.wrote d block env.write))
  | stopped {call : Call} {env : BlockWrite} {d : Nat} {block : KvBlock} :
    call.env = some env → m.destination = some d → env.write.code = none →
    Outcome port m call (.error .stopped (m.wrote d block env.write))
  -- The entry is not older than the new version: one of the two assertions fails.
  | asserted {env : BlockWrite} {key : UInt64} {v : Value} {d : Nat} {block : KvBlock}
      {entry : DirectoryEntry} {which : Assertion} :
    Valid v → env.allocated = true → m.destination = some d → env.write.code = some 0 →
    m.stor.directory.findEntryForKey key = some entry →
    m.nextSequence.toNat ≤ entry.sequence.toNat →
    Outcome port m (.set env key (some v))
      (.error (.assertion which) (m.wrote d block env.write))
  -- The entry of a new key cannot be made, but its block is written.
  | noEntry {env : BlockWrite} {key : UInt64} {v : Value} {d : Nat} {block : KvBlock} :
    Valid v → m.destination = some d → m.stor.directory.findEntryForKey key = none →
    env.insert = .mallocNull →
    Outcome port m (.set env key (some v)) (.error .nullPointer (m.wrote d block env.write))
  | noNode {env : BlockWrite} {key : UInt64} {v : Value} {d : Nat} {block : KvBlock} :
    Valid v → m.destination = some d → m.stor.directory.findEntryForKey key = none →
    env.insert = .tsearchNull → env.write.code = some 0 →
    Carries block key v.size (some v.data) m.nextSequence →
    Outcome port m (.set env key (some v)) (.ok ⟨-ENOMEM, none⟩ (m.wrote d block env.write))
  -- The entry names the new block, which takes the place of the old one in the bitmap.
  | stored {env : BlockWrite} {key : UInt64} {v : Value} {d : Nat} {block : KvBlock}
      {allocator : KvBlockAllocator} :
    Valid v → env.allocated = true → m.destination = some d → env.write.code = some 0 →
    (∀ entry, m.stor.directory.findEntryForKey key = some entry →
      entry.sequence.toNat < m.nextSequence.toNat) →
    (m.stor.directory.findEntryForKey key = none → env.insert = .inserted) →
    Carries block key v.size (some v.data) m.nextSequence →
    Marks m.stor.directory m.stor.blockAllocator key d allocator →
    Outcome port m (.set env key (some v)) (.ok ⟨0, none⟩ (m.committed d block env.write
      ⟨key, m.nextSequence, d, v.size.toUInt16⟩ allocator))
  -- The deletion is written, but its block stays free.
  | removed {env : BlockWrite} {key : UInt64} {d : Nat} {block : KvBlock} {entry : DirectoryEntry}
      {allocator : KvBlockAllocator} :
    m.destination = some d → env.write.code = some 0 →
    m.stor.directory.findEntryForKey key = some entry → entry.dataBytes ≠ 0 →
    Carries block key 0 none m.stor.currentSequenceNumber →
    Frees m.stor.blockAllocator entry.dataBlock allocator →
    Outcome port m (.del env key) (.ok ⟨0, none⟩ (removed m d block env.write key allocator))

section Outcome

variable {port : Port} {m : Machine}

theorem Valid.payload {v : Value} (valid : Valid v) : Payload v.size (some v.data) := by
  have small := valid.2
  simp only [MAXBLOB] at small
  refine ⟨small, ?_⟩
  intro source same
  cases same
  exact v.size_le

/-- The entry has the size that was given. -/
theorem Valid.dataBytes {v : Value} (valid : Valid v) : v.size.toUInt16.toNat = v.size.toNat := by
  have small := valid.2
  simp only [MAXBLOB] at small
  rw [UInt64.toNat_toUInt16]
  omega

theorem Valid.live {v : Value} (valid : Valid v) : v.size.toUInt16 ≠ 0 := by
  intro zero
  have size := valid.dataBytes
  rw [zero] at size
  exact valid.1 size.symm

theorem Valid.data {v : Value} (valid : Valid v) {block : KvBlock} {key sequence : UInt64}
    (carries : Carries block key v.size (some v.data) sequence) : block.header.dataBytes ≠ 0 := by
  rw [(carries.holds valid.payload.fits 0).dataBytes]
  exact valid.live

theorem set_outcome (usable : Usable m.stor) (env : BlockWrite) (key : UInt64)
    (v : Option Value) : Outcome port m (.set env key v) (exec port m (.set env key v)) := by
  rw [exec_set]
  cases v with
  | none =>
    cases port with
    | cpp => exact .rejected rfl (by simp [Call.Accepted])
    | c => exact .nullPointer rfl (by simp [Call.PointersValid])
  | some v =>
    simp only [set]
    by_cases bad : v.size.toNat = 0 ∨ v.size.toNat > MAXBLOB
    · rw [if_pos bad]
      refine .rejected rfl ?_
      rintro ⟨_, same, valid⟩
      cases same
      rcases bad with zero | large
      · exact valid.1 zero
      · exact absurd valid.2 (Nat.not_le.mpr large)
    · have valid : Valid v := by
        simp only [not_or, Nat.not_lt] at bad
        exact bad
      have accepted : Call.Accepted m (.set env key (some v)) := ⟨v, rfl, valid⟩
      rw [if_neg bad]
      cases allocated : env.allocated with
      | false => exact .nullPointer rfl (by simp [Call.PointersValid, allocated])
      | true =>
        simp only [not_true_eq_false, if_false]
        obtain ⟨block, carries, outcome⟩ :=
          usable.kvAppend_outcome env.toBlockWrite key valid.payload
        generalize kvAppend env.toBlockWrite key v.size (some v.data) m = result at outcome
        cases outcome with
        | full found => exact .full rfl accepted found
        | failed found code nonzero => exact .failed rfl accepted found code nonzero
        | stopped found code => exact .stopped rfl found code
        | reused found code lookup same =>
          exact .asserted valid allocated found code lookup
            (Nat.le_of_eq (congrArg UInt64.toNat same))
        | stale found code lookup older =>
          exact .asserted valid allocated found code lookup (Nat.le_of_lt older)
        | mallocNull found _ absent insert => exact .noEntry valid found absent insert
        | tsearchNull found code absent insert =>
          exact .noNode valid found absent insert code carries
        | done found code newest inserts marks =>
          exact .stored valid allocated found code newest inserts carries marks

theorem del_outcome (usable : Usable m.stor) (env : BlockWrite) (key : UInt64) :
    Outcome port m (.del env key) (exec port m (.del env key)) := by
  rw [exec_del]
  simp only [del, bind_apply, getStor_apply]
  by_cases live : m.stor.directory.Live key
  · obtain ⟨entry, found, live'⟩ := live
    have accepted : Call.Accepted m (.del env key) := ⟨entry, found, live'⟩
    simp only [lookupKey_live found live']
    cases allocated : env.allocated with
    | false => exact .nullPointer rfl (by simp [Call.PointersValid, allocated])
    | true =>
      have payload : Payload 0 none := ⟨by decide, fun _ impossible => by cases impossible⟩
      obtain ⟨block, initialised, carries⟩ :=
        init_carries env.memory key m.stor.currentSequenceNumber payload
      simp only [not_true_eq_false, if_false, bind_apply, setStor_apply, lift_ok,
        show env.memory.init key 0 none m.stor.currentSequenceNumber = .ok block from initialised,
        usable.getAppendPoint]
      cases destination : m.destination with
      | none =>
        simp only [Option.getD_none, if_true]
        exact .full rfl accepted destination
      | some d =>
        have inRange := (usable.destination_free destination).1
        simp only [Option.getD_some, if_neg (usable.covers.fits.ne_max inRange), bind_apply, onFile,
          usable.writeBlock destination env.write block]
        cases code : env.write.code with
        | none => exact .stopped rfl destination code
        | some ret =>
          by_cases nonzero : ret ≠ 0
          · simp only [if_pos nonzero]
            exact .failed rfl accepted destination code nonzero
          · obtain rfl : ret = 0 := not_not.mp nonzero
            obtain ⟨freed, cleared, size, set⟩ :=
              KvBlockAllocator.freeBlock_spec usable.covers.fits (usable.covers.inside found)
            have frees : Frees m.stor.blockAllocator entry.dataBlock freed := by
              refine ⟨size, fun b => ?_⟩
              rw [set, Finset.mem_erase]
              exact And.comm
            simp only [removeKey_live found live', cleared, lift_ok, bind_apply, setStor_apply,
              ne_eq, not_true_eq_false, if_false, pure_apply]
            exact .removed destination code found live' carries frees
  · simp only [lookupKey_dead live]
    exact .rejected rfl live

theorem get_outcome (allocated : Bool) (read : ReadResult) (key : UInt64) (v : Value) :
    Outcome port m (.get allocated read key v) (exec port m (.get allocated read key v)) := by
  simp only [exec, perform, bind_apply, getStor_apply, getFile_apply]
  cases returned : get allocated read m.stor m.file key v with
  | ok result => exact .got
  | error fault =>
    refine .getFault ?_
    simp only [get, bind, Except.bind, pure, Except.pure] at returned
    split at returned
    · cases returned
    · split at returned
      · cases returned
      · split at returned
        · cases returned
          exact .inl rfl
        · split at returned
          · cases returned
          · split at returned
            · cases returned
            · rw [memcpy] at returned
              split at returned
              · rename_i copied
                split at copied
                · cases copied
                · cases copied
                  cases returned
                  exact .inr rfl
              · cases returned

theorem exec_outcome (usable : Usable m.stor) {call : Call} (inProcess : call.InProcess) :
    Outcome port m call (exec port m call) := by
  cases call with
  | set env key v => exact set_outcome usable env key v
  | del env key => exact del_outcome usable env key
  | get allocated read key v => exact get_outcome allocated read key v
  | reopen _ _ => exact absurd inProcess id

end Outcome

end KeyValueStore.KvStore
