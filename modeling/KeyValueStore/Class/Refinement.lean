import KeyValueStore.Class.Process
import KeyValueStore.Submission.Serving

/-! # The class store of one process is a map

From its creation until it is closed the store answers as the map that successful calls
update (`map_refinement`).  Its marked blocks are those of the keys that are present, so
that one block more than keys is enough, whatever was deleted before. -/

namespace KeyValueStore.KvStore

open Runs

/-- Calls that returned 0 change the map. -/
def record (mapping : Mapping) (call : Call) (response : Response) : Mapping :=
  if response.ret = 0 then
    match call with
    | .set _ key (some v) => Function.update mapping key (some v.bytes)
    | .del _ key => Function.update mapping key none
    | .set _ _ none | .get .. | .reopen .. => mapping
  else mapping

/-- At most `MAXKEYS` keys are present. -/
def Few (mapping : Mapping) : Prop :=
  ∃ present : Finset UInt64, present.card ≤ MAXKEYS ∧ ∀ key, mapping key ≠ none → key ∈ present

/-- What the response of a call tells of the map. -/
def Answers (mapping : Mapping) : Call → Response → Prop
  | .set _ _ v, response =>
    (response.ret = -EINVAL ↔ ¬ ∃ value, v = some value ∧ Valid value) ∧
      (response.ret = 0 ∨ response.ret = -EINVAL ∨ response.ret = -ENOSPC) ∧
      (Few mapping → response.ret ≠ -ENOSPC)
  | .del _ key, response =>
    (response.ret = -ENOENT ↔ mapping key = none) ∧
      (response.ret = 0 ∨ response.ret = -ENOENT ∨ response.ret = -ENOSPC) ∧
      (Few mapping → response.ret ≠ -ENOSPC)
  | .get _ read key v, response => KeyValueStore.Answers mapping (.get read key v) response
  | .reopen .., _ => False

/-- A call of a process to which nothing happens. -/
def Undisturbed (m : Machine) (call : Call) : Prop :=
  call.InProcess ∧ call.IoSucceeds ∧ call.MemorySucceeds ∧ NoWrap m call

/-- The bits that are set are those of the blocks of the keys that are present, one for each. -/
structure BitsOf (m : Machine) (mapping : Mapping) : Prop where
  present : ∀ key, mapping key ≠ none ↔
    ∃ entry, m.stor.directory.findEntryForKey key = some entry
  bits : ∀ b, m.stor.blockAllocator.isSet b = .ok true ↔
    ∃ key entry, m.stor.directory.findEntryForKey key = some entry ∧ entry.dataBlock = b
  distinct : ∀ key key' entry entry', m.stor.directory.findEntryForKey key = some entry →
    m.stor.directory.findEntryForKey key' = some entry' → entry.dataBlock = entry'.dataBlock →
    key = key'

section Map

variable {m next : Machine} {d : Nat} {key : UInt64} {v : Value} {block : KvBlock}
  {entry : DirectoryEntry}

theorem Intact.legible (intact : Intact m) : Legible m where
  opened := intact.steady.usable.opened
  raw := intact.steady.usable.raw
  small := by
    intro key entry found
    have inside := intact.steady.usable.covers.inside found
    rw [intact.steady.size, capacity_eq] at inside
    exact Nat.lt_trans inside (by decide)
  valid := by
    intro key entry found
    obtain ⟨block, valid, _⟩ := intact.holds found
    exact ⟨block, valid⟩

theorem Intact.owned (intact : Intact m) (b : Nat) :
    b ∈ m.stor.blockAllocator.allocated ↔
      ∃ key entry, m.stor.directory.findEntryForKey key = some entry ∧ entry.dataBlock = b := by
  rw [intact.marksLive.marked]
  constructor
  · rintro ⟨key, entry, found, _, block⟩
    exact ⟨key, entry, found, block⟩
  · rintro ⟨key, entry, found, block⟩
    exact ⟨key, entry, found, intact.live found, block⟩

theorem Intact.injective (intact : Intact m) {key key' : UInt64}
    {entry entry' : DirectoryEntry} (found : m.stor.directory.findEntryForKey key = some entry)
    (found' : m.stor.directory.findEntryForKey key' = some entry')
    (shared : entry.dataBlock = entry'.dataBlock) : key = key' :=
  intact.marksLive.unshared found found' (intact.live found) (intact.live found') shared

theorem Intact.present (intact : Intact m) (key : UInt64) :
    m.mapping key ≠ none ↔ ∃ entry, m.stor.directory.findEntryForKey key = some entry := by
  rw [Ne, intact.legible.mapping_eq_none, not_not]
  constructor
  · rintro ⟨entry, found, _⟩
    exact ⟨entry, found⟩
  · rintro ⟨entry, found⟩
    exact ⟨entry, found, intact.live found⟩

theorem Intact.bitsOf (intact : Intact m) : BitsOf m m.mapping where
  present := intact.present
  bits := by
    intro b
    rw [KvBlockAllocator.isSet_iff intact.steady.usable.covers.fits, intact.owned]
  distinct := by
    intro key key' entry entry'
    exact intact.injective

/-- With one block more than keys there is always one to write to. -/
theorem Intact.room (intact : Intact m) (few : Few m.mapping) : m.destination ≠ none := by
  obtain ⟨present, card, covers⟩ := few
  rw [Ne, intact.steady.destination_eq_none, card_allocated intact.owned intact.injective]
  have subset : m.stor.directory.keys ⊆ present := by
    intro key member
    exact covers key ((intact.present key).mpr (KvDirectory.mem_keys.mp member))
  have le := Finset.card_le_card subset
  rw [capacity]
  omega

/-- A write elsewhere leaves the values of the entries alone. -/
theorem Intact.value_kept (intact : Intact m) (appended : Appended m d block next)
    (found : m.stor.directory.findEntryForKey key = some entry) :
    entryValue next.file entry = entryValue m.file entry := by
  obtain ⟨held, valid, _⟩ := intact.holds found
  have valid' := intact.untouched appended found
  rw [valid] at valid'
  have stored := (validBlock_eq_some.mp valid).1
  exact entryValue_congr ((validBlock_eq_some.mp valid').1.trans stored.symm)

theorem Intact.mapping_stored (intact : Intact m) (valid : Valid v)
    (stored : Stored m key v d block next) :
    next.mapping = Function.update m.mapping key (some v.bytes) := by
  refine Machine.mapping_update ?_ ?_ ?_
  · have held : validBlock next.file d = some block := by
      rw [stored.appended.file, Function.update_self]
    rw [Machine.mapping_of_found stored.find]
    exact entryValue_carries stored.carries valid.payload.fits valid.1
      (validBlock_eq_some.mp held).1 rfl
  · intro key' different
    rw [stored.directory, KvDirectory.find_withEntry, if_neg different]
  · intro key' entry found _
    exact intact.value_kept stored.appended found

theorem Intact.mapping_deleted (intact : Intact m)
    (deleted : Deleted m key d block next) :
    next.mapping = Function.update m.mapping key none := by
  refine Machine.mapping_update ?_ ?_ ?_
  · apply Machine.mapping_of_absent
    rw [deleted.directory, find_without, if_pos rfl]
  · intro key' different
    rw [deleted.directory, find_without, if_neg different]
  · intro key' entry found _
    exact intact.value_kept deleted.appended found

end Map

/-! ## Runs -/

/-- The store is in service and holds this map. -/
structure Represents (m : Machine) (mapping : Mapping) : Prop where
  inService : InService m
  mapping : m.mapping = mapping

theorem InService.bitsOf {m : Machine} (inService : InService m) : BitsOf m m.mapping :=
  inService.intact.bitsOf

theorem represents_fresh (fd : Nat) : Represents (fresh fd) Mapping.empty :=
  ⟨inService_fresh fd, rfl⟩

section Step

variable {port : Port} {m : Machine} {call : Call}

theorem Intact.step_get (intact : Intact m) (key : UInt64) (v : Value) :
    ∃ response, exec port m (.get true .full key v) = .ok response m ∧
      Answers m.mapping (.get true .full key v) response := by
  rw [exec_get]
  obtain ⟨response, returned, answers | ⟨undelivered, _⟩⟩ :=
    intact.legible.get .full key v intact.fits
  · exact ⟨response, returned, answers⟩
  · exact absurd trivial undelivered

/-- The code of an update answers as it should. -/
theorem Intact.answers_update (intact : Intact m) {env : BlockWrite}
    (named : call.env = some env) {ret : Int}
    (code : call.Accepted m ∧ (ret = 0 ∨ ret = -ENOSPC ∧ ¬ Few m.mapping) ∨
      ¬ call.Accepted m ∧ ret = call.rejection) : Answers m.mapping call ⟨ret, none⟩ := by
  obtain ⟨invalid, missing, zero, _⟩ := enospc_ne
  have zeros : (0 : Int) ≠ -EINVAL ∧ (0 : Int) ≠ -ENOENT := by decide
  cases call with
  | set env key v =>
    rcases code with ⟨accepted, rfl | ⟨rfl, many⟩⟩ | ⟨refused, rfl⟩
    · exact ⟨iff_of_false zeros.1 fun refused => refused accepted, .inl rfl, fun _ => zero⟩
    · exact ⟨iff_of_false invalid.symm fun refused => refused accepted, .inr (.inr rfl),
        fun few => absurd few many⟩
    · exact ⟨iff_of_true rfl refused, .inr (.inl rfl), fun _ => invalid⟩
  | del env key =>
    have dead := @Legible.mapping_eq_none m key intact.legible
    rcases code with ⟨accepted, rfl | ⟨rfl, many⟩⟩ | ⟨refused, rfl⟩
    · exact ⟨iff_of_false zeros.2 fun none_ => dead.mp none_ accepted, .inl rfl, fun _ => zero⟩
    · exact ⟨iff_of_false missing.symm fun none_ => dead.mp none_ accepted, .inr (.inr rfl),
        fun few => absurd few many⟩
    · exact ⟨iff_of_true rfl (dead.mpr refused), .inr (.inl rfl), fun _ => missing⟩
  | get _ _ _ _ | reopen _ _ => cases named

theorem record_of_ne_zero {mapping : Mapping} {response : Response} (failed : response.ret ≠ 0) :
    record mapping call response = mapping := if_neg failed

/-- What a set or a deletion answers and makes of the map. -/
theorem Intact.step_update (intact : Intact m) {env : BlockWrite}
    (named : call.env = some env) (pointers : call.PointersValid port)
    (undisturbed : Undisturbed m call) :
    ∃ response next, exec port m call = .ok response next ∧ Answers m.mapping call response ∧
      next.mapping = record m.mapping call response := by
  obtain ⟨inProcess, io, memory, noWrap⟩ := undisturbed
  have outcome := @exec_outcome port m intact.steady.usable call inProcess
  generalize exec port m call = result at outcome
  cases outcome with
  | got | getFault _ => cases named
  | rejected _ refused =>
    exact ⟨_, _, rfl, intact.answers_update named (.inr ⟨refused, rfl⟩),
      (record_of_ne_zero call.rejection_ne_zero).symm⟩
  | nullPointer _ invalid => exact absurd pointers invalid
  | full _ accepted none_ =>
    have many : ¬ Few m.mapping := fun few => intact.room few none_
    exact ⟨_, _, rfl, intact.answers_update named (.inl ⟨accepted, .inr ⟨rfl, many⟩⟩),
      (record_of_ne_zero enospc_ne.2.2.1.symm).symm⟩
  | failed named' _ _ code nonzero =>
    rw [io.write named'] at code
    exact absurd (Option.some.inj code).symm nonzero
  | stopped named' _ code =>
    rw [io.write named'] at code
    cases code
  | asserted valid _ _ _ lookup order =>
    have newer := intact.counted.fresh (noWrap ⟨_, rfl, valid⟩) lookup
    omega
  | noEntry _ _ _ insert | noNode _ _ _ insert _ _ =>
    rw [memory.2] at insert
    cases insert
  | stored valid _ found code _ _ carries marks =>
    exact ⟨_, _, rfl, intact.answers_update named (.inl ⟨⟨_, rfl, valid⟩, .inl rfl⟩),
      intact.mapping_stored valid (intact.steady.stored found code carries marks)⟩
  | removed found code lookup live carries frees =>
    exact ⟨_, _, rfl, intact.answers_update named (.inl ⟨⟨_, lookup, live⟩, .inl rfl⟩),
      intact.mapping_deleted (intact.steady.deleted found code lookup carries frees)⟩

/-- A call of either port that uses no NULL pointer. -/
theorem Represents.advance {mapping : Mapping} (represents : Represents m mapping)
    (pointers : call.PointersValid port) (undisturbed : Undisturbed m call) :
    ∃ response next, exec port m call = .ok response next ∧ Answers mapping call response ∧
      Represents next (record mapping call response) := by
  obtain ⟨inService, rfl⟩ := represents
  obtain ⟨inProcess, io, memory, noWrap⟩ := id undisturbed
  have progress : ∃ response next, exec port m call = .ok response next ∧
      Answers m.mapping call response ∧ next.mapping = record m.mapping call response := by
    cases call with
    | get allocated read key v =>
      obtain rfl : allocated = true := memory
      obtain rfl : read = .full := io
      obtain ⟨response, returned, answers⟩ := @Intact.step_get port m inService.intact key v
      refine ⟨response, m, returned, answers, ?_⟩
      simp [record]
    | set env key v => exact inService.intact.step_update rfl pointers undisturbed
    | del env key => exact inService.intact.step_update rfl pointers undisturbed
    | reopen _ _ => exact absurd inProcess id
  obtain ⟨response, next, returned, answers, mapping⟩ := progress
  exact ⟨response, next, returned, answers, inService.step inProcess io noWrap returned, mapping⟩

theorem Represents.step {mapping : Mapping} (represents : Represents m mapping)
    (undisturbed : Undisturbed m call) :
    ∃ response next, exec .cpp m call = .ok response next ∧ Answers mapping call response ∧
      Represents next (record mapping call response) := by
  refine represents.advance ?_ undisturbed
  obtain ⟨_, _, memory, _⟩ := undisturbed
  cases call with
  | set env key v => exact ⟨memory.1, by rintro ⟨⟩⟩
  | del env key => exact memory.1
  | get _ _ _ _ => exact memory
  | reopen _ _ => trivial

end Step

/-- No call of a run in one process faults, every response agrees with the map of the calls
that returned 0 before it, no set or deletion is told that there is no room while at most
`MAXKEYS` keys are present, and the bits that are set at its end are those of the keys that
are present then. -/
theorem map_refinement {m : Machine} (created : Created .cpp m) {calls : List Call}
    (undisturbed : Allowed (exec .cpp) Undisturbed m calls) :
    ∃ responses last, run (exec .cpp) m calls = .ok responses last ∧
      Conforms record Answers Mapping.empty calls responses ∧
      BitsOf last (track record Mapping.empty calls responses) := by
  obtain ⟨fd, rfl⟩ := created_iff.mp created
  obtain ⟨responses, last, returned, conforms, represents⟩ :=
    run_refines Represents.step (represents_fresh fd) undisturbed
  refine ⟨responses, last, returned, conforms, ?_⟩
  rw [← represents.mapping]
  exact represents.inService.bitsOf

theorem succ_toNat_le (counter : UInt64) : (counter + 1).toNat ≤ counter.toNat + 1 := by
  rw [UInt64.toNat_add]
  exact Nat.mod_le _ _

/-- The counter goes up by at most one with each call. -/
theorem exec_counter {port : Port} {m next : Machine} (usable : Usable m.stor) {call : Call}
    (inProcess : call.InProcess) {response : Response}
    (returned : exec port m call = .ok response next) :
    next.stor.currentSequenceNumber.toNat ≤ m.stor.currentSequenceNumber.toNat + 1 := by
  have outcome := @exec_outcome port m usable call inProcess
  rw [returned] at outcome
  cases outcome with
  | got | rejected _ _ => exact Nat.le_succ _
  | full _ _ _ | failed _ _ _ _ _ | noNode _ _ _ _ _ _ | stored _ _ _ _ _ _ _ _
  | removed _ _ _ _ _ _ => exact succ_toNat_le _

/-- A run that is shorter than the range of the counter does not wrap it. -/
theorem InService.allowed_of_short {port : Port} : ∀ {calls : List Call} {m : Machine},
    InService m → (∀ call ∈ calls, call.InProcess ∧ call.IoSucceeds ∧ call.MemorySucceeds) →
    m.stor.currentSequenceNumber.toNat + calls.length < 2 ^ 64 →
    Allowed (exec port) Undisturbed m calls
  | [], _, _, _, _ => trivial
  | call :: calls, m, inService, each, short => by
    rw [List.length_cons] at short
    obtain ⟨inProcess, io, memory⟩ := each call (List.mem_cons_self ..)
    have noWrap : NoWrap m call := fun _ => by omega
    refine ⟨⟨inProcess, io, memory, noWrap⟩, fun response next returned => ?_⟩
    have counter := exec_counter inService.steady.usable inProcess returned
    refine (inService.step inProcess io noWrap returned).allowed_of_short ?_ (by omega)
    exact fun call' member => each call' (List.mem_cons_of_mem _ member)

/-- The set of key 2 goes over the block of the deletion. -/
def reusingRun : List Call :=
  [.set .quiet 1 (some .one), .get true .full 1 .one, .del .quiet 1, .set .quiet 2 (some .one)]

theorem map_refinement_reusing :
    ∃ responses last, run (exec .cpp) (fresh 3) reusingRun = .ok responses last ∧
      Conforms record Answers Mapping.empty reusingRun responses ∧
      BitsOf last (track record Mapping.empty reusingRun responses) := by
  refine map_refinement (created_iff.mpr ⟨3, rfl⟩)
    ((inService_fresh 3).allowed_of_short ?_ (by decide))
  simp only [reusingRun, List.forall_mem_cons]
  exact ⟨⟨trivial, rfl, rfl, rfl⟩, ⟨trivial, rfl, rfl⟩, ⟨trivial, rfl, rfl, rfl⟩,
    ⟨trivial, rfl, rfl, rfl⟩, by simp⟩

end KeyValueStore.KvStore
