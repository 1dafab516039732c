import KeyValueStore.Class.Refinement
import KeyValueStore.Submission.Codes

/-! # Failing calls of the class store

One process of the class store, in either text, with reads that may fail and writes that may
stop anywhere in their block.  A deletion changes nothing in memory before its block is in the
file, and a set no more than the counter and the append point, so that a call that fails
changes nothing that a later call can see (`class_failures_change_nothing`). -/

namespace KeyValueStore.KvStore

open Runs

/-- The calls of one process whose writes return, and that use no NULL pointer. -/
structure Call.ComesBack (port : Port) (call : Call) : Prop where
  inProcess : call.InProcess
  pointers : call.PointersValid port
  write : ∀ env, call.env = some env → env.write.code ≠ none
  insert : ∀ env, call.env = some env → env.insert ≠ .mallocNull

/-- What holds of a call, with the map of the calls that returned 0 before it. -/
structure Contained (m : Machine) (mapping : Mapping) (call : Call) (response : Response)
    (next : Machine) : Prop where
  directory : response.ret ≠ 0 → ∀ key, next.stor.directory.findEntryForKey key =
    m.stor.directory.findEntryForKey key
  bits : response.ret ≠ 0 → ∀ b, next.stor.blockAllocator.isSet b = m.stor.blockAllocator.isSet b
  /-- A failing get leaves the caller's value untouched. -/
  value : ∀ allocated read key v, call = .get allocated read key v → response.ret ≠ 0 →
    response.value = some v
  /-- A get whose read succeeds, and any get that returns 0, agrees with the map. -/
  agrees : ∀ allocated read key v, call = .get allocated read key v →
    read.Delivers ∨ response.ret = 0 → Answers mapping call response
  /-- Only an invalid value is rejected, and only a deletion of a key that is absent. -/
  invalid : ∀ env key v, call = .set env key v →
    (response.ret = -EINVAL ↔ ¬ ∃ value, v = some value ∧ Valid value)
  missing : ∀ env key, call = .del env key → (response.ret = -ENOENT ↔ mapping key = none)

/-- The store of a process that has met faults. -/
structure Withstands (m : Machine) (mapping : Mapping) : Prop where
  intact : Intact m
  mapping : m.mapping = mapping

section Update

variable {m : Machine} {d : Nat} {call : Call} {env : BlockWrite}

theorem Intact.mapping_wrote (intact : Intact m) (destination : m.destination = some d)
    (block : KvBlock) (write : WriteResult) : (m.wrote d block write).mapping = m.mapping := by
  refine Machine.mapping_congr (fun _ => rfl) ?_
  intro key entry found
  exact entryValue_congr (intact.blockAt_wrote destination block write found)

/-- An update that returns 0, or whose code is not that of a check it has passed. -/
theorem Intact.contained_update (intact : Intact m) (named : call.env = some env) {ret : Int}
    {next : Machine}
    (kept : ret ≠ 0 → next.stor.directory = m.stor.directory ∧
      next.stor.blockAllocator = m.stor.blockAllocator)
    (code : call.Accepted m ∧ Passed ret ∨ ¬ call.Accepted m ∧ ret = call.rejection) :
    Contained m m.mapping call ⟨ret, none⟩ next := by
  have notGet : ∀ {allocated read key v}, call ≠ .get allocated read key v := by
    rintro allocated read key v rfl
    cases named
  refine ⟨?_, ?_, ?_, ?_, ?_, ?_⟩
  · intro failed key
    rw [(kept failed).1]
  · intro failed b
    rw [(kept failed).2]
  · intro allocated read key v same
    exact absurd same notGet
  · intro allocated read key v same
    exact absurd same notGet
  · rintro env key v rfl
    rcases code with ⟨accepted, _, apart⟩ | ⟨refused, rfl⟩
    · exact iff_of_false apart fun refused => refused accepted
    · exact iff_of_true rfl refused
  · rintro env key rfl
    rw [intact.legible.mapping_eq_none]
    rcases code with ⟨accepted, apart, _⟩ | ⟨refused, rfl⟩
    · exact iff_of_false apart fun dead => dead accepted
    · exact iff_of_true rfl refused

end Update

section Step

variable {port : Port} {m : Machine} {call : Call}

/-- What a set or a deletion leaves, whatever its write does. -/
theorem Intact.update_contained (intact : Intact m) {env : BlockWrite}
    (named : call.env = some env) (comesBack : call.ComesBack port) (noWrap : NoWrap m call) :
    ∃ response next, exec port m call = .ok response next ∧
      Contained m m.mapping call response next ∧ next.mapping = record m.mapping call response := by
  have outcome := @exec_outcome port m intact.steady.usable call comesBack.inProcess
  generalize exec port m call = result at outcome
  cases outcome with
  | got | getFault _ => cases named
  | rejected _ refused =>
    exact ⟨_, _, rfl, intact.contained_update named (fun _ => ⟨rfl, rfl⟩) (.inr ⟨refused, rfl⟩),
      (record_of_ne_zero call.rejection_ne_zero).symm⟩
  | nullPointer _ invalid => exact absurd comesBack.pointers invalid
  | full _ accepted _ =>
    exact ⟨_, _, rfl,
      intact.contained_update named (fun _ => ⟨rfl, rfl⟩) (.inl ⟨accepted, by decide⟩),
      (record_of_ne_zero enospc_ne.2.2.1.symm).symm⟩
  | failed _ accepted destination code nonzero =>
    refine ⟨_, _, rfl, intact.contained_update named (fun _ => ⟨rfl, rfl⟩)
      (.inl ⟨accepted, (WriteResult.code_ioCode code).others.2⟩), ?_⟩
    rw [record_of_ne_zero nonzero]
    exact intact.mapping_wrote destination _ _
  | stopped named' _ code => exact absurd code (comesBack.write _ named')
  | asserted valid _ _ _ lookup order =>
    have newer := intact.counted.fresh (noWrap ⟨_, rfl, valid⟩) lookup
    omega
  | noEntry _ _ _ insert => exact absurd insert (comesBack.insert _ rfl)
  | noNode valid destination _ _ _ _ =>
    refine ⟨_, _, rfl, intact.contained_update named (fun _ => ⟨rfl, rfl⟩)
      (.inl ⟨⟨_, rfl, valid⟩, by decide⟩), ?_⟩
    rw [record_of_ne_zero (by decide)]
    exact intact.mapping_wrote destination _ _
  | stored valid _ destination code _ _ carries marks =>
    exact ⟨_, _, rfl, intact.contained_update named (fun failed => absurd rfl failed)
      (.inl ⟨⟨_, rfl, valid⟩, by decide⟩),
      intact.mapping_stored valid (intact.steady.stored destination code carries marks)⟩
  | removed destination code lookup live carries frees =>
    exact ⟨_, _, rfl, intact.contained_update named (fun failed => absurd rfl failed)
      (.inl ⟨⟨_, lookup, live⟩, by decide⟩),
      intact.mapping_deleted (intact.steady.deleted destination code lookup carries frees)⟩

theorem Intact.get_contained (intact : Intact m) (read : ReadResult) (key : UInt64) (v : Value) :
    ∃ response, exec port m (.get true read key v) = .ok response m ∧
      Contained m m.mapping (.get true read key v) response m := by
  rw [exec_get]
  obtain ⟨response, returned, answers⟩ := intact.legible.get read key v intact.fits
  refine ⟨response, returned, fun _ _ => rfl, fun _ _ => rfl, ?_, ?_, ?_, ?_⟩
  · rintro _ _ _ _ ⟨⟩ failed
    rcases answers with answers | ⟨_, _, value⟩
    · exact answers.value_of_failed failed
    · exact value
  · -- With its read the get answers from the map, and so does any get that returns 0.
    rintro _ _ _ _ ⟨⟩ succeeds
    rcases answers with answers | ⟨failed, nonzero, _⟩
    · exact answers
    · rcases succeeds with full | zero
      · exact absurd full failed
      · exact absurd zero nonzero
  · rintro _ _ _ ⟨⟩
  · rintro _ _ ⟨⟩

theorem Withstands.step {mapping : Mapping} (withstands : Withstands m mapping)
    (faulty : call.ComesBack port ∧ NoWrap m call) :
    ∃ response next, exec port m call = .ok response next ∧ Contained m mapping call response next ∧
      Withstands next (record mapping call response) := by
  obtain ⟨intact, rfl⟩ := withstands
  obtain ⟨comesBack, noWrap⟩ := faulty
  have progress : ∃ response next, exec port m call = .ok response next ∧
      Contained m m.mapping call response next ∧ next.mapping = record m.mapping call response := by
    cases call with
    | set env key v => exact intact.update_contained rfl comesBack noWrap
    | del env key => exact intact.update_contained rfl comesBack noWrap
    | get allocated read key v =>
      obtain rfl : allocated = true := comesBack.pointers
      obtain ⟨response, returned, contained⟩ := @Intact.get_contained port m intact read key v
      refine ⟨response, m, returned, contained, ?_⟩
      simp [record]
    | reopen _ _ => exact absurd comesBack.inProcess id
  obtain ⟨response, next, returned, contained, mapping⟩ := progress
  exact ⟨response, next, returned, contained, intact.step comesBack.inProcess noWrap returned,
    mapping⟩

end Step

/-- At every point of a run with faults, the next call is contained. -/
theorem class_failures_change_nothing {port : Port} {m : Machine} (created : Created port m)
    {calls : List Call}
    (faulty : Allowed (exec port) (fun m call => call.ComesBack port ∧ NoWrap m call) m calls) :
    ∃ responses last, run (exec port) m calls = .ok responses last ∧
      ∀ call, call.ComesBack port → NoWrap last call →
        ∃ response next, exec port last call = .ok response next ∧
          Contained last (track record Mapping.empty calls responses) call response next := by
  obtain ⟨fd, rfl⟩ := created_iff.mp created
  have step : ∀ {m : Machine} {mapping : Mapping} {call : Call}, Withstands m mapping →
      call.ComesBack port ∧ NoWrap m call →
      ∃ response next, exec port m call = .ok response next ∧ True ∧
        Withstands next (record mapping call response) := by
    intro m mapping call withstands faulty
    obtain ⟨response, next, returned, _, withstands'⟩ := withstands.step faulty
    exact ⟨response, next, returned, trivial, withstands'⟩
  obtain ⟨responses, last, returned, _, withstands⟩ :=
    @run_refines _ _ _ _ _ (exec port) _ record (fun _ _ _ => True) Withstands step calls _ _
      ⟨(inService_fresh fd).intact, rfl⟩ faulty
  refine ⟨responses, last, returned, ?_⟩
  intro call comesBack noWrap
  obtain ⟨response, next, returned', contained, _⟩ := withstands.step ⟨comesBack, noWrap⟩
  exact ⟨response, next, returned', contained⟩

/-- A get behind a set whose node could not be made, in the text in C. -/
theorem class_failures_change_nothing_no_node :
    ∃ responses last,
      run (exec .c) (fresh 3) [.set { BlockWrite.quiet with insert := .tsearchNull } 1
        (some .one)] = .ok responses last ∧
      ∃ response next, exec .c last (.get true .full 1 .one) = .ok response next ∧
        Contained last (track record Mapping.empty
          [.set { BlockWrite.quiet with insert := .tsearchNull } 1 (some .one)] responses)
          (.get true .full 1 .one) response next := by
  have comesBack : Call.ComesBack .c
      (.set { BlockWrite.quiet with insert := .tsearchNull } 1 (some .one)) := by
    refine ⟨trivial, ⟨rfl, fun _ => by simp⟩, ?_, ?_⟩
    · rintro _ ⟨⟩ code
      cases code
    · rintro _ ⟨⟩ insert
      cases insert
  obtain ⟨responses, last, returned, contained⟩ :=
    @class_failures_change_nothing .c (fresh 3) (created_iff.mpr ⟨3, rfl⟩) [_]
      ⟨⟨comesBack, fun _ => by decide⟩, fun _ _ _ => trivial⟩
  refine ⟨responses, last, returned, contained _ ⟨trivial, rfl, ?_, ?_⟩ (absurd · id)⟩
  · rintro _ ⟨⟩
  · rintro _ ⟨⟩

end KeyValueStore.KvStore
