import KeyValueStore.Submission.Serving

/-! # Failing calls within one process

One process, with I/O that may fail at any step of any call and writes that may stop
anywhere in their block.  What was written half-way is in no entry, so a call that
fails changes nothing that a later call can see (`failed_calls_change_nothing`). -/

namespace KeyValueStore

open Runs

/-- What holds of a call, with the map of the calls that returned 0 before it. -/
structure Contained (m : Machine) (mapping : Mapping) (call : Call) (response : Response)
    (next : Machine) : Prop where
  directory : response.ret ≠ 0 → ∀ key, next.stor.directory.findEntryForKey key =
    m.stor.directory.findEntryForKey key
  bits : response.ret ≠ 0 → ∀ b, next.stor.blockAllocator.isSet b = m.stor.blockAllocator.isSet b
  /-- A failing get leaves the caller's value untouched. -/
  value : ∀ read key v, call = .get read key v → response.ret ≠ 0 → response.value = some v
  /-- A get whose read succeeds, and any get that returns 0, agrees with the map. -/
  agrees : ∀ read key v, call = .get read key v → read.Delivers ∨ response.ret = 0 →
    Answers mapping call response

/-- The store of a process that has met faults. -/
structure Withstands (m : Machine) (mapping : Mapping) : Prop where
  backed : Backed m
  mapping : m.mapping = mapping

theorem WriteResult.code_ne_none {write : WriteResult} (returns : ∀ count, write ≠ .stopped count) :
    write.code ≠ none := by
  cases write with
  | stopped count => exact absurd rfl (returns count)
  | full | short _ | failed _ _ | seekFailed _ => simp [code]

theorem Withstands.update {m : Machine} {mapping : Mapping} (withstands : Withstands m mapping)
    {call : Call} {env : BlockWrite} {key size : UInt64} {valueData : Option Bytes}
    (appends : call.Appends env key size valueData)
    (comesBack : (∀ count, env.write ≠ .stopped count) ∧ env.insert ≠ .mallocNull)
    (noWrap : NoWrap m call) :
    ∃ response next, exec m call = .ok response next ∧ Contained m mapping call response next ∧
      Withstands next (mapping.record call response) := by
  obtain ⟨backed, rfl⟩ := withstands
  obtain ⟨ret, next, returned, backed', mapping', kept⟩ :=
    backed.update appends noWrap (WriteResult.code_ne_none comesBack.1) comesBack.2
  have notGet : ∀ {read key v}, call ≠ .get read key v := by
    rintro read key v rfl
    cases appends
  refine ⟨_, next, returned, ⟨?_, ?_, ?_, ?_⟩, backed', mapping'⟩
  · intro failed key
    rw [(kept failed).1]
  · intro failed b
    rw [(kept failed).2]
  · intro read key v same
    exact absurd same notGet
  · intro read key v same
    exact absurd same notGet

theorem Withstands.get {m : Machine} {mapping : Mapping} (withstands : Withstands m mapping)
    (read : ReadResult) (key : UInt64) (v : Value) :
    ∃ response next, exec m (.get read key v) = .ok response next ∧
      Contained m mapping (.get read key v) response next ∧
      Withstands next (mapping.record (.get read key v) response) := by
  obtain ⟨backed, rfl⟩ := withstands
  obtain ⟨response, returned, answers⟩ := backed.get read key v
  refine ⟨response, m, returned, ⟨fun _ _ => rfl, fun _ _ => rfl, ?_, ?_⟩, backed, ?_⟩
  · rintro _ _ _ ⟨⟩ failed
    rcases answers with answers | ⟨_, _, value⟩
    · exact answers.value_of_failed failed
    · exact value
  · -- With its read the get answers from the map, and so does any get that returns 0.
    rintro _ _ _ ⟨⟩ succeeds
    rcases answers with answers | ⟨failed, nonzero, _⟩
    · exact answers
    · rcases succeeds with full | zero
      · exact absurd full failed
      · exact absurd zero nonzero
  · simp [Mapping.record]

theorem Withstands.step {m : Machine} {mapping : Mapping} (withstands : Withstands m mapping)
    {call : Call} (faulty : call.ComesBack ∧ NoWrap m call) :
    ∃ response next, exec m call = .ok response next ∧ Contained m mapping call response next ∧
      Withstands next (mapping.record call response) := by
  obtain ⟨comesBack, noWrap⟩ := faulty
  cases call with
  | set env key v => exact withstands.update (.set env key v) comesBack noWrap
  | del env key => exact withstands.update (.del env key) comesBack noWrap
  | get read key v => exact withstands.get read key v
  | reopen _ _ => exact absurd comesBack id

/-- At every point of a run with faults, the next call is contained. -/
theorem failed_calls_change_nothing {m : Machine} (created : Created m) {calls : List Call}
    (faulty : Allowed exec (fun m call => call.ComesBack ∧ NoWrap m call) m calls) :
    ∃ responses last, run exec m calls = .ok responses last ∧
      ∀ call, call.ComesBack → NoWrap last call →
        ∃ response next, exec last call = .ok response next ∧
          Contained last (track Mapping.record Mapping.empty calls responses) call response next := by
  have step : ∀ {m : Machine} {mapping : Mapping} {call : Call}, Withstands m mapping →
      call.ComesBack ∧ NoWrap m call →
      ∃ response next, exec m call = .ok response next ∧ True ∧
        Withstands next (mapping.record call response) := by
    intro m mapping call withstands faulty
    obtain ⟨response, next, returned, _, withstands'⟩ := withstands.step faulty
    exact ⟨response, next, returned, trivial, withstands'⟩
  have serves := serves_created created
  obtain ⟨responses, last, returned, _, withstands⟩ :=
    @run_refines _ _ _ _ _ exec _ Mapping.record (fun _ _ _ => True) Withstands step calls m _
      ⟨serves.serving.logged.backed, serves.mapping⟩ faulty
  refine ⟨responses, last, returned, ?_⟩
  intro call comesBack noWrap
  obtain ⟨response, next, returned', contained, _⟩ := withstands.step ⟨comesBack, noWrap⟩
  exact ⟨response, next, returned', contained⟩

/-- A get behind a set that was cut short. -/
theorem failed_calls_change_nothing_torn :
    ∃ responses last,
      run exec (.fresh 3) [.set { BlockWrite.quiet with write := .short 100 } 1 .one] =
        .ok responses last ∧
      ∃ response next, exec last (.get .full 1 .one) = .ok response next ∧
        Contained last (track Mapping.record Mapping.empty
          [.set { BlockWrite.quiet with write := .short 100 } 1 .one] responses)
          (.get .full 1 .one) response next := by
  obtain ⟨responses, last, returned, contained⟩ :=
    @failed_calls_change_nothing (.fresh 3) (created_iff.mpr ⟨3, rfl⟩)
      [.set { BlockWrite.quiet with write := .short 100 } 1 .one]
      ⟨⟨⟨fun _ impossible => (by cases impossible), by decide⟩, noWrap_fresh 3 _⟩, fun _ _ _ => trivial⟩
  refine ⟨responses, last, returned, contained (.get .full 1 .one) trivial ⟨fun impossible => ?_, ?_⟩⟩
  · exact absurd impossible id
  · rintro _ _ ⟨⟩

end KeyValueStore
