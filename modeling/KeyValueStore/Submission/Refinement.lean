import KeyValueStore.Submission.Serving

/-! # The store is a durable map with a fixed capacity

Runs in which the environment lets every call through, with reopens anywhere:
`durable_map_refinement` says that all responses are those of the map that successful
calls update, and `capacity_law` exactly when a call is told that there is no room. -/

namespace KeyValueStore

open Runs

/-- Every response of a run agrees with the map of the calls that returned 0 before it;
no call of the run faults. -/
theorem durable_map_refinement {m : Machine} (created : Created m) {calls : List Call}
    (undisturbed : Allowed exec Undisturbed m calls) :
    ∃ responses last, run exec m calls = .ok responses last ∧
      Conforms Mapping.record Answers Mapping.empty calls responses := by
  obtain ⟨responses, last, returned, conforms, _⟩ := (serves_created created).run undisturbed
  exact ⟨responses, last, returned, conforms⟩

theorem durable_map_refinement_reopened :
    ∃ responses last,
      run exec (.fresh 3) [.set .quiet 1 .one, .reopen 2 .quiet, .get .full 1 .one] =
        .ok responses last ∧
      Conforms Mapping.record Answers Mapping.empty
        [.set .quiet 1 .one, .reopen 2 .quiet, .get .full 1 .one] responses := by
  refine durable_map_refinement (created_iff.mpr ⟨3, rfl⟩) (allowed_fresh 3 ?_ (by decide))
  simp [Call.Succeeds, BlockWrite.quiet_succeeds, OpenEnv.quiet_succeeds]

/-! ## Capacity -/

/-- The map, with the keys that have ever been set. -/
structure Reference where
  mapping : Mapping
  everSet : Finset UInt64

namespace Reference

def empty : Reference := ⟨Mapping.empty, ∅⟩

def record (reference : Reference) (call : Call) (response : Response) : Reference :=
  ⟨reference.mapping.record call response, recordKey reference.everSet call response⟩

end Reference

/-- The call needs room: a set of a valid size, or the deletion of a key of the map. -/
def NeedsRoom (mapping : Mapping) : Call → Prop
  | .set _ _ v => v.size.toNat ≠ 0 ∧ v.size.toNat ≤ MAXBLOB
  | .del _ key => mapping key ≠ none
  | .get .. | .reopen .. => False

/-- The response says that there is no room exactly when there is none for the call. -/
def AnswersRoom (reference : Reference) (call : Call) (response : Response) : Prop :=
  response.ret = -ENOSPC ↔ NeedsRoom reference.mapping call ∧ reference.everSet.card = capacity

/-- The store holds the map, and its directory the keys that have ever been set. -/
structure Represents (m : Machine) (reference : Reference) : Prop where
  serves : Serves m reference.mapping
  keys : m.stor.directory.keys = reference.everSet

theorem accepted_iff {m : Machine} {mapping : Mapping} (serves : Serves m mapping) (call : Call) :
    call.Accepted m ↔ NeedsRoom mapping call := by
  obtain ⟨serving, rfl⟩ := serves
  cases call with
  | set _ _ _ => exact Iff.rfl
  | del env key =>
    simp only [Call.Accepted, NeedsRoom, ne_eq, serving.logged.backed.legible.mapping_eq_none, not_not]
  | get _ _ _ | reopen _ _ => exact Iff.rfl

theorem Represents.step {m : Machine} {reference : Reference} {call : Call}
    (represents : Represents m reference) (undisturbed : Undisturbed m call) :
    ∃ response next, exec m call = .ok response next ∧ AnswersRoom reference call response ∧
      Represents next (reference.record call response) := by
  obtain ⟨serves, keys⟩ := represents
  have accepted := accepted_iff serves call
  have room := serves.serving.logged.backed.sound.destination_eq_none
  obtain ⟨response, next, returned, served⟩ := serves.serving.step undisturbed.1 undisturbed.2
  refine ⟨response, next, returned, ?_, ⟨served.serving, ?_⟩, ?_⟩
  · rw [AnswersRoom, served.full, accepted, room, keys]
  · rw [served.mapping, serves.mapping]
    rfl
  · rw [served.keys, keys]
    rfl

/-- A run that was once told that there is no room has set as many keys as there are
blocks, and the keys that were set stay set. -/
theorem full_of_enospc : ∀ {calls : List Call} {responses : List Response}
    {reference : Reference}, Conforms Reference.record AnswersRoom reference calls responses →
    reference.everSet ⊆ (track Reference.record reference calls responses).everSet ∧
      ∀ response ∈ responses, response.ret = -ENOSPC →
        capacity ≤ (track Reference.record reference calls responses).everSet.card
  | [], [], _, _ => ⟨Finset.Subset.refl _, by simp⟩
  | call :: calls, response :: responses, reference, ⟨answers, conforms⟩ => by
    obtain ⟨grows, later⟩ := full_of_enospc conforms
    have kept : reference.everSet ⊆ (reference.record call response).everSet := by
      simp only [Reference.record, recordKey]
      split
      · cases call <;> simp
      · exact Finset.Subset.refl _
    refine ⟨kept.trans grows, ?_⟩
    intro earlier member full
    -- The first call found the log full, or a later one did.
    rcases List.mem_cons.mp member with rfl | rest
    · have card := (answers.mp full).2
      exact card ▸ Finset.card_le_card (kept.trans grows)
    · exact later earlier rest full

/-- Capacity law: a call that needs room is told that there is none exactly when as many
distinct keys have been set as the store has blocks.  Runs that set fewer are never
told so, and once it has been said it stays true. -/
theorem capacity_law {m : Machine} (created : Created m) {calls : List Call}
    (undisturbed : Allowed exec Undisturbed m calls) :
    ∃ responses last, run exec m calls = .ok responses last ∧
      ((track Reference.record Reference.empty calls responses).everSet.card ≤ 2 * MAXKEYS →
        ∀ response ∈ responses, response.ret ≠ -ENOSPC) ∧
      ∀ call, Undisturbed last call → ∃ response next, exec last call = .ok response next ∧
        AnswersRoom (track Reference.record Reference.empty calls responses) call response ∧
        ((∃ earlier ∈ responses, earlier.ret = -ENOSPC) →
          NeedsRoom (track Reference.record Reference.empty calls responses).mapping call →
          response.ret = -ENOSPC) := by
  have start : Represents m Reference.empty :=
    ⟨serves_created created, (serving_created created).2.2.1⟩
  obtain ⟨responses, last, returned, conforms, represents⟩ :=
    run_refines Represents.step start undisturbed
  obtain ⟨_, full⟩ := full_of_enospc conforms
  refine ⟨responses, last, returned, ?_, ?_⟩
  · intro few response member said
    have many := full response member said
    simp only [capacity] at many
    omega
  · intro call now
    obtain ⟨response, next, returned, answers, _⟩ := represents.step now
    refine ⟨response, next, returned, answers, ?_⟩
    rintro ⟨earlier, member, said⟩ needs
    refine answers.mpr ⟨needs, Nat.le_antisymm ?_ (full earlier member said)⟩
    rw [← represents.keys]
    exact represents.serves.serving.logged.backed.sound.owns.card_le

/-- The law after a set and a reopen: it says how any further call is answered. -/
theorem capacity_law_fresh :
    ∃ responses last,
      run exec (.fresh 3) [.set .quiet 1 .one, .reopen 2 .quiet] = .ok responses last ∧
      ∀ call, Undisturbed last call → ∃ response next, exec last call = .ok response next ∧
        AnswersRoom (track Reference.record Reference.empty
          [.set .quiet 1 .one, .reopen 2 .quiet] responses) call response := by
  have undisturbed : Allowed exec Undisturbed (.fresh 3)
      [.set .quiet 1 .one, .reopen 2 .quiet] := by
    refine allowed_fresh 3 ?_ (by decide)
    simp [Call.Succeeds, BlockWrite.quiet_succeeds, OpenEnv.quiet_succeeds]
  obtain ⟨responses, last, returned, _, room⟩ :=
    capacity_law (created_iff.mpr ⟨3, rfl⟩) undisturbed
  refine ⟨responses, last, returned, ?_⟩
  intro call now
  obtain ⟨response, next, answered, answers, _⟩ := room call now
  exact ⟨response, next, answered, answers⟩

end KeyValueStore
