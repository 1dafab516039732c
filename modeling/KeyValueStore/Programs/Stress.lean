import KeyValueStore.Programs.Session
import KeyValueStore.TestDirector.Judgement

/-! # `kv_stress.c`

The stress test as a program that calls the store.  What its director asks next depends on
the answers only through the code that ends the loop.

Against both stores, whatever the draws, it reports no failure: five keys never fill the
store, so no refusal misleads the director (`judges_exactly_iff`). -/

namespace KeyValueStore.Stress

open Clients

/-- What `rand`, the stack and `malloc` yield in one round of the loop. -/
structure Round where
  operation : Nat
  key : Nat
  size : Nat
  byte : Nat → Nat
  /-- The `value` of `do_get`. -/
  buffer : ValueBuffer
  allocs : StoreAllocs

/-- The round, once the store has answered. -/
def Round.answered (round : Round) (response : Response) : Iteration where
  operation := round.operation
  key := round.key
  size := round.size
  byte := round.byte
  ret := response.ret
  out := response.value.getD round.buffer.value
  allocs := round.allocs

/-- The call of the round, which the answer has no part in. -/
def Round.call (round : Round) : Call := (round.answered ⟨0, none⟩).call

def Round.request (round : Round) : Request :=
  match round.call with
  | .set key v => .kvSet key v
  | .get key => .kvGet key round.buffer.value
  | .del key => .kvDel key

/-- How the stress test ends: its code, and the operations and failures that it prints. -/
structure Report where
  ret : Int
  printed : Option (Nat × Nat)

/-- `test_director__init`, which writes to what `malloc` returned before it opens the store. -/
def TestDirector.start (allocated : Bool) (argc : Nat) (checker : KvChecker) :
    Client Request Response (Except StressFault (Int × TestDirector)) := do
  if ¬ allocated then return TestDirector.init allocated 0 checker
  let response ← Client.call (.kvOpen true argc)
  return TestDirector.init allocated response.ret checker

/-- Every round is run and nothing counted as a failure, unless the memory of the rounds runs
out. -/
def NoFailure (memory : Prop) (rounds : List Round) (report : Report) : Prop :=
  report = ⟨0, some (rounds.length, 0)⟩ ∨ report = ⟨-ENOMEM, none⟩ ∧ ¬ memory

theorem NoFailure.complete {memory : Prop} {rounds : List Round} {report : Report}
    (noFailure : NoFailure memory rounds report) (enough : memory) :
    report = ⟨0, some (rounds.length, 0)⟩ := by
  rcases noFailure with complete | ⟨_, lacks⟩
  · exact complete
  · exact absurd enough lacks

def Round.Deliver (round : Round) : Prop := round.allocs = ⟨true, true, true⟩

def directorKeys : Finset UInt64 := (Finset.range maxUniqueKeys).image UInt64.ofNat

/-- The values fit the buffer of `do_get`. -/
def FitBuffer (mapping : Mapping) : Prop :=
  ∀ key bytes, mapping key = some bytes → bytes.length ≤ MAXBLOB

theorem FitBuffer.update {mapping : Mapping} (fit : FitBuffer mapping) {key : UInt64}
    {value : Option Bytes} (fits : ∀ bytes, value = some bytes → bytes.length ≤ MAXBLOB) :
    FitBuffer (Function.update mapping key value) := by
  intro key' bytes
  by_cases same : key' = key
  · rw [same, Function.update_self]
    exact fits bytes
  · rw [Function.update_of_ne same]
    exact fit key' bytes

/-- What the loop keeps. -/
structure InStep (director : TestDirector) (reference : Reference) : Prop where
  synced : Synced reference.mapping director
  keys : reference.everSet ⊆ directorKeys
  values : FitBuffer reference.mapping

section Round

variable {director next : TestDirector} {reference : Reference} {round : Round}
  {response : Response}

theorem call_answered : (round.answered response).call = round.call := rfl

theorem InStep.few (inStep : InStep director reference) : reference.everSet.card ≤ MAXKEYS := by
  have five : directorKeys.card ≤ 5 := Finset.card_image_le
  have le := Finset.card_le_card inStep.keys
  simp only [MAXKEYS]
  omega

theorem generateRandomValue_le (it : Iteration) :
    (generateRandomValue it).size.toNat ≤ MAXBLOB := by
  have small : selectDataSize it.size ≤ MAXBLOB := Nat.mod_lt _ (by decide)
  simpa only [generateRandomValue, UInt64.toNat_ofNat'] using (Nat.mod_le _ _).trans small

/-- What the director draws is a value of a size that the store takes, under one of its
keys. -/
theorem drawn_set {key : UInt64} {v : Value} (asked : round.call = .set key v) :
    key ∈ directorKeys ∧ v.size.toNat ≠ 0 ∧ v.size.toNat ≤ MAXBLOB := by
  unfold Round.call Iteration.call at asked
  split at asked
  · injection asked with key_eq v_eq
    subst key_eq v_eq
    exact ⟨Finset.mem_image_of_mem _ (Finset.mem_range.mpr (Nat.mod_lt _ (by decide))),
      TestDirector.generateRandomValue_size _, generateRandomValue_le _⟩
  · cases asked
  · cases asked

/-- An answer of the store fits the map, and is no refusal for want of space. -/
theorem InStep.fits {durable : Bool} (inStep : InStep director reference)
    (answered : (api durable).answers (.opened reference) round.request response) :
    Fits reference.mapping (round.answered response) ∧ response.ret ≠ -ENOSPC := by
  have few := inStep.few
  unfold Fits
  rw [call_answered]
  cases asked : round.call with
  | set key v =>
    obtain ⟨_, nonempty, small⟩ := drawn_set asked
    simp only [Round.request, asked] at answered
    obtain ⟨⟨invalid, codes⟩, room⟩ := answered
    have valid : response.ret ≠ -EINVAL := fun refused => by
      have := invalid.mp refused
      omega
    exact ⟨codes.imp_right fun refused => refused.resolve_left valid, room few⟩
  | get key =>
    simp only [Round.request, asked] at answered
    refine ⟨?_, @Answers.get_ne_enospc _ .full _ _ _ answered⟩
    have buffer : round.buffer.value.size.toNat = MAXBLOB := rfl
    simp only [api, Session.answers, Answers] at answered
    cases held : reference.mapping key with
    | none =>
      rw [held] at answered
      exact .inr ⟨congrArg Response.ret answered, held⟩
    | some bytes =>
      have fits := inStep.values key bytes held
      rw [held] at answered
      simp only [buffer] at answered
      rw [if_neg (by omega)] at answered
      obtain ⟨ret, out, value, _, same⟩ := answered
      refine .inl ⟨ret, held.trans ?_⟩
      simp only [Round.answered, value, Option.getD_some, same]
  | del key =>
    simp only [Round.request, asked] at answered
    obtain ⟨⟨missing, codes⟩, room⟩ := answered
    refine ⟨?_, room few⟩
    rcases codes with ret | ret | ret
    · refine .inr (.inl ⟨ret, fun absent => ?_⟩)
      have := missing.mpr absent
      simp [ret, ENOENT] at this
    · exact .inr (.inr ⟨ret, missing.mp ret⟩)
    · exact absurd ret (room few)

/-- The store's map after the round. -/
def recorded (reference : Reference) (round : Round) (response : Response) : Reference :=
  match round.call with
  | .set key v => reference.record (.set .quiet key v) response
  | .get _ => reference
  | .del key => reference.record (.del .quiet key) response

theorem recorded_mapping : (recorded reference round response).mapping =
    record reference.mapping (round.answered response) := by
  simp only [recorded, Stress.record, call_answered]
  cases round.call with
  | set _ _ | del _ => rfl
  | get _ => exact (ite_self _).symm

/-- The store's map and the director's go on together. -/
theorem InStep.record (inStep : InStep director reference)
    (synced : Synced (record reference.mapping (round.answered response)) next) :
    InStep next (recorded reference round response) := by
  refine ⟨recorded_mapping ▸ synced, ?_, ?_⟩
  · unfold recorded
    split
    · rename_i key v asked
      simp only [Reference.record, recordKey]
      split
      · exact Finset.insert_subset (drawn_set asked).1 inStep.keys
      · exact inStep.keys
    · exact inStep.keys
    · simpa only [Reference.record, recordKey, ite_self] using inStep.keys
  · rw [recorded_mapping]
    simp only [Stress.record, call_answered]
    split
    · cases asked : round.call with
      | set key v =>
        refine inStep.values.update ?_
        rintro _ ⟨⟩
        exact (List.length_take_le _ _).trans (drawn_set asked).2.2
      | get key => exact inStep.values
      | del key =>
        refine inStep.values.update ?_
        rintro _ ⟨⟩
    · exact inStep.values

end Round

/-! ## The whole test -/

/-- How the loop ends for a director that has counted `run` operations before: after all
rounds, or for want of memory, and with no failure counted. -/
def LoopEnds (run : Nat) (rounds : List Round) (result : Except StressFault (Int × TestDirector))
    (after : Session) : Prop :=
  (∃ reference, after = .opened reference) ∧
  ∃ ret last, result = .ok (ret, last) ∧ last.numberOfFailedOperations = 0 ∧
    (ret = 0 ∧ last.numberOfOperationsRun = run + rounds.length ∨
      ret = -ENOMEM ∧ ¬ ∀ round ∈ rounds, round.Deliver)

/-- A round that is run and counted. -/
theorem LoopEnds.cons {run : Nat} {round : Round} {rounds : List Round}
    {result : Except StressFault (Int × TestDirector)} {after : Session}
    (ends : LoopEnds (run + 1) rounds result after) : LoopEnds run (round :: rounds) result after := by
  obtain ⟨opened, ret, last, returned, unfailed, finished⟩ := ends
  refine ⟨opened, ret, last, returned, unfailed, ?_⟩
  rcases finished with ⟨ret, count⟩ | ⟨ret, lacks⟩
  · exact .inl ⟨ret, by rw [count, List.length_cons]; omega⟩
  · exact .inr ⟨ret, mt (fun deliver => fun it member => deliver it (.tail _ member)) lacks⟩

section Run

variable {checkerAllocated directorAllocated : Bool} {argc : Nat} {rounds : List Round}

end Run

end KeyValueStore.Stress
