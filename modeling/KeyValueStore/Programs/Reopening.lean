import KeyValueStore.Class.Recovery
import KeyValueStore.Programs.Session

/-! # The class store, opened again

A program that has opened its file again finds the class store as durable as the other one if
from then on it only gets keys that are present, and if it has not closed the file right after
it deleted the key that it had set last.  A `History` is a session with what it takes to tell
(`again`); `serves_again` says that the class store answers such a program as a durable store
does. -/

namespace KeyValueStore.KvStore

open Clients

/-- How far a program has come with its file. -/
inductive Stage where
  /-- It has made these updates since it created the store. -/
  | writing (updates : List Update)
  /-- It has opened the file again. -/
  | reading

structure History where
  session : Session
  stage : Stage

/-- What the program may ask for the class store to be durable. -/
def Stage.permits : Stage → Session → Request → Prop
  | .writing updates, _, .kvOpen create _ => create = true ∨ ¬ Undoes updates
  | .writing _, _, _ => True
  | .reading, .opened reference, .kvGet key _ => reference.mapping key ≠ none
  | .reading, _, .kvSet .. | .reading, _, .kvDel .. => False
  | .reading, _, _ => True

def Stage.record : Stage → Request → Response → Stage
  | _, .kvOpen create _, _ => if create then .writing [] else .reading
  | .writing updates, .kvSet key v, response =>
    .writing (recordUpdate updates (.set .quiet key (some v)) response)
  | .writing updates, .kvDel key, response =>
    .writing (recordUpdate updates (.del .quiet key) response)
  | stage, _, _ => stage

/-- A durable store for programs of this kind. -/
def again : Spec History Request Response where
  requires history request := (api true).requires history.session request ∧
    history.stage.permits history.session request
  answers history := (api true).answers history.session
  record history request response :=
    ⟨(api true).record history.session request response, history.stage.record request response⟩

/-- A program that does not know of its file yet. -/
def History.blank : History := ⟨.blank, .reading⟩

/-! ## The machine and the history -/

/-- An open store that was created by this program. -/
structure Writing (count : Nat) (m : Machine) (reference : Reference) (updates : List Update) :
    Prop where
  traced : Traced m updates
  mapping : mappingAfter updates = reference.mapping
  subset : ∀ key, reference.mapping key ≠ none → key ∈ reference.everSet
  counter : m.stor.currentSequenceNumber.toNat ≤ count

/-- An open store on the file that the program has written. -/
structure Reading (m origin : Machine) (updates : List Update) (reference : Reference) : Prop where
  traced : Traced origin updates
  mapping : mappingAfter updates = reference.mapping
  opens : ¬ Undoes updates
  file : m.file = origin.file
  scanned : Scanned origin.file m.stor

/-- Before call number `count` the open machine agrees with the history. -/
def Agrees (count : Nat) (m : Machine) (reference : Reference) : Stage → Prop
  | .writing updates => Writing count m reference updates
  | .reading => ∃ origin updates, Reading m origin updates reference

def InHistory (count : Nat) (m : Machine) (history : History) : Prop :=
  match history.session with
  | .blank => True
  | .closed reference => ∃ before, m = before.closed ∧ Agrees count before reference history.stage
  | .opened reference => Agrees count m reference history.stage

section Serve

variable {port : Port} {m : Machine} {reference : Reference} {updates : List Update} {count : Nat}

theorem writing_fresh (count fd : Nat) : Writing count (fresh fd) .empty [] where
  traced := traced_fresh fd
  mapping := rfl
  subset _ present := absurd rfl present
  counter := Nat.zero_le _

/-- A call on the store that was created. -/
theorem Writing.call (writing : Writing count m reference updates) (small : count < 2 ^ 64 - 1)
    {call : Call} (pointers : call.PointersValid port) (inProcess : call.InProcess)
    (io : call.IoSucceeds) (memory : call.MemorySucceeds) :
    ∃ response next, exec port m call = .ok response next ∧
      Answers reference.mapping call response ∧ Traced next (recordUpdate updates call response) ∧
      mappingAfter (recordUpdate updates call response) = record reference.mapping call response ∧
      next.stor.currentSequenceNumber.toNat ≤ count + 1 := by
  obtain ⟨traced, mapping, _, counter⟩ := writing
  have represents : Represents m reference.mapping :=
    ⟨traced.inService, traced.mapping.trans mapping⟩
  have undisturbed : Undisturbed m call := ⟨inProcess, io, memory, fun _ => by omega⟩
  obtain ⟨response, next, returned, answers, represents'⟩ := represents.advance pointers undisturbed
  obtain ⟨response', next', returned', traced'⟩ := traced.step undisturbed pointers
  rw [returned, EStateM.Result.ok.injEq] at returned'
  obtain ⟨rfl, rfl⟩ := returned'
  have counter' := exec_counter traced.inService.steady.usable inProcess returned
  refine ⟨response, next, returned, answers, traced', ?_, by omega⟩
  rw [← traced'.mapping, represents'.mapping]

/-- What the program finds when it opens a file of its own again. -/
theorem Traced.reopens {origin : Machine} (traced : Traced origin updates)
    (opens : ¬ Undoes updates) (mapping : mappingAfter updates = reference.mapping)
    (file : m.file = origin.file) {argc : Nat} {env : OpenEnv} (succeeds : env.Succeeds port argc) :
    ∃ opened, exec port m (.reopen argc env) = .ok ⟨0, none⟩ opened ∧
      Reading opened origin updates reference := by
  have small : blockCount m.file ≤ capacity := by
    rw [file]
    exact traced.inService.steady.count_le
  have once := traced.noRepeats_iff.mpr opens
  rw [← file] at once
  obtain ⟨opened, returned⟩ := (reopen_returns_iff small succeeds).1.mpr once
  obtain ⟨same, _, scanned⟩ := reopen_returned small returned
  rw [file] at same scanned
  exact ⟨opened, returned, traced, mapping, opens, same, scanned⟩

/-- A key that is present is found. -/
theorem Reading.get {origin : Machine} (reading : Reading m origin updates reference)
    {key : UInt64} (present : reference.mapping key ≠ none) (v : Value) :
    ∃ response, exec port m (.get true .full key v) = .ok response m ∧
      KeyValueStore.Answers reference.mapping (.get .full key v) response := by
  have recovers := @Traced.recovers _ _ port m reading.traced reading.file reading.scanned
  obtain ⟨response, returned, answers⟩ := recovers.answers key v
  obtain ⟨value, held⟩ := Option.ne_none_iff_exists'.mp present
  have kept := recovers.kept key value (by rw [reading.mapping, held])
  refine ⟨response, returned, ?_⟩
  simp only [Answers, KeyValueStore.Answers, kept, held] at answers ⊢
  exact answers

end Serve

/-! ## The calls of a program -/

/-- Nothing stands in the way of the calls of a program, be it to open a file. -/
structure Circumstances.LetAllThrough (port : Port) (circumstances : Circumstances) : Prop where
  letThrough : circumstances.LetThrough
  opens : ∀ argc, 2 ≤ argc → circumstances.open.Succeeds port argc

theorem Circumstances.quiet_letAllThrough (port : Port) : Circumstances.quiet.LetAllThrough port :=
  ⟨quiet_letThrough, fun _ enough => ⟨⟨fun _ => enough, ⟨rfl, fun _ => rfl⟩, ⟨3, rfl⟩, rfl⟩,
    fun _ => rfl, fun _ => rfl⟩⟩

section Again

variable {port : Port} {circumstances : Nat → Circumstances} {count : Nat} {m : Machine}
  {reference : Reference} {updates : List Update} {stage : Stage}

theorem Agrees.later (agrees : Agrees count m reference stage) :
    Agrees (count + 1) m reference stage := by
  cases stage with
  | writing updates =>
    exact ⟨agrees.traced, agrees.mapping, agrees.subset, Nat.le_succ_of_le agrees.counter⟩
  | reading => exact agrees

theorem again_creates (letThrough : (circumstances count).LetThrough) (m : Machine)
    {history : History} {argc : Nat} (enough : 2 ≤ argc) :
    ∃ response next, serve port circumstances count m (.kvOpen true argc) = .ok response next ∧
      again.answers history (.kvOpen true argc) response ∧
      InHistory (count + 1) next (again.record history (.kvOpen true argc) response) := by
  obtain ⟨mallocs, arrayRet, opens, _⟩ := letThrough
  obtain ⟨fd, returned⟩ := openStore_create port enough mallocs arrayRet opens m
  obtain ⟨session, stage⟩ := history
  refine ⟨_, _, returned, ?_, ?_⟩
  · cases session <;> rfl
  · cases session <;> exact writing_fresh (count + 1) fd

theorem again_opens {before : Machine} (agrees : Agrees count before reference stage)
    (opens : (circumstances count).LetAllThrough port) {argc : Nat} (enough : 2 ≤ argc)
    (permitted : stage.permits (.closed reference) (.kvOpen false argc)) :
    ∃ response next, serve port circumstances count before.closed (.kvOpen false argc) =
        .ok response next ∧
      again.answers ⟨.closed reference, stage⟩ (.kvOpen false argc) response ∧
      InHistory (count + 1) next
        (again.record ⟨.closed reference, stage⟩ (.kvOpen false argc) response) := by
  have succeeds := opens.opens argc enough
  cases stage with
  | writing updates =>
    obtain impossible | notUndone := permitted
    · cases impossible
    · obtain ⟨opened, returned, reading⟩ :=
        agrees.traced.reopens notUndone agrees.mapping rfl succeeds
      exact ⟨_, opened, returned, rfl, before, updates, reading⟩
  | reading =>
    obtain ⟨origin, updates, reading⟩ := agrees
    obtain ⟨opened, returned, reading'⟩ :=
      reading.traced.reopens reading.opens reading.mapping reading.file succeeds
    exact ⟨_, opened, returned, rfl, origin, updates, reading'⟩

theorem again_gets (agrees : Agrees count m reference stage)
    (letThrough : (circumstances count).LetThrough) (small : count < 2 ^ 64 - 1) {key : UInt64}
    {v : Value} (permitted : stage.permits (.opened reference) (.kvGet key v)) :
    ∃ response next, serve port circumstances count m (.kvGet key v) = .ok response next ∧
      again.answers ⟨.opened reference, stage⟩ (.kvGet key v) response ∧
      InHistory (count + 1) next
        (again.record ⟨.opened reference, stage⟩ (.kvGet key v) response) := by
  obtain ⟨_, _, _, _, _, allocated, read⟩ := letThrough
  cases stage with
  | writing updates =>
    obtain ⟨response, next, returned, answers, traced, mapping, counter⟩ :=
      @Writing.call port m reference updates count agrees small (.get _ _ key v) allocated trivial
        read allocated
    simp only [recordUpdate, record, ite_self] at traced mapping
    exact ⟨response, next, returned, answers, traced, mapping, agrees.subset, counter⟩
  | reading =>
    obtain ⟨origin, updates, reading⟩ := agrees
    obtain ⟨response, returned, answers⟩ := @Reading.get port _ _ _ _ reading key permitted v
    rw [← allocated, ← read] at returned
    exact ⟨response, m, returned, answers, origin, updates, reading⟩

theorem again_updates (writing : Writing count m reference updates)
    (letThrough : (circumstances count).LetThrough) (small : count < 2 ^ 64 - 1)
    {request : Request} (update : (∃ key v, request = .kvSet key v) ∨ ∃ key, request = .kvDel key) :
    ∃ response next, serve port circumstances count m request = .ok response next ∧
      again.answers ⟨.opened reference, .writing updates⟩ request response ∧
      InHistory (count + 1) next
        (again.record ⟨.opened reference, .writing updates⟩ request response) := by
  obtain ⟨_, _, _, write, blockAllocated, _, _⟩ := letThrough
  rcases update with ⟨key, v, rfl⟩ | ⟨key, rfl⟩
  · obtain ⟨response, next, returned, ⟨invalid, codes, room⟩, traced, mapping, counter⟩ :=
      @Writing.call port m reference updates count writing small (.set _ key (some v))
        ⟨blockAllocated, fun _ => by simp⟩ trivial write.write ⟨blockAllocated, write.insert⟩
    refine ⟨response, next, returned,
      ⟨⟨?_, codes⟩, fun few => room (few_of_subset writing.subset few)⟩, traced, mapping,
      record_subset writing.subset, counter⟩
    rw [invalid]
    simp only [Valid, Option.some.injEq, exists_eq_left']
    omega
  · obtain ⟨response, next, returned, ⟨missing, codes, room⟩, traced, mapping, counter⟩ :=
      @Writing.call port m reference updates count writing small (.del _ key) blockAllocated trivial
        write.write ⟨blockAllocated, write.insert⟩
    exact ⟨response, next, returned,
      ⟨⟨missing, codes⟩, fun few => room (few_of_subset writing.subset few)⟩, traced, mapping,
      record_subset writing.subset, counter⟩

/-- One call of such a program. -/
theorem serves_again (letThrough : ∀ count, (circumstances count).LetAllThrough port)
    {history : History} {request : Request} (small : count < 2 ^ 64 - 1)
    (inHistory : InHistory count m history) (allowed : again.requires history request) :
    ∃ response next, serve port circumstances count m request = .ok response next ∧
      again.answers history request response ∧
      InHistory (count + 1) next (again.record history request response) := by
  obtain ⟨session, stage⟩ := history
  obtain ⟨required, permitted⟩ := allowed
  cases request with
  | kvOpen create argc =>
    obtain ⟨enough, origin⟩ := required
    cases create with
    | true => exact again_creates (letThrough count).letThrough m enough
    | false =>
      obtain impossible | ⟨_, reference, rfl⟩ := origin
      · cases impossible
      · obtain ⟨before, rfl, agrees⟩ := inHistory
        exact again_opens agrees (letThrough count) enough permitted
  | kvClose =>
    cases session with
    | blank | closed _ => exact absurd required id
    | opened reference =>
      have agrees : Agrees (count + 1) m reference stage := Agrees.later inHistory
      cases stage <;> exact ⟨_, _, rfl, trivial, m, rfl, agrees⟩
  | kvGet key v =>
    cases session with
    | blank | closed _ => exact absurd required id
    | opened reference => exact again_gets inHistory (letThrough count).letThrough small permitted
  | kvSet key v =>
    cases session with
    | blank | closed _ => exact absurd required id
    | opened reference =>
      cases stage with
      | reading => exact absurd permitted id
      | writing updates =>
        exact again_updates inHistory (letThrough count).letThrough small (.inl ⟨key, v, rfl⟩)
  | kvDel key =>
    cases session with
    | blank | closed _ => exact absurd required id
    | opened reference =>
      cases stage with
      | reading => exact absurd permitted id
      | writing updates =>
        exact again_updates inHistory (letThrough count).letThrough small (.inr ⟨key, rfl⟩)

/-- A program that starts with no store, whatever its machine was used for. -/
theorem run_serves_again (letThrough : ∀ count, (circumstances count).LetAllThrough port)
    {Result : Type} {client : Client Request Response Result} {calls : Nat}
    {post : Result → History → Prop} (ensures : client.Ensures again .blank post)
    (within : client.Within calls) (noWrap : calls < 2 ^ 64) (m : Machine) :
    ∃ result count last after,
      client.run (serve port circumstances) 0 m = .ok (result, count) last ∧ post result after := by
  have starts : InHistory 0 m .blank := trivial
  have fits : 0 + calls ≤ 2 ^ 64 - 1 := by omega
  obtain ⟨result, count, last, after, returned, holds, _⟩ :=
    Client.run_ensures (serves_again letThrough) starts ensures within fits
  exact ⟨result, count, last, after, returned, holds⟩

end Again

end KeyValueStore.KvStore
