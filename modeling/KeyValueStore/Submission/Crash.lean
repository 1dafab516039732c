import KeyValueStore.Submission.Serving

/-! # Crashes

A crash leaves the file and nothing else.  `Crash` lists the points at which a process
may stop during an update such that no whole block is left half old and half new;
from each of them the file opens with the map of before the call, or with the one the
completed call would have left (`crash_atomicity`). -/

namespace KeyValueStore

open Runs VersionLog

/-- `kv_set` or `kv_del`. -/
def Call.IsUpdate : Call → Prop
  | .set .. | .del .. => True
  | .get .. | .reopen .. => False

/-- The same call, with the process stopped once `count` bytes of its block are written. -/
def Call.stoppedAt (count : Nat) : Call → Call
  | .set env key v => .set { env with write := .stopped count } key v
  | .del env key => .del { env with write := .stopped count } key
  | call => call

/-- The file that a process leaves which stops during the call; `completed` tells whether
the new block is all there. -/
inductive Crash (m : Machine) (call : Call) : (completed : Bool) → Bytes → Prop where
  /-- Before the write has changed the file. -/
  | before : Crash m call false m.file
  /-- After the write. -/
  | written {count : Nat} {next : Machine} : sizeofKvBlock ≤ count →
    exec m (call.stoppedAt count) = .error .stopped next → Crash m call true next.file
  /-- In the middle of a write just behind the last whole block. -/
  | torn {count : Nat} {next : Machine} : count < sizeofKvBlock →
    m.destination = some (blockCount m.file) →
    exec m (call.stoppedAt count) = .error .stopped next → Crash m call false next.file

/-- Every get tells the value that the map has. -/
def Reads (m : Machine) (mapping : Mapping) : Prop :=
  ∀ key v, ∃ response, exec m (.get .full key v) = .ok response m ∧
    Answers mapping (.get .full key v) response

/-- The file opens with this map and serves it in all runs from there. -/
def RecoversTo (file : Bytes) (mapping : Mapping) : Prop :=
  ∀ m argc env, m.file = file → Undisturbed m (.reopen argc env) →
    ∃ reopened, exec m (.reopen argc env) = .ok ⟨0, none⟩ reopened ∧ Reads reopened mapping ∧
      ∀ calls, Allowed exec Undisturbed reopened calls →
        ∃ responses last, run exec reopened calls = .ok responses last ∧
          Conforms Mapping.record Answers mapping calls responses

theorem Serves.reads {m : Machine} {mapping : Mapping} (serves : Serves m mapping) :
    Reads m mapping := by
  obtain ⟨serving, rfl⟩ := serves
  intro key v
  obtain ⟨response, returned, served⟩ := serving.served_get key v
  exact ⟨response, returned, served.answers⟩

/-- The file of a store in service is all it needs. -/
theorem Serves.recovers {m : Machine} {mapping : Mapping} (serves : Serves m mapping) :
    RecoversTo m.file mapping := by
  obtain ⟨serving, rfl⟩ := serves
  intro crashed argc env same undisturbed
  have log := serving.log
  rw [← same] at log
  -- Only the file of the crashed machine enters here.
  obtain ⟨stor, returned, logged, _⟩ := exec_reopen_undisturbed log.adoptable undisturbed
  have reopened : Serves ⟨crashed.file, stor, true⟩ m.mapping :=
    ⟨⟨rfl, log, logged⟩, serving.logged.mapping_eq logged (by rw [same])⟩
  refine ⟨_, returned, reopened.reads, ?_⟩
  intro calls allowed
  obtain ⟨responses, last, ran, conforms, _⟩ := reopened.run allowed
  exact ⟨responses, last, ran, conforms⟩

/-- Nothing but the whole blocks of the file counts. -/
theorem Serves.congr_file {m : Machine} {mapping : Mapping} (serves : Serves m mapping)
    {file : Bytes} (same : blockAt file = blockAt m.file)
    (count : blockCount file = blockCount m.file) : Serves { m with file := file } mapping := by
  obtain ⟨⟨opened, log, logged⟩, rfl⟩ := serves
  have valid : validBlock file = validBlock m.file := by
    funext b
    rw [validBlock, validBlock, same]
  have logs : fileLog file = fileLog m.file := by
    funext b
    rw [fileLog, fileLog, valid]
  have log' : WellFormedLog file := by
    obtain ⟨bound, blocks, fits, distinct, ordered⟩ := log
    rw [← count] at bound blocks ordered
    rw [← valid] at blocks
    rw [← logs] at distinct ordered
    exact ⟨bound, blocks, fun held => fits (valid ▸ held), distinct, ordered⟩
  refine ⟨⟨opened, log', ?_⟩, ?_⟩
  · obtain ⟨⟨⟨sound, holds⟩, fits, bounded⟩, indexes, counted, follows⟩ := logged
    refine ⟨⟨⟨sound, ?_⟩, fits, bounded⟩, ?_, ?_, ?_⟩
    · simpa only [valid] using @holds
    · simpa only [logs] using indexes
    · simpa only [logs] using counted
    · obtain ⟨point, after, next⟩ := follows
      exact ⟨point, logs ▸ after, next⟩
  · refine Machine.mapping_congr (fun _ => rfl) ?_
    intro key entry _
    exact entryValue_congr (congrFun same entry.dataBlock)

/-! ## What an update leaves in the file -/

section Update

variable {m : Machine} {mapping : Mapping} {call : Call} {env : BlockWrite} {key size : UInt64}
  {valueData : Option Bytes} {block : KvBlock} {d count : Nat}

/-- A block that is written completely makes the update last, whatever happens next. -/
theorem Serves.written (serves : Serves m mapping) (accepted : call.Accepted m)
    (appends : call.Appends env key size valueData) (noWrap : NoWrap m call)
    (payload : Payload size valueData) (carries : Carries block key size valueData m.nextSequence)
    (found : m.destination = some d) (full : sizeofKvBlock ≤ count) :
    ∃ m', m'.file = overwritten m.file d block count ∧
      Serves m' (mapping.record call ⟨0, none⟩) := by
  obtain ⟨⟨opened, log, logged⟩, rfl⟩ := serves
  have inside := (logged.backed.sound.destination_free found).1
  obtain ⟨_, marked, _, _, marks⟩ := freeReplaced_mark logged.backed.sound.owns.covers key inside rfl
  have changed : sizeofKvBlock ≤ (WriteResult.stopped count).changed := full
  obtain ⟨log', logged'⟩ :=
    logged.committed log (noWrap.1 accepted) found changed carries payload marks
  refine ⟨m.committed d block (.stopped count) ⟨key, m.nextSequence, d, size.toUInt16⟩ marked, rfl,
    ⟨opened, log', logged'⟩, ?_⟩
  exact logged.backed.mapping_committed accepted appends payload carries found changed _

/-- Part of a block behind the last whole one does not count. -/
theorem Serves.torn_tail (serves : Serves m mapping) (short : count < sizeofKvBlock)
    (block : KvBlock) : ∃ m', m'.file = overwritten m.file (blockCount m.file) block count ∧
      Serves m' mapping := by
  obtain ⟨kept, same⟩ := @blockAt_overwritten_short m.file _ block _ short rfl
  exact ⟨_, rfl, serves.congr_file same kept⟩

theorem Call.Appends.stoppedAt (appends : call.Appends env key size valueData) (count : Nat) :
    (call.stoppedAt count).Appends { env with write := .stopped count } key size valueData := by
  cases appends with
  | set env key v => exact .set _ key v
  | del env key => exact .del _ key

theorem Call.Appends.isUpdate_iff : call.IsUpdate ↔
    ∃ env key size valueData, call.Appends env key size valueData := by
  constructor
  · intro update
    cases call with
    | set env key v => exact ⟨env, key, v.size, some v.data, .set env key v⟩
    | del env key => exact ⟨env, key, 0, none, .del env key⟩
    | get _ _ _ | reopen _ _ => exact absurd update id
  · rintro ⟨_, _, _, _, appends⟩
    cases appends <;> trivial

/-- What is known of a process that stops in the write of an update. -/
theorem stopped_outcome (sound : Sound m.stor) (appends : call.Appends env key size valueData)
    {next : Machine} (died : exec m (call.stoppedAt count) = .error .stopped next) :
    ∃ d block, call.Accepted m ∧ m.destination = some d ∧ Payload size valueData ∧
      Carries block key size valueData m.nextSequence ∧
      next.file = overwritten m.file d block count := by
  have accepted : (call.stoppedAt count).Accepted m → call.Accepted m := by
    cases appends <;> exact id
  have outcome := exec_update sound (appends.stoppedAt count)
  rw [died] at outcome
  generalize resulted : EStateM.Result.error Fault.stopped next = result at outcome
  cases outcome with
  | rejected _ => cases resulted
  | appended passed payload carries outcome =>
    cases outcome with
    | stopped found _ =>
      cases resulted
      exact ⟨_, _, accepted passed, found, payload, carries, rfl⟩
    | _ => cases resulted

end Update

/-- A crash of an update leaves the map of before, or that of the completed call, for all
keys at once. -/
theorem crash_atomicity {m : Machine} (created : Created m) {calls : List Call}
    (undisturbed : Allowed exec Undisturbed m calls) :
    ∃ responses last, run exec m calls = .ok responses last ∧
      ∀ call, call.IsUpdate → NoWrap last call → ∀ completed file, Crash last call completed file →
        RecoversTo file
          (if completed then (track Mapping.record Mapping.empty calls responses).record call ⟨0, none⟩
          else track Mapping.record Mapping.empty calls responses) := by
  obtain ⟨responses, last, returned, _, serves⟩ := (serves_created created).run undisturbed
  refine ⟨responses, last, returned, ?_⟩
  intro call update noWrap completed file crash
  obtain ⟨env, key, size, valueData, appends⟩ := Call.Appends.isUpdate_iff.mp update
  have sound := serves.serving.logged.backed.sound
  cases crash with
  -- Nothing has happened to the file.
  | before => exact serves.recovers
  | written full died =>
    obtain ⟨d, block, accepted, found, payload, carries, file⟩ := stopped_outcome sound appends died
    obtain ⟨m', same, serves'⟩ :=
      serves.written accepted appends noWrap payload carries found full
    rw [file, ← same]
    exact serves'.recovers
  | torn short tail died =>
    obtain ⟨d, block, _, found, _, _, file⟩ := stopped_outcome sound appends died
    rw [tail, Option.some.injEq] at found
    subst found
    obtain ⟨m', same, serves'⟩ := serves.torn_tail short block
    rw [file, ← same]
    exact serves'.recovers

/-- A second key, stopped in the middle of its block. -/
theorem crash_atomicity_torn : ∃ last next,
    exec (.fresh 3) (.set .quiet 1 .one) = .ok ⟨0, none⟩ last ∧
      exec last (Call.stoppedAt 100 (.set .quiet 2 .one)) = .error .stopped next ∧
      RecoversTo next.file (Function.update Mapping.empty 1 (some [7])) := by
  have created : Created (.fresh 3) := created_iff.mpr ⟨3, rfl⟩
  obtain ⟨serving, _, empty, counter⟩ := serving_created created
  have valid : Value.one.size.toNat ≠ 0 ∧ Value.one.size.toNat ≤ MAXBLOB := by decide
  obtain ⟨last, set, serving', only, blocks, counter'⟩ := @Serving.set_grows _ 1 .quiet .one
    serving (by rw [empty]; exact Finset.empty_subset _) BlockWrite.quiet_succeeds valid
    (noWrap_fresh 3 _)
  obtain ⟨d, found⟩ := serving'.logged.backed.sound.room (card_lt_capacity only)
  have tail : d = blockCount last.file := by
    refine (serving'.logged.destination_dense serving'.log found).2 ?_
    rw [blocks]
    decide
  subst tail
  obtain ⟨block, _, _, stops, _⟩ := exec_update_stops serving'.logged.backed.sound
    (Call.Appends.stoppedAt (.set .quiet 2 .one) 100) valid found
  have undisturbed : Allowed exec Undisturbed (.fresh 3) [.set .quiet 1 .one] :=
    ⟨⟨BlockWrite.quiet_succeeds, noWrap_fresh 3 _⟩, fun _ _ _ => trivial⟩
  obtain ⟨responses, last', returned, recovers⟩ := crash_atomicity created undisturbed
  simp only [run, set, EStateM.Result.ok.injEq] at returned
  obtain ⟨rfl, rfl⟩ := returned
  refine ⟨last, _, set, stops rfl, recovers (.set .quiet 2 .one) trivial ?_ false _
    (.torn (by decide) found (stops rfl))⟩
  exact serving'.noWrap _ (by rw [counter', counter]; decide)

end KeyValueStore
