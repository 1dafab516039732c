import KeyValueStore.Submission.Serving

/-! # File, directory, bitmap and append point agree

The file against the directory (`log_directory_agreement`), the bitmap against the
directory, also when calls fail (`allocator_directory_bijection`), what replay
rebuilds (`replay_rebuilds_state`), and the assertions (`no_assertion_fires`). -/

namespace KeyValueStore

open Runs VersionLog

/-! ## The log and the directory -/

structure LogAgreement (m : Machine) : Prop where
  /-- The block of an entry is the latest version of the key in the file. -/
  latest : ∀ key entry, m.stor.directory.findEntryForKey key = some entry →
    ∃ block, validBlock m.file entry.dataBlock = some block ∧ block.header.keyId = key ∧
      block.header.sequence = entry.sequence ∧ block.header.dataBytes = entry.dataBytes ∧
      ∀ b other, validBlock m.file b = some other → other.header.keyId = key →
        b ≠ entry.dataBlock → other.header.sequence < entry.sequence
  /-- The file holds no key that the directory lacks. -/
  complete : ∀ b block, validBlock m.file b = some block →
    ∃ entry, m.stor.directory.findEntryForKey block.header.keyId = some entry
  distinct : ∀ b b' block block', validBlock m.file b = some block →
    validBlock m.file b' = some block' → b ≠ b' → block.header.sequence ≠ block'.header.sequence
  counted : ∀ b block, validBlock m.file b = some block →
    block.header.sequence ≤ m.stor.currentSequenceNumber

theorem Serving.logAgreement {m : Machine} (serving : Serving m) : LogAgreement m where
  latest := by
    intro key entry found
    obtain ⟨block, valid, holds⟩ := serving.logged.backed.holds found
    have latest := serving.logged.indexes.latest (KvDirectory.index_of_found found)
    refine ⟨block, valid, ?_, holds.sequence, holds.dataBytes, ?_⟩
    · rw [holds.keyId, KvDirectory.keyId_of_find found]
    · rintro b other valid' rfl apart
      exact UInt64.lt_iff_toNat_lt.mpr (latest.2 b _ (fileLog_of_valid valid') apart)
  complete := by
    intro b block valid
    obtain ⟨⟨_, _⟩, named⟩ := serving.logged.indexes.complete (fileLog_of_valid valid)
    obtain ⟨entry, found, _⟩ := KvDirectory.index_eq_some.mp named
    exact ⟨entry, found⟩
  distinct := by
    intro b b' block block' valid valid' apart same
    have stored := fileLog_of_valid valid
    rw [same] at stored
    exact apart (serving.log.distinct b b' _ _ _ stored (fileLog_of_valid valid'))
  counted := by
    intro b block valid
    exact UInt64.le_iff_toNat_le.mpr (serving.logged.counted b _ _ (fileLog_of_valid valid))

/-- In every state of an undisturbed run the file and the directory agree. -/
theorem log_directory_agreement {m : Machine} (created : Created m) {calls : List Call}
    (undisturbed : Allowed exec Undisturbed m calls) :
    ∃ responses last, run exec m calls = .ok responses last ∧ LogAgreement last := by
  obtain ⟨responses, last, returned, _, serves⟩ := (serves_created created).run undisturbed
  exact ⟨responses, last, returned, serves.serving.logAgreement⟩

theorem log_directory_agreement_reopened :
    ∃ responses last, run exec (.fresh 3) [.set .quiet 1 .one, .del .quiet 1, .reopen 2 .quiet] =
      .ok responses last ∧ LogAgreement last := by
  refine log_directory_agreement (created_iff.mpr ⟨3, rfl⟩) (allowed_fresh 3 ?_ (by decide))
  simp [Call.Succeeds, BlockWrite.quiet_succeeds, OpenEnv.quiet_succeeds]

/-! ## Replay -/

/-- `kv_append_point__get_append_point`, without the state it leaves. -/
def KvStor.getAppendPoint (stor : KvStor) : Except Fault Nat :=
  (stor.appendPoint.getAppendPoint stor.blockAllocator).map Prod.fst

/-- The state that replay leaves, against the one before the store was closed. -/
structure Rebuilt (m next : Machine) : Prop where
  file : next.file = m.file
  directory : ∀ key, next.stor.directory.findEntryForKey key =
    m.stor.directory.findEntryForKey key
  bits : ∀ b, next.stor.blockAllocator.isSet b = m.stor.blockAllocator.isSet b
  appendPoint : next.stor.getAppendPoint = m.stor.getAppendPoint
  ahead : ∀ b block, validBlock next.file b = some block →
    block.header.sequence < next.stor.currentSequenceNumber

theorem Serving.rebuilt {m : Machine} (serving : Serving m) {argc : Nat} {env : OpenEnv}
    (undisturbed : Undisturbed m (.reopen argc env)) :
    ∃ next, exec m (.reopen argc env) = .ok ⟨0, none⟩ next ∧ Rebuilt m next := by
  obtain ⟨stor, returned, logged, ahead, _⟩ := exec_reopen_undisturbed serving.log.adoptable undisturbed
  have sound := serving.logged.backed.sound
  have destination := serving.logged.destination_eq serving.log logged rfl
  refine ⟨⟨m.file, stor, true⟩, returned, rfl, ?_, ?_, ?_, ?_⟩
  · intro key
    rw [serving.logged.directory_eq logged rfl]
  · refine KvBlockAllocator.isSet_congr sound.owns.fits ?_
      (serving.logged.allocated_eq logged rfl)
    rw [sound.owns.size, logged.backed.sound.owns.size]
  · have before := sound.usable.getAppendPoint
    have after := logged.backed.sound.usable.getAppendPoint
    rw [destination] at after
    simp only [KvStor.getAppendPoint, before, after, Except.map]
  · intro b block valid
    exact UInt64.lt_iff_toNat_lt.mpr (ahead b _ _ (fileLog_of_valid valid))

/-- In every state of an undisturbed run, closing and reopening gives the same state back. -/
theorem replay_rebuilds_state {m : Machine} (created : Created m) {calls : List Call}
    (undisturbed : Allowed exec Undisturbed m calls) :
    ∃ responses last, run exec m calls = .ok responses last ∧
      ∀ argc env, Undisturbed last (.reopen argc env) →
        ∃ next, exec last (.reopen argc env) = .ok ⟨0, none⟩ next ∧ Rebuilt last next := by
  obtain ⟨responses, last, returned, _, serves⟩ := (serves_created created).run undisturbed
  exact ⟨responses, last, returned, fun _ _ reopening => serves.serving.rebuilt reopening⟩

theorem replay_rebuilds_state_overwritten :
    ∃ responses last, run exec (.fresh 3) [.set .quiet 1 .one, .set .quiet 1 .one] =
      .ok responses last ∧
      ∀ argc env, Undisturbed last (.reopen argc env) →
        ∃ next, exec last (.reopen argc env) = .ok ⟨0, none⟩ next ∧ Rebuilt last next := by
  refine replay_rebuilds_state (created_iff.mpr ⟨3, rfl⟩) (allowed_fresh 3 ?_ (by decide))
  simp [Call.Succeeds, BlockWrite.quiet_succeeds]

/-! ## Failing calls -/

theorem good_created {m : Machine} (created : Created m) : Good m := by
  obtain ⟨serving, _⟩ := serving_created created
  exact ⟨serving.log, serving.logged.backed.sound.owns, fun _ => serving.logged⟩

/-- The only fault of a legitimate run: the use of a `malloc` that failed. -/
def Call.Excused (call : Call) (fault : Fault) : Prop :=
  fault = .nullPointer ∧ ¬ call.UncheckedMallocsDeliver

theorem Good.update {m : Machine} (good : Good m) (opened : m.opened = true) {call : Call}
    {env : BlockWrite} {key size : UInt64} {valueData : Option Bytes}
    (appends : call.Appends env key size valueData) (noWrap : NoWrap m call)
    (all : env.write.AllOrNothing) (insert : env.insert ≠ .tsearchNull)
    (unchecked : call.UncheckedMallocsDeliver → env.insert ≠ .mallocNull) :
    (∃ response next, exec m call = .ok response next ∧ Good next) ∨
      ∃ fault next, exec m call = .error fault next ∧ call.Excused fault := by
  have outcome := (good.logged opened).update good.log appends noWrap all insert
  generalize exec m call = result at outcome
  cases outcome with
  | rejected _ => exact .inl ⟨_, m, rfl, good⟩
  | full _ _ searched => exact .inl ⟨_, _, rfl, good.log, good.owns, fun _ => searched⟩
  | failed _ _ _ _ searched => exact .inl ⟨_, _, rfl, good.log, good.owns, fun _ => searched⟩
  | crashed failed => exact .inr ⟨_, _, rfl, rfl, fun delivers => unchecked delivers failed⟩
  | done _ _ log logged =>
    exact .inl ⟨_, _, rfl, log, logged.backed.sound.owns, fun _ => logged⟩

/-- One call of a legitimate run. -/
theorem Good.step {m : Machine} {call : Call} (good : Good m) (undamaging : Undamaging m call) :
    (∃ response next, exec m call = .ok response next ∧ Good next) ∨
      ∃ fault next, exec m call = .error fault next ∧ call.Excused fault := by
  obtain ⟨legal, noWrap, all⟩ := undamaging
  cases call with
  | set env key v => exact good.update legal (.set env key v) noWrap all.1 all.2 id
  | del env key => exact good.update legal (.del env key) noWrap all.1 all.2 id
  | get read key v =>
    obtain ⟨response, returned, _⟩ := (good.logged legal).backed.get read key v
    exact .inl ⟨response, m, returned, good⟩
  | reopen argc env =>
    have outcome := exec_reopen_good good.log.adoptable noWrap
    generalize exec m (.reopen argc env) = result at outcome
    cases outcome with
    | refused _ _ file closed owns =>
      refine .inl ⟨_, _, rfl, file ▸ good.log, owns good.owns, ?_⟩
      intro opened
      rw [closed] at opened
      cases opened
    | crashed failed =>
      refine .inr ⟨_, _, rfl, rfl, ?_⟩
      rintro ⟨bits, inserts⟩
      rcases failed with clear | ⟨b, insert⟩
      · rw [clear] at bits
        cases bits
      · exact inserts b insert
    | reopened logged _ _ =>
      exact .inl ⟨_, _, rfl, good.log, logged.backed.sound.owns, fun _ => logged⟩

theorem Good.run {m : Machine} (good : Good m) {calls : List Call}
    (undamaging : Allowed exec Undamaging m calls) :
    (∃ responses last, Runs.run exec m calls = .ok responses last ∧ Good last) ∨
      ∃ call ∈ calls, ∃ fault last, Runs.run exec m calls = .error fault last ∧
        call.Excused fault :=
  @run_preserves _ _ _ _ exec Undamaging Good Call.Excused Good.step calls m good undamaging

/-- The set bits are the blocks of the entries, one for each. -/
structure Bijection (directory : KvDirectory) (allocator : KvBlockAllocator) : Prop where
  bits : ∀ b, allocator.isSet b = .ok true ↔
    ∃ key entry, directory.findEntryForKey key = some entry ∧ entry.dataBlock = b
  unshared : ∀ key key' entry entry', directory.findEntryForKey key = some entry →
    directory.findEntryForKey key' = some entry' → entry.dataBlock = entry'.dataBlock → key = key'
  count : allocator.allocated.card = directory.keys.card

theorem Owns.bijection {directory : KvDirectory} {allocator : KvBlockAllocator}
    (owns : Owns directory allocator) : Bijection directory allocator where
  bits := fun b => (KvBlockAllocator.isSet_iff owns.fits b).trans (owns.owned b)
  unshared := fun _ _ _ _ found found' same => owns.injective found found' same
  count := owns.card

/-- Whatever fails without leaving half a block, no block is leaked or owned twice.  The
only runs that do not get to their end are those that use a `malloc` that failed. -/
theorem allocator_directory_bijection {m : Machine} (created : Created m) {calls : List Call}
    (undamaging : Allowed exec Undamaging m calls) :
    (∃ responses last, run exec m calls = .ok responses last ∧
        Bijection last.stor.directory last.stor.blockAllocator) ∨
      ∃ call ∈ calls, ¬ call.UncheckedMallocsDeliver ∧
        ∃ last, run exec m calls = .error .nullPointer last := by
  rcases (good_created created).run undamaging with
    ⟨responses, last, returned, good⟩ | ⟨call, member, _, last, ended, rfl, failed⟩
  · exact .inl ⟨responses, last, returned, good.owns.bijection⟩
  · exact .inr ⟨call, member, failed, last, ended⟩

theorem Serving.undamaging {m : Machine} (serving : Serving m) {call : Call}
    (succeeds : call.Succeeds) (noWrap : NoWrap m call) : Undamaging m call := by
  refine ⟨?_, noWrap, ?_⟩
  · cases call with
    | set _ _ _ | del _ _ | get _ _ _ => exact serving.opened
    | reopen _ _ => trivial
  · cases call with
    | set env _ _ | del env _ =>
      have succeeds : env.Succeeds := succeeds
      refine ⟨?_, ?_⟩
      · rw [succeeds.write]
        trivial
      · rw [succeeds.insert]
        decide
    | get _ _ _ | reopen _ _ => trivial

/-- An update whose write leaves its block alone if it fails. -/
def Call.Clean (call : Call) : Prop :=
  (∃ env key size valueData, call.Appends env key size valueData) ∧ call.AllOrNothing

theorem Serving.clean {m : Machine} (serving : Serving m) {call : Call} (clean : call.Clean)
    (noWrap : NoWrap m call) : Undamaging m call ∧
      ∀ response next, exec m call = .ok response next → Serving next ∧
        next.stor.currentSequenceNumber.toNat ≤ m.stor.currentSequenceNumber.toNat + 1 := by
  obtain ⟨⟨env, key, size, valueData, appends⟩, all⟩ := clean
  have parts : Legal m call ∧ env.write.AllOrNothing ∧ env.insert ≠ .tsearchNull := by
    cases appends <;> exact ⟨serving.opened, all⟩
  refine ⟨⟨parts.1, noWrap, all⟩, fun response next returned => ?_⟩
  have outcome := serving.logged.update serving.log appends noWrap parts.2.1 parts.2.2
  rw [returned] at outcome
  generalize ended : EStateM.Result.ok response next = result at outcome
  cases outcome with
  | rejected _ =>
    cases ended
    exact ⟨serving, Nat.le_succ _⟩
  | full accepted _ searched | failed accepted _ _ _ searched =>
    cases ended
    have counter := Machine.nextSequence_toNat (noWrap.1 accepted)
    exact ⟨⟨serving.opened, serving.log, searched⟩, Nat.le_of_eq counter⟩
  | crashed _ => cases ended
  | done accepted _ log logged opened _ _ _ counter =>
    cases ended
    rw [counter, Machine.nextSequence_toNat (noWrap.1 accepted)]
    exact ⟨⟨opened.trans serving.opened, log, logged⟩, Nat.le_refl _⟩

/-- In a short run only clean failures are to be excluded. -/
theorem Serving.undamaging_of_short : ∀ {calls : List Call} {m : Machine}, Serving m →
    (∀ call ∈ calls, call.Succeeds ∨ call.Clean) →
    m.stor.currentSequenceNumber.toNat + calls.length < 2 ^ 64 → Allowed exec Undamaging m calls
  | [], _, _, _, _ => trivial
  | call :: calls, m, serving, each, short => by
    rw [List.length_cons] at short
    have noWrap := serving.noWrap call (by omega)
    have steps : Undamaging m call ∧ ∀ response next, exec m call = .ok response next →
        Serving next ∧
          next.stor.currentSequenceNumber.toNat ≤ m.stor.currentSequenceNumber.toNat + 1 := by
      rcases each call (List.mem_cons_self ..) with succeeds | clean
      · refine ⟨serving.undamaging succeeds noWrap, fun response next returned => ?_⟩
        obtain ⟨_, _, returned', served⟩ := serving.step succeeds noWrap
        rw [returned, EStateM.Result.ok.injEq] at returned'
        exact returned'.2 ▸ ⟨served.serving, served.counter⟩
      · exact serving.clean clean noWrap
    refine ⟨steps.1, fun response next returned => ?_⟩
    obtain ⟨serving', counter⟩ := steps.2 response next returned
    exact serving'.undamaging_of_short
      (fun call' member => each call' (List.mem_cons_of_mem _ member)) (by omega)

/-- Of two keys one cannot be replaced and the other is deleted. -/
def failingRun : List Call :=
  [.set .quiet 1 .one, .set .quiet 2 .one, .set { BlockWrite.quiet with write := .short 0 } 1 .one,
    .del .quiet 2, .reopen 2 .quiet]

theorem failingRun_undamaging : Allowed exec Undamaging (.fresh 3) failingRun := by
  obtain ⟨serving, _, _, counter⟩ := serving_created (created_iff.mpr ⟨3, rfl⟩)
  have clean : Call.Clean (.set { BlockWrite.quiet with write := .short 0 } 1 .one) :=
    ⟨⟨_, _, _, _, .set _ 1 .one⟩, rfl, by decide⟩
  refine serving.undamaging_of_short ?_ (by rw [counter]; decide)
  simp [failingRun, clean, Call.Succeeds, BlockWrite.quiet_succeeds, OpenEnv.quiet_succeeds]

theorem allocator_directory_bijection_failure :
    ∃ responses last, run exec (.fresh 3) failingRun = .ok responses last ∧
      Bijection last.stor.directory last.stor.blockAllocator := by
  rcases allocator_directory_bijection (created_iff.mpr ⟨3, rfl⟩) failingRun_undamaging with
    returned | ⟨call, member, failed, _⟩
  · exact returned
  · refine absurd ?_ failed
    have inserted : InsertResult.inserted ≠ .mallocNull := by decide
    have deliver : ∀ call ∈ failingRun, call.UncheckedMallocsDeliver := by
      simp only [failingRun, List.forall_mem_cons]
      exact ⟨inserted, inserted, inserted, inserted, ⟨rfl, fun _ => inserted⟩, by simp⟩
    exact deliver call member

/-- No run of this kind ends in an assertion. -/
theorem no_assertion_fires {m : Machine} (created : Created m) {calls : List Call}
    (undamaging : Allowed exec Undamaging m calls) (which : Assertion) (last : Machine) :
    run exec m calls ≠ .error (.assertion which) last := by
  intro fired
  rcases (good_created created).run undamaging with
    ⟨responses, last', returned, _⟩ | ⟨_, _, fault, last', ended, null, _⟩
  · rw [fired] at returned
    cases returned
  · rw [fired, null] at ended
    cases ended

theorem no_assertion_fires_failure :
    ¬ ∃ last, run exec (.fresh 3) failingRun = .error (.assertion .sequenceNotReused) last := by
  rintro ⟨last, fired⟩
  exact no_assertion_fires (created_iff.mpr ⟨3, rfl⟩) failingRun_undamaging .sequenceNotReused last
    fired

end KeyValueStore
