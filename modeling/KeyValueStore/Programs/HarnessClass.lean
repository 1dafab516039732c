import KeyValueStore.Programs.HarnessReport
import KeyValueStore.Programs.Reopening

/-! # `kv_harness.c` of the class store

The older copy of the test program, for the class store.  Its tests set values, open the file
again and only look at what is there, so the class store passes them as the durable store does
(`class_harness_report`); the tests that the newer copy adds do not stop there. -/

namespace KeyValueStore.Harness

open Clients

/-! ## The class store for a program of this kind -/

/-- The store is open as the program created it. -/
def Writes (keys : Finset UInt64) (mapping : Mapping) (history : KvStore.History)
    (updates : List KvStore.Update) : Prop :=
  ∃ everSet ⊆ keys, history = ⟨.opened ⟨mapping, everSet⟩, .writing updates⟩

/-- It has been opened again. -/
def Reads (keys : Finset UInt64) (mapping : Mapping) (history : KvStore.History) : Prop :=
  ∃ everSet ⊆ keys, history = ⟨.opened ⟨mapping, everSet⟩, .reading⟩

section Calls

variable {keys : Finset UInt64} {mapping : Mapping} {history : KvStore.History}
  {updates : List KvStore.Update} {key : UInt64} {v : Value} {argc : Nat}

theorem again_create_passes (keys : Finset UInt64) (enough : 2 ≤ argc) :
    (code (.kvOpen true argc)).Passes KvStore.again history True fun after =>
      Writes keys Mapping.empty after [] := by
  obtain ⟨session, stage⟩ := history
  have permitted : stage.permits session (.kvOpen true argc) := by
    cases stage with
    | writing updates => exact .inl rfl
    | reading => cases session <;> trivial
  refine ⟨⟨⟨enough, .inl rfl⟩, permitted⟩, fun response answered => ?_⟩
  have ret : response.ret = 0 := by cases session <;> exact answered
  refine ⟨iff_of_true ret trivial, fun _ => ⟨∅, Finset.empty_subset _, ?_⟩⟩
  cases session <;> rfl

theorem again_set_passes (few : keys.card ≤ MAXKEYS) (member : key ∈ keys)
    (fits : v.size.toNat ≠ 0 ∧ v.size.toNat ≤ MAXBLOB)
    (writes : Writes keys mapping history updates) :
    (code (.kvSet key v)).Passes KvStore.again history True fun after =>
      Writes keys (Function.update mapping key (some v.bytes)) after
        (.set key v.bytes :: updates) := by
  obtain ⟨everSet, subset, rfl⟩ := writes
  refine ⟨⟨trivial, trivial⟩, fun response answered => ?_⟩
  have ret := ret_of_set few subset fits answered
  refine ⟨iff_of_true ret trivial, fun _ => ⟨insert key everSet, ?_, ?_⟩⟩
  · exact Finset.insert_subset member subset
  · simp only [KvStore.again, api, Session.record, Reference.record, Mapping.record, recordKey,
      KvStore.Stage.record, KvStore.recordUpdate, if_pos ret]

theorem again_del_passes (few : keys.card ≤ MAXKEYS) (present : mapping key ≠ none)
    (writes : Writes keys mapping history updates) :
    (code (.kvDel key)).Passes KvStore.again history True fun after =>
      Writes keys (Function.update mapping key none) after (.del key :: updates) := by
  obtain ⟨everSet, subset, rfl⟩ := writes
  refine ⟨⟨trivial, trivial⟩, fun response answered => ?_⟩
  have ret := ret_of_del few subset present answered
  refine ⟨iff_of_true ret trivial, fun _ => ⟨everSet, subset, ?_⟩⟩
  simp only [KvStore.again, api, Session.record, Reference.record, Mapping.record, recordKey,
    KvStore.Stage.record, KvStore.recordUpdate, if_pos ret]

theorem again_del_ensures (writes : Writes keys mapping history updates) :
    (Client.call (.kvDel key)).Ensures KvStore.again history fun _ after => ∃ updates',
      Writes keys mapping after updates' ∨
        Writes keys (Function.update mapping key none) after updates' := by
  obtain ⟨everSet, subset, rfl⟩ := writes
  refine ⟨⟨trivial, trivial⟩, fun response _ => ?_⟩
  by_cases ret : response.ret = 0
  · refine ⟨.del key :: updates, .inr ⟨everSet, subset, ?_⟩⟩
    simp only [KvStore.again, api, Session.record, Reference.record, Mapping.record, recordKey,
      KvStore.Stage.record, KvStore.recordUpdate, if_pos ret]
  · refine ⟨updates, .inl ⟨everSet, subset, ?_⟩⟩
    simp only [KvStore.again, api, Session.record, Reference.record, Mapping.record, recordKey,
      KvStore.Stage.record, KvStore.recordUpdate, if_neg ret]

theorem again_get_ensures (writes : Writes keys mapping history updates) :
    (Client.call (.kvGet key v)).Ensures KvStore.again history fun response after =>
      Answers mapping (.get .full key v) response ∧ Writes keys mapping after updates := by
  obtain ⟨everSet, subset, rfl⟩ := writes
  exact ⟨⟨trivial, trivial⟩, fun response answered => ⟨answered, everSet, subset, rfl⟩⟩

theorem again_reopen_passes (writes : Writes keys mapping history updates)
    (opens : ¬ KvStore.Undoes updates) (enough : 2 ≤ argc) :
    (reopen argc).Passes KvStore.again history True (Reads keys mapping) := by
  obtain ⟨everSet, subset, rfl⟩ := writes
  refine ⟨⟨trivial, trivial⟩, fun _ _ => ?_⟩
  refine ⟨⟨⟨enough, .inr ⟨rfl, _, rfl⟩⟩, .inr opens⟩, fun response (ret : response.ret = 0) => ?_⟩
  exact ⟨iff_of_true ret trivial, fun _ => ⟨everSet, subset, rfl⟩⟩

theorem again_read_ensures (present : mapping key ≠ none) (reads : Reads keys mapping history) :
    (Client.call (.kvGet key v)).Ensures KvStore.again history fun response after =>
      Answers mapping (.get .full key v) response ∧ Reads keys mapping after := by
  obtain ⟨everSet, subset, rfl⟩ := reads
  exact ⟨⟨trivial, present⟩, fun response answered => ⟨answered, everSet, subset, rfl⟩⟩

end Calls

/-- The class store keeps what such a program writes, if it opens its file after a set. -/
def openedAgain : Keeper KvStore.History where
  spec := KvStore.again
  Holds keys mapping history := ∃ updates, Writes keys mapping history updates
  Settled keys mapping history :=
    ∃ updates, Writes keys mapping history updates ∧ ¬ KvStore.Undoes updates
  Reads := Reads
  holds := fun ⟨updates, writes, _⟩ => ⟨updates, writes⟩
  create keys _ _ enough :=
    (again_create_passes keys enough).mono fun _ writes => ⟨[], writes, id⟩
  set few member fits := fun ⟨_, writes⟩ =>
    (again_set_passes few member fits writes).mono fun _ kept => ⟨_, kept, id⟩
  del few present := fun ⟨_, writes⟩ =>
    (again_del_passes few present writes).mono fun _ kept => ⟨_, kept⟩
  tryDel := fun ⟨_, writes⟩ => (again_del_ensures writes).mono fun _ _ ⟨updates, either⟩ =>
    either.imp (fun kept => ⟨updates, kept⟩) fun gone => ⟨updates, gone⟩
  get := fun ⟨_, writes⟩ => (again_get_ensures writes).mono fun _ _ ⟨answers, kept⟩ =>
    ⟨answers, _, kept⟩
  leave := by
    rintro keys mapping history ⟨updates, everSet, _, rfl⟩
    exact ⟨⟨trivial, trivial⟩, fun _ _ => trivial⟩
  reopen := fun ⟨_, writes, opens⟩ enough => again_reopen_passes writes opens enough
  read := again_read_ensures
  close := by
    rintro keys mapping history ⟨everSet, _, rfl⟩
    exact ⟨⟨trivial, trivial⟩, fun _ _ => ⟨iff_of_true rfl trivial, fun _ => trivial⟩⟩

/-! ## The program -/

/-- `main` of the older copy, in which two tests are commented out. -/
def kvHarnessClass (stack : Stack) (argc : Nat) : Client Request Response Tally := do
  let tally ← test .start (code (.kvOpen true argc)) "kv_open"
  let tally ← test tally (code (.kvSet 123 testValue)) "kv_set"
  let tally ← test tally (code (.kvGet 123 stack.output.value)) "kv_get"
  let tally ← test tally (code (.kvDel 123)) "kv_del"
  let tally ← test tally (kvSetGetCmp stack) "kv_set_get_cmp"
  let _ ← Client.call .kvClose
  let tally ← test tally (canPersist stack argc) "kv_store_can_persist"
  let tally ← test tally (retrievesLatestAfterOverwrites stack argc)
    "kv_store_retrieves_latest_persisted_keys_after_overwrites"
  test tally (retrievesLatestAfterDeletes stack argc)
    "kv_store_retrieves_latest_persisted_keys_after_deletes"

/-- What it counts and prints. -/
def expectedClass (stack : Stack) : Tally :=
  Tally.start
    |>.test true "kv_open"
    |>.test true "kv_set"
    |>.test true "kv_get"
    |>.test true "kv_del"
    |>.test true "kv_set_get_cmp"
    |>.test true "kv_store_can_persist"
    |>.test (Roomy stack.overwritten) "kv_store_retrieves_latest_persisted_keys_after_overwrites"
    |>.test (Roomy stack.deleted) "kv_store_retrieves_latest_persisted_keys_after_deletes"

theorem kvHarnessClass_ensures {Abstract : Type} (keeper : Keeper Abstract) {abstract : Abstract}
    (stack : Stack) {argc : Nat} (enough : 2 ≤ argc) :
    (kvHarnessClass stack argc).Ensures keeper.spec abstract fun tally _ =>
      tally = expectedClass stack := by
  have few : (keysBelow MAXKEYS).card ≤ MAXKEYS := card_keysOf _ _
  have member : (123 : UInt64) ∈ keysBelow MAXKEYS := @mem_keysOf .ofNat MAXKEYS 123 (by decide)
  refine (test_ensures _ _ (keeper.create (keysBelow MAXKEYS) enough)).bind ?_
  rintro _ _ ⟨rfl, created⟩
  refine (test_ensures _ _ (keeper.set few member testValue_fits
    (keeper.holds (created trivial)))).bind ?_
  rintro _ _ ⟨rfl, stored⟩
  have found : Function.update Mapping.empty 123 (some testValue.bytes) 123 =
      some testValue.bytes := Function.update_self ..
  refine (test_ensures _ _ (keeper.get_passes found testValue_room
    (keeper.holds (stored trivial)))).bind ?_
  rintro _ _ ⟨rfl, looked⟩
  refine (test_ensures _ _ (keeper.del few (by simp) (looked trivial))).bind ?_
  rintro _ _ ⟨rfl, deleted⟩
  refine (test_ensures _ _ (kvSetGetCmp_passes keeper (deleted trivial))).bind ?_
  rintro _ _ ⟨rfl, compared⟩
  obtain ⟨mapping, holds⟩ := compared trivial
  refine (keeper.leave holds).bind fun _ _ _ => ?_
  refine (test_ensures _ _ (canPersist_passes keeper enough)).bind ?_
  rintro _ _ ⟨rfl, _⟩
  refine (test_ensures _ _ (retrievesLatestAfterOverwrites_passes keeper enough)).bind ?_
  rintro _ _ ⟨rfl, _⟩
  refine (test_ensures _ _ (retrievesLatestAfterDeletes_passes keeper enough)).mono ?_
  rintro _ _ ⟨rfl, _⟩
  rfl

theorem within_kvHarnessClass (stack : Stack) (argc : Nat) :
    (kvHarnessClass stack argc).Within (2 ^ 20) := by
  have bound := (within_test (within_code (.kvOpen true argc)) .start "kv_open").bind fun tally =>
    (within_test (within_code (.kvSet 123 testValue)) tally "kv_set").bind fun tally =>
    (within_test (within_code (.kvGet 123 stack.output.value)) tally "kv_get").bind fun tally =>
    (within_test (within_code (.kvDel 123)) tally "kv_del").bind fun tally =>
    (within_test (within_kvSetGetCmp stack) tally "kv_set_get_cmp").bind fun tally =>
    (@Client.within_call _ _ Request.kvClose).bind fun _ =>
    (within_test (within_canPersist stack argc) tally "kv_store_can_persist").bind fun tally =>
    (within_test (within_afterOverwrites stack argc) tally
      "kv_store_retrieves_latest_persisted_keys_after_overwrites").bind fun tally =>
    within_test (within_afterDeletes stack argc) tally
      "kv_store_retrieves_latest_persisted_keys_after_deletes"
  exact bound.mono (by decide)

/-! ## The report -/

theorem testfail_expectedClass (stack : Stack) :
    (expectedClass stack).testfail = 0 ↔ Roomy stack.overwritten ∧ Roomy stack.deleted := by
  simp only [expectedClass, Tally.test, Tally.start, if_true, decide_eq_true_eq]
  split_ifs <;> simp_all

/-- With the class store, in either text, every test passes but for the two that retrieve into
memory, if that happens to hold too small a size. -/
theorem class_harness_report {port : KvStore.Port} {circumstances : Nat → KvStore.Circumstances}
    (letThrough : ∀ count, (circumstances count).LetAllThrough port) {argc : Nat}
    (enough : 2 ≤ argc) (stack : Stack) (m : Machine) :
    ∃ tally count last, (kvHarnessClass stack argc).run (KvStore.serve port circumstances) 0 m =
        .ok (tally, count) last ∧ tally = expectedClass stack ∧
      (tally.testfail = 0 ↔ Roomy stack.overwritten ∧ Roomy stack.deleted) := by
  obtain ⟨tally, count, last, _, returned, rfl⟩ := KvStore.run_serves_again letThrough
    (kvHarnessClass_ensures openedAgain stack enough) (within_kvHarnessClass stack argc)
    (by decide) m
  exact ⟨_, count, last, returned, rfl, testfail_expectedClass stack⟩

theorem class_harness_report_zero :
    ∃ count last, (kvHarnessClass .zero 2).run (KvStore.serve .c fun _ => .quiet) 0 (.fresh 3) =
      .ok (expectedClass .zero, count) last ∧ (expectedClass .zero).testfail = 2 := by
  obtain ⟨_, count, last, returned, rfl, _⟩ := class_harness_report
    (fun _ => KvStore.Circumstances.quiet_letAllThrough .c) (Nat.le_refl 2) .zero (.fresh 3)
  exact ⟨count, last, returned, by decide⟩

end KeyValueStore.Harness
