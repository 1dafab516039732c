import KeyValueStore.Programs.Harness
import KeyValueStore.TestDirector.Checker

/-! # What the harness reports

Linked with the store of the same directory the harness passes, except that three tests
hand `kv_get` a `struct value` whose size they never set: these pass if and only if that
memory happens to hold enough (`harness_report`). -/

namespace KeyValueStore.Harness

open Clients LittleEndian ByteFile

/-! ## What the rounds of a loop ensure -/

namespace TestValueData

variable {data : TestValueData}

@[simp] theorem length_toBytes : data.toBytes.length = size := by simp [toBytes, size]

@[simp] theorem bytes_value : data.value.bytes = data.toBytes :=
  List.take_of_length_le (Nat.le_of_eq length_toBytes)

/-- What `kv_get` has put into a buffer is the value that was stored. -/
theorem ofBytes_of_take {bytes : Bytes} (stored : bytes.take size = data.toBytes) :
    ofBytes bytes = data := by
  have window : ∀ pos, pos + 8 ≤ size → readAt bytes pos 8 = readAt data.toBytes pos 8 := by
    intro pos inside
    rw [← stored, readAt, readAt, List.drop_take, List.take_take]
    congr 1
    omega
  obtain ⟨key, version⟩ := data
  have wide : ∀ value : UInt64, decode (encode 8 value.toNat) = value.toNat :=
    fun value => decode_encode value.toNat_lt
  have back : readAt (toBytes ⟨key, version⟩) 8 8 = encode 8 version.toNat := by
    rw [toBytes, readAt_append_of_le _ _ (by simp), length_encode]
    simpa using readAt_append_front [] (length_encode 8 version.toNat)
  have front : readAt (toBytes ⟨key, version⟩) 0 8 = encode 8 key.toNat :=
    readAt_append_front _ (length_encode 8 _)
  simp only [ofBytes, window 0 (by decide), window 8 (by decide), front, back, wide]
  simp

end TestValueData

theorem differ_eq_false {a b : Value} (same : b.bytes = a.bytes) : differ a b = false := by
  obtain ⟨size, contents⟩ := (Stress.sameValue_iff a b).mpr same.symm
  rw [← size] at contents
  simp only [differ, ne_eq, size, not_true_eq_false, ← size ▸ contents, or_self, decide_false]

theorem maxValue_fits (i : Nat) :
    (maxValue i).size.toNat ≠ 0 ∧ (maxValue i).size.toNat ≤ MAXBLOB := by
  have size : (maxValue i).size.toNat = MAXBLOB := rfl
  rw [size]
  decide

theorem bytes_maxValue (i : Nat) : (maxValue i).bytes.length = MAXBLOB := by
  simp only [Value.bytes, maxValue, List.length_take, List.length_replicate]
  decide

section Rounds

variable {Abstract : Type} {keeper : Keeper Abstract} {abstract : Abstract} {keys : Finset UInt64}
  {mapping : Mapping}

theorem checkMaxValue_passes {i : Nat} {buffer : ValueBuffer}
    (stored : mapping (.ofNat i) = some (maxValue i).bytes)
    (reads : keeper.Reads keys mapping abstract) :
    (checkMaxValue i buffer).Passes keeper.spec abstract True (keeper.Reads keys mapping) := by
  refine (keeper.read (by simp [stored]) reads).bind ?_
  rintro response after ⟨answers, reads'⟩
  have room : ¬ buffer.value.size.toNat < (maxValue i).bytes.length := by
    rw [bytes_maxValue]
    exact Nat.lt_irrefl _
  simp only [Answers, stored, if_neg room] at answers
  obtain ⟨ret, out, value, _, bytes⟩ := answers
  simp only [ret, value, Option.getD_some, differ_eq_false bytes]
  exact Client.passes_pure reads'

theorem checkVersion_passes {id : UInt64} {version : Nat} {memory : Retrieved}
    (stored : mapping id = some (TestValueData.value ⟨id, .ofNat version⟩).bytes)
    (reads : keeper.Reads keys mapping abstract) :
    (checkVersion id version memory).Passes keeper.spec abstract
      (TestValueData.size ≤ memory.value.size.toNat) (keeper.Reads keys mapping) := by
  refine (keeper.read (by simp [stored]) reads).bind ?_
  rintro response after ⟨answers, reads'⟩
  simp only [Answers, stored, TestValueData.bytes_value, TestValueData.length_toBytes] at answers
  split at answers
  · rename_i small
    subst answers
    have failed : (-EINVAL : Int) ≠ 0 := by decide
    rw [if_pos failed]
    exact ⟨iff_of_false failed (Nat.not_le.mpr small), fun ret => absurd ret failed⟩
  · rename_i room
    obtain ⟨ret, out, value, size, bytes⟩ := answers
    have sixteen : out.size = .ofNat TestValueData.size := UInt64.toNat_inj.mp size
    have data : TestValueData.ofBytes out.data = ⟨id, .ofNat version⟩ := by
      refine TestValueData.ofBytes_of_take ?_
      rwa [Value.bytes, size] at bytes
    simp only [ret, value, Option.getD_some, sixteen, data, ne_eq, not_true_eq_false, or_self,
      if_false]
    exact (Client.passes_pure reads').congr (iff_of_true trivial (Nat.not_lt.mp room))

end Rounds

/-! ## The tests -/

/-- The size of every value that a loop retrieves happens to be enough. -/
def Roomy (memory : Nat → Retrieved) : Prop :=
  ∀ i < keysToStore, TestValueData.size ≤ (memory i).value.size.toNat

/-- The keys of the first rounds. -/
def keysOf (id : Nat → UInt64) (count : Nat) : Finset UInt64 := (Finset.range count).image id

abbrev keysBelow (count : Nat) : Finset UInt64 := keysOf .ofNat count

section Tests

variable {Abstract : Type} (keeper : Keeper Abstract) {abstract : Abstract} {stack : Stack}
  {argc : Nat} {session : Session} {mapping : Mapping}

theorem ofNat_injOn {i j : Nat} (left : i < MAXKEYS) (right : j < MAXKEYS)
    (same : UInt64.ofNat i = UInt64.ofNat j) : i = j := by
  have toNat := congrArg UInt64.toNat same
  simp only [UInt64.toNat_ofNat', MAXKEYS] at toNat left right
  omega

theorem nodup_ofNat {count : Nat} (few : count ≤ MAXKEYS) :
    ((List.range count).map UInt64.ofNat).Nodup := by
  refine List.Nodup.map_on (fun i left j right same => ?_) List.nodup_range
  rw [List.mem_range] at left right
  exact ofNat_injOn (left.trans_le few) (right.trans_le few) same

theorem card_keysOf (id : Nat → UInt64) (count : Nat) : (keysOf id count).card ≤ count :=
  Finset.card_image_le.trans_eq (Finset.card_range count)

theorem mem_keysOf {id : Nat → UInt64} {count i : Nat} (below : i < count) :
    id i ∈ keysOf id count :=
  Finset.mem_image_of_mem _ (Finset.mem_range.mpr below)

theorem testValue_fits : testValue.size.toNat ≠ 0 ∧ testValue.size.toNat ≤ MAXBLOB := by decide

theorem testValue_room {buffer : ValueBuffer} :
    ¬ buffer.value.size.toNat < testValue.bytes.length := by
  have size : buffer.value.size.toNat = MAXBLOB := rfl
  rw [size]
  decide

/-- The tests on the store of `main` use the first `MAXKEYS` keys. -/
theorem kvSetGetCmp_passes (holds : keeper.Holds (keysBelow MAXKEYS) mapping abstract) :
    (kvSetGetCmp stack).Passes keeper.spec abstract True fun after =>
      ∃ mapping', keeper.Holds (keysBelow MAXKEYS) mapping' after := by
  have few : (keysBelow MAXKEYS).card ≤ MAXKEYS := card_keysOf _ _
  have member : (54689 : UInt64) ∈ keysBelow MAXKEYS :=
    @mem_keysOf .ofNat MAXKEYS 54689 (by decide)
  refine (keeper.set few member testValue_fits holds).andThen fun after settled => ?_
  refine (keeper.get (keeper.holds settled)).bind ?_
  rintro response after' ⟨answers, holds'⟩
  simp only [Answers, Function.update_self, if_neg testValue_room] at answers
  obtain ⟨ret, out, value, _, bytes⟩ := answers
  simp only [ret, value, Option.getD_some, differ_eq_false bytes, ne_eq, not_true_eq_false,
    if_false]
  have present : Function.update mapping 54689 (some testValue.bytes) 54689 ≠ none := by
    rw [Function.update_self]
    exact Option.some_ne_none _
  exact (keeper.del few present holds').mono fun _ kept => ⟨_, kept⟩

/-- A value of the largest size for each of the first keys. -/
theorem setRange_passes {count : Nat} (few : count ≤ MAXKEYS)
    (settled : keeper.Settled (keysBelow count) mapping abstract) :
    (Client.untilError (fun i => code (.kvSet (.ofNat i) (maxValue i))) (List.range count)).Passes
      keeper.spec abstract True
      (keeper.Settled (keysBelow count) ((List.range count).foldl (put .ofNat maxValue) mapping)) :=
  keeper.setLoop_passes ((card_keysOf _ count).trans few)
    (fun _ mem => mem_keysOf (List.mem_range.mp mem)) maxValue_fits settled

theorem delRange_passes {count : Nat} (few : count ≤ MAXKEYS) (holds : Holds (keysBelow count)
      ((List.range count).foldl (put .ofNat maxValue) mapping) session) :
    (Client.untilError (fun i => code (.kvDel (.ofNat i))) (List.range count)).Passes (api true)
      session True fun after => ∃ mapping', Holds (keysBelow count) mapping' after := by
  have nodup := nodup_ofNat few
  exact delLoop_passes ((card_keysOf _ count).trans few) nodup
    (fun _ mem => foldl_put_ne_none nodup (List.mem_map_of_mem mem)) holds

theorem canSetMaxValues_passes (holds : Holds (keysBelow MAXKEYS) mapping session) :
    canSetMaxValues.Passes (api true) session True fun after =>
      ∃ mapping', Holds (keysBelow MAXKEYS) mapping' after := by
  have all : MAXKEYS ≤ MAXKEYS := Nat.le_refl MAXKEYS
  unfold canSetMaxValues setMaxValues delMaxValues
  refine (setRange_passes durable all holds).andThen fun after holds' => ?_
  exact delRange_passes all holds'

/-- After the last repetition the map is that of a loop over all keys. -/
theorem canReplaceMaxValues_passes (holds : Holds (keysBelow MAXKEYS) mapping session) :
    canReplaceMaxValues.Passes (api true) session True fun after =>
      ∃ mapping', Holds (keysBelow MAXKEYS) mapping' after := by
  have all : MAXKEYS ≤ MAXKEYS := Nat.le_refl MAXKEYS
  unfold canReplaceMaxValues setMaxValues delMaxValues
  refine (changes_pass (Holds (keysBelow MAXKEYS))
    (fun _ _ _ _ holds' => setRange_passes durable all holds') holds).andThen fun after holds' => ?_
  have last : List.range testRepetitions = [0, 1, 2, 3] ++ [4] := rfl
  rw [last, List.foldl_append, List.foldl_cons, List.foldl_nil] at holds'
  exact delRange_passes all holds'

theorem canPersist_passes (enough : 2 ≤ argc) :
    (canPersist stack argc).Passes keeper.spec abstract True fun _ => True := by
  have few : keysToStore ≤ MAXKEYS := by decide
  have stored : ∀ i ∈ List.range keysToStore, (List.range keysToStore).foldl (put .ofNat maxValue)
      Mapping.empty (.ofNat i) = some (maxValue i).bytes :=
    fun _ mem => foldl_put (nodup_ofNat few) mem
  refine (keeper.create (keysBelow keysToStore) enough).andThen fun _ created => ?_
  refine (setRange_passes keeper few created).andThen fun _ written => ?_
  refine (keeper.reopen written enough).andThen fun _ reopened => ?_
  have checks := checks_pass (keeper.Reads (keysBelow keysToStore) _)
    (fun i mem _ => @checkMaxValue_passes _ keeper _ _ _ _ (stack.persisted i) (stored i mem))
    reopened
  refine (checks.congr (by simp)).andThen fun _ checked => ?_
  exact keeper.close checked

/-- What is stored of a version. -/
def versionValue (id : Nat → UInt64) (v i : Nat) : Value := TestValueData.value ⟨id i, .ofNat v⟩

theorem versionValue_fits (id : Nat → UInt64) (v i : Nat) :
    (versionValue id v i).size.toNat ≠ 0 ∧ (versionValue id v i).size.toNat ≤ MAXBLOB := by
  have size : (versionValue id v i).size.toNat = TestValueData.size := rfl
  rw [size]
  decide

/-- Of all versions the last is there for every key. -/
theorem writeVersions_passes {keys : Finset UInt64} {id : Nat → UInt64} {body : Nat → Nat → Test}
    {start : Nat} (nodup : ((List.range keysToStore).map id).Nodup)
    (round : ∀ v, ∀ i ∈ List.range keysToStore, ∀ mapping abstract,
      keeper.Settled keys mapping abstract → (body v i).Passes keeper.spec abstract True
        (keeper.Settled keys (put id (versionValue id v) mapping i)))
    (settled : keeper.Settled keys mapping abstract) :
    (writeVersions body start).Passes keeper.spec abstract True fun after =>
      ∃ mapping', keeper.Settled keys mapping' after ∧ ∀ i ∈ List.range keysToStore,
        mapping' (id i) = some (versionValue id (start + versionsToWrite - 1) i).bytes := by
  unfold writeVersions
  refine (changes_pass (keeper.Settled keys)
    (fun v _ _ _ settled' => changes_pass (keeper.Settled keys) (round v) settled')
    settled).mono fun after written => ?_
  have last : List.range' start versionsToWrite = List.range' start (versionsToWrite - 1) ++
      [start + versionsToWrite - 1] := List.range'_1_concat
  rw [last, List.foldl_append, List.foldl_cons, List.foldl_nil] at written
  exact ⟨_, written, fun i mem => foldl_put nodup mem⟩

section Versions

variable {keys : Finset UInt64} {id : Nat → UInt64} {v i : Nat}

theorem storeVersion_passes (few : keys.card ≤ MAXKEYS) (member : id i ∈ keys)
    (holds : keeper.Holds keys mapping abstract) :
    (storeVersion (id i) v).Passes keeper.spec abstract True
      (keeper.Settled keys (put id (versionValue id v) mapping i)) :=
  keeper.set few member (versionValue_fits id v i) holds

theorem deleteAndStoreVersion_passes (few : keys.card ≤ MAXKEYS) (member : id i ∈ keys)
    (holds : keeper.Holds keys mapping abstract) :
    (deleteAndStoreVersion (id i) v).Passes keeper.spec abstract True
      (keeper.Settled keys (put id (versionValue id v) mapping i)) := by
  unfold deleteAndStoreVersion
  split
  · refine (keeper.tryDel holds).bind ?_
    rintro _ after (kept | gone)
    · exact storeVersion_passes keeper few member kept
    · have stored := @storeVersion_passes _ keeper _ _ _ _ v i few member gone
      rwa [put, Function.update_idem] at stored
  · exact storeVersion_passes keeper few member holds

end Versions

theorem checkVersions_passes {keys : Finset UInt64} {id : Nat → UInt64} {version : Nat}
    {memory : Nat → Retrieved} (stored : ∀ i ∈ List.range keysToStore,
      mapping (id i) = some (versionValue id version i).bytes)
    (reads : keeper.Reads keys mapping abstract) :
    (checkVersions id version memory).Passes keeper.spec abstract (Roomy memory)
      (keeper.Reads keys mapping) := by
  refine (checks_pass (keeper.Reads keys mapping)
    (fun i mem _ => @checkVersion_passes _ keeper _ _ _ _ _ (memory i) (stored i mem))
    reads).congr ?_
  simp only [Roomy, List.mem_range]

theorem retrievesLatest_passes {id : Nat → UInt64} {body : Nat → Nat → Test}
    {memory : Nat → Retrieved} (enough : 2 ≤ argc)
    (nodup : ((List.range keysToStore).map id).Nodup)
    (round : ∀ v, ∀ i ∈ List.range keysToStore, ∀ mapping abstract,
      keeper.Settled (keysOf id keysToStore) mapping abstract →
      (body v i).Passes keeper.spec abstract True
        (keeper.Settled (keysOf id keysToStore) (put id (versionValue id v) mapping i))) :
    (retrievesLatest id body memory argc).Passes keeper.spec abstract (Roomy memory)
      fun _ => True := by
  refine (keeper.create (keysOf id keysToStore) enough).andThen fun _ created => ?_
  refine (writeVersions_passes keeper nodup round created).andThen ?_
  rintro _ ⟨mapping', written, stored⟩
  refine (keeper.reopen written enough).andThen fun _ reopened => ?_
  refine ((checkVersions_passes keeper stored reopened).seq fun _ checked => ?_).congr
    (Iff.of_eq (and_true _))
  exact keeper.close checked

theorem nodup_keysToStore : ((List.range keysToStore).map UInt64.ofNat).Nodup :=
  nodup_ofNat (by decide)

theorem nodup_deletedId : ((List.range keysToStore).map deletedId).Nodup := by
  refine List.Nodup.map_on (fun i left j right same => ?_) List.nodup_range
  rw [List.mem_range, keysToStore] at left right
  have toNat := congrArg UInt64.toNat same
  have sum : ∀ k < 100, (0x1000000 ||| k) = 2 ^ 24 * 1 + k := by
    intro k small
    have low : k < 2 ^ 24 := by omega
    exact (Nat.two_pow_add_eq_or_of_lt low 1).symm
  simp only [deletedId, UInt64.toNat_ofNat', sum i left, sum j right] at toNat
  omega

theorem keysToStore_few (id : Nat → UInt64) : (keysOf id keysToStore).card ≤ MAXKEYS :=
  (card_keysOf id keysToStore).trans (by decide)

theorem retrievesLatestAfterOverwrites_passes (enough : 2 ≤ argc) :
    (retrievesLatestAfterOverwrites stack argc).Passes keeper.spec abstract
      (Roomy stack.overwritten) fun _ => True :=
  retrievesLatest_passes keeper enough nodup_keysToStore fun _ _ mem _ _ settled =>
    storeVersion_passes keeper (keysToStore_few _) (mem_keysOf (List.mem_range.mp mem))
      (keeper.holds settled)

theorem retrievesLatestAfterDeletes_passes (enough : 2 ≤ argc) :
    (retrievesLatestAfterDeletes stack argc).Passes keeper.spec abstract (Roomy stack.deleted)
      fun _ => True :=
  retrievesLatest_passes keeper enough nodup_deletedId fun _ _ mem _ _ settled =>
    deleteAndStoreVersion_passes keeper (keysToStore_few _) (mem_keysOf (List.mem_range.mp mem))
      (keeper.holds settled)

theorem retrievesLatestTwice_passes (enough : 2 ≤ argc) :
    (retrievesLatestTwice stack argc).Passes (api true) session
      (Roomy stack.first ∧ Roomy stack.second) fun _ => True := by
  have round : ∀ v, ∀ i ∈ List.range keysToStore, ∀ mapping session,
      Holds (keysBelow keysToStore) mapping session →
      (storeVersion (.ofNat i) v).Passes (api true) session True
        (Holds (keysBelow keysToStore) (put .ofNat (versionValue .ofNat v) mapping i)) :=
    fun _ _ mem _ _ holds => storeVersion_passes durable (keysToStore_few _)
      (mem_keysOf (List.mem_range.mp mem)) holds
  refine (create_passes (keysBelow keysToStore) enough).andThen fun _ created => ?_
  refine (writeVersions_passes durable nodup_keysToStore round created).andThen ?_
  rintro _ ⟨mapping', written, stored⟩
  refine (reopen_passes written enough).andThen fun _ reopened => ?_
  refine (checkVersions_passes durable stored reopened).seq fun _ holds => ?_
  refine (writeVersions_passes durable nodup_keysToStore round holds).andThen ?_
  rintro _ ⟨mapping'', written', stored'⟩
  refine (reopen_passes written' enough).andThen fun _ reopened' => ?_
  refine ((checkVersions_passes durable stored' reopened').seq fun _ holds' => ?_).congr
    (Iff.of_eq (and_true _))
  exact (close_passes holds').mono fun _ _ => trivial

/-- A deletion outlasts the replay of the log. -/
theorem cannotGetDeletedValuesAfterReplay_passes (enough : 2 ≤ argc) :
    (cannotGetDeletedValuesAfterReplay stack argc).Passes (api true) session True fun _ => True := by
  have few : ({43} : Finset UInt64).card ≤ MAXKEYS := by decide
  have member : (43 : UInt64) ∈ ({43} : Finset UInt64) := Finset.mem_singleton_self _
  refine (create_passes {43} enough).andThen fun _ created => ?_
  refine (set_passes few member (versionValue_fits (fun _ => 43) 197 0) created).andThen
    fun _ stored => ?_
  have present : Function.update Mapping.empty 43
      (some (versionValue (fun _ => 43) 197 0).bytes) 43 ≠ none := by
    rw [Function.update_self]
    exact Option.some_ne_none _
  refine (del_passes few present stored).andThen fun _ deleted => ?_
  refine (reopen_passes deleted enough).andThen fun _ reopened => ?_
  refine Client.ensures_bind.mpr ((get_ensures reopened).bind ?_)
  rintro response after ⟨answers, holds⟩
  simp only [Answers, Function.update_self] at answers
  subst answers
  have missing : (-ENOENT : Int) ≠ 0 := by decide
  rw [Client.ensures_pure, if_neg fun failed => failed.2 rfl, if_neg missing]
  exact (close_passes holds).mono fun _ _ => trivial

omit keeper in
/-- How a test that passes exactly if `passes` is counted. -/
theorem test_ensures {spec : Spec Abstract Request Response} {body : Test} {passes : Prop}
    [Decidable passes] {post : Abstract → Prop} (tally : Tally) (name : String)
    (ends : body.Passes spec abstract passes post) :
    (test tally body name).Ensures spec abstract fun tally' after =>
      tally' = tally.test (decide passes) name ∧ (passes → post after) := by
  refine Client.Ensures.bind ends ?_
  rintro ret after ⟨zero, holds⟩
  refine ⟨?_, fun passed => holds (zero.mpr passed)⟩
  simp only [zero]

instance (memory : Nat → Retrieved) : Decidable (Roomy memory) :=
  inferInstanceAs (Decidable (∀ i < keysToStore, _))

/-- What `main` counts and prints. -/
def expected (stack : Stack) : Tally :=
  Tally.start
    |>.test true "kv_open"
    |>.test true "kv_set"
    |>.test true "kv_get"
    |>.test true "kv_del"
    |>.test true "kv_set_get_cmp"
    |>.test true "kv_set__can_set_max_values"
    |>.test true "kv_set__can_replace_max_values"
    |>.test true "kv_store_can_persist"
    |>.test (Roomy stack.overwritten) "kv_store_retrieves_latest_persisted_keys_after_overwrites"
    |>.test (Roomy stack.deleted) "kv_store_retrieves_latest_persisted_keys_after_deletes"
    |>.test (Roomy stack.first ∧ Roomy stack.second)
      "kv_store_retrieves_latest_persisted_keys_twice"
    |>.test true "kv_store_cannot_get_deleted_values_after_replay"

/-- One test after the other, each from where the one before it has left the store. -/
theorem kvHarness_ensures (stack : Stack) (enough : 2 ≤ argc) :
    (kvHarness stack argc).Ensures (api true) session fun tally _ => tally = expected stack := by
  have few : (keysBelow MAXKEYS).card ≤ MAXKEYS := card_keysOf _ _
  have member : (123 : UInt64) ∈ keysBelow MAXKEYS := @mem_keysOf .ofNat MAXKEYS 123 (by decide)
  refine (test_ensures _ _ (create_passes (keysBelow MAXKEYS) enough)).bind ?_
  rintro _ _ ⟨rfl, created⟩
  refine (test_ensures _ _ (set_passes few member testValue_fits (created trivial))).bind ?_
  rintro _ _ ⟨rfl, stored⟩
  have found : Function.update Mapping.empty 123 (some testValue.bytes) 123 =
      some testValue.bytes := Function.update_self ..
  refine (test_ensures _ _ (durable.get_passes found testValue_room (stored trivial))).bind ?_
  rintro _ _ ⟨rfl, looked⟩
  refine (test_ensures _ _ (del_passes few (by simp) (looked trivial))).bind ?_
  rintro _ _ ⟨rfl, deleted⟩
  refine (test_ensures _ _ (kvSetGetCmp_passes durable (deleted trivial))).bind ?_
  rintro _ _ ⟨rfl, compared⟩
  obtain ⟨mapping, holds⟩ := compared trivial
  refine (test_ensures _ _ (canSetMaxValues_passes holds)).bind ?_
  rintro _ _ ⟨rfl, set⟩
  obtain ⟨mapping', holds'⟩ := set trivial
  refine (test_ensures _ _ (canReplaceMaxValues_passes holds')).bind ?_
  rintro _ _ ⟨rfl, replaced⟩
  obtain ⟨mapping'', everSet, _, rfl⟩ := replaced trivial
  refine Client.ensures_bind.mpr ⟨trivial, fun _ _ => ?_⟩
  refine (test_ensures _ _ (canPersist_passes durable enough)).bind ?_
  rintro _ _ ⟨rfl, _⟩
  refine (test_ensures _ _ (retrievesLatestAfterOverwrites_passes durable enough)).bind ?_
  rintro _ _ ⟨rfl, _⟩
  refine (test_ensures _ _ (retrievesLatestAfterDeletes_passes durable enough)).bind ?_
  rintro _ _ ⟨rfl, _⟩
  refine (test_ensures _ _ (retrievesLatestTwice_passes enough)).bind ?_
  rintro _ _ ⟨rfl, _⟩
  refine (test_ensures _ _ (cannotGetDeletedValuesAfterReplay_passes enough)).mono ?_
  rintro _ _ ⟨rfl, _⟩
  rfl

end Tests

/-! ## The number of calls -/

section Within

open Client

theorem within_code (request : Request) : (code request).Within 1 := ⟨0, rfl, fun _ => trivial⟩

theorem within_reopen (argc : Nat) : (reopen argc).Within 2 :=
  ⟨1, rfl, fun _ => within_code _⟩

theorem within_close : close.Within 1 := ⟨0, rfl, fun _ => trivial⟩

theorem within_range {body : Nat → Test} {calls : Nat} (round : ∀ i, (body i).Within calls)
    (count : Nat) : (Client.untilError body (List.range count)).Within (count * calls) := by
  simpa only [List.length_range] using Within.untilError round (List.range count)

theorem within_kvSetGetCmp (stack : Stack) : (kvSetGetCmp stack).Within (1 + (1 + 1)) := by
  refine (within_code _).seq (within_call.bind fun response => ?_)
  split
  · exact within_pure
  · split
    · exact within_pure
    · exact within_code _

theorem within_setMaxValues : setMaxValues.Within (MAXKEYS * 1) :=
  within_range (fun _ => within_code _) MAXKEYS

theorem within_delMaxValues : delMaxValues.Within (MAXKEYS * 1) :=
  within_range (fun _ => within_code _) MAXKEYS

theorem within_canPersist (stack : Stack) (argc : Nat) :
    (canPersist stack argc).Within (1 + (keysToStore * 1 + (2 + (keysToStore * (1 + 0) + 1)))) := by
  have check : ∀ i, (checkMaxValue i (stack.persisted i)).Within (1 + 0) := by
    refine fun i => within_call.bind fun response => ?_
    split
    · exact within_pure
    · split <;> exact within_pure
  exact (within_code _).seq ((within_range (fun _ => within_code _) _).seq
    ((within_reopen argc).seq ((within_range check _).seq within_close)))

theorem within_writeVersions {body : Nat → Nat → Test} {calls : Nat}
    (round : ∀ v i, (body v i).Within calls) (start : Nat) :
    (writeVersions body start).Within (versionsToWrite * (keysToStore * calls)) := by
  have loop := Within.untilError (fun v => within_range (round v) keysToStore)
    (List.range' start versionsToWrite)
  rwa [List.length_range'] at loop

theorem within_deleteAndStoreVersion (id : UInt64) (v : Nat) :
    (deleteAndStoreVersion id v).Within (1 + 1) := by
  unfold deleteAndStoreVersion
  split
  · exact within_call.bind fun _ => within_code _
  · exact (within_code _).mono (by decide)

theorem within_checkVersions (id : Nat → UInt64) (version : Nat) (memory : Nat → Retrieved) :
    (checkVersions id version memory).Within (keysToStore * (1 + 0)) := by
  refine within_range (fun i => within_call.bind fun response => ?_) keysToStore
  split
  · exact within_pure
  · dsimp only
    split <;> exact within_pure

theorem within_retrievesLatest {id : Nat → UInt64} {body : Nat → Nat → Test} {calls : Nat}
    (round : ∀ v i, (body v i).Within calls) (memory : Nat → Retrieved) (argc : Nat) :
    (retrievesLatest id body memory argc).Within
      (1 + (versionsToWrite * (keysToStore * calls) + (2 + (keysToStore * (1 + 0) + 1)))) :=
  (within_code _).seq ((within_writeVersions round 0).seq ((within_reopen argc).seq
    ((within_checkVersions _ _ _).seq within_close)))

theorem within_afterOverwrites (stack : Stack) (argc : Nat) :
    (retrievesLatestAfterOverwrites stack argc).Within
      (1 + (versionsToWrite * (keysToStore * 1) + (2 + (keysToStore * (1 + 0) + 1)))) :=
  within_retrievesLatest (fun v i => within_code
    (.kvSet (.ofNat i) (TestValueData.value ⟨.ofNat i, .ofNat v⟩))) stack.overwritten argc

theorem within_afterDeletes (stack : Stack) (argc : Nat) :
    (retrievesLatestAfterDeletes stack argc).Within
      (1 + (versionsToWrite * (keysToStore * (1 + 1)) + (2 + (keysToStore * (1 + 0) + 1)))) :=
  within_retrievesLatest (fun v i => within_deleteAndStoreVersion (deletedId i) v)
    stack.deleted argc

theorem within_retrievesLatestTwice (stack : Stack) (argc : Nat) :
    (retrievesLatestTwice stack argc).Within
      (1 + (versionsToWrite * (keysToStore * 1) + (2 + (keysToStore * (1 + 0) +
        (versionsToWrite * (keysToStore * 1) + (2 + (keysToStore * (1 + 0) + 1))))))) :=
  have writes := within_writeVersions fun v i => within_code
    (.kvSet (.ofNat i) (TestValueData.value ⟨.ofNat i, .ofNat v⟩))
  (within_code _).seq ((writes 0).seq ((within_reopen argc).seq
    ((within_checkVersions _ _ _).seq ((writes newVersionStart).seq
      ((within_reopen argc).seq ((within_checkVersions _ _ _).seq within_close))))))

theorem within_cannotGetDeletedValuesAfterReplay (stack : Stack) (argc : Nat) :
    (cannotGetDeletedValuesAfterReplay stack argc).Within (1 + (1 + (1 + (2 + (1 + 1))))) := by
  refine (within_code _).seq ((within_code _).seq ((within_code _).seq
    ((within_reopen argc).seq ((within_code _).bind fun ret => ?_))))
  split
  · exact within_pure
  · split
    · exact within_pure
    · exact within_close

theorem within_test {body : Test} {calls : Nat} (within : body.Within calls) (tally : Tally)
    (name : String) : (test tally body name).Within (calls + 0) :=
  within.bind fun _ => within_pure

theorem within_canSetMaxValues : canSetMaxValues.Within (MAXKEYS * 1 + MAXKEYS * 1) :=
  within_setMaxValues.seq within_delMaxValues

theorem within_canReplaceMaxValues :
    canReplaceMaxValues.Within (testRepetitions * (MAXKEYS * 1) + MAXKEYS * 1) :=
  (within_range (fun _ => within_setMaxValues) testRepetitions).seq within_delMaxValues

/-- Far fewer than there are sequence numbers. -/
theorem within_kvHarness (stack : Stack) (argc : Nat) : (kvHarness stack argc).Within (2 ^ 20) := by
  have bound := (within_test (within_code (.kvOpen true argc)) .start "kv_open").bind fun tally =>
    (within_test (within_code (.kvSet 123 testValue)) tally "kv_set").bind fun tally =>
    (within_test (within_code (.kvGet 123 stack.output.value)) tally "kv_get").bind fun tally =>
    (within_test (within_code (.kvDel 123)) tally "kv_del").bind fun tally =>
    (within_test (within_kvSetGetCmp stack) tally "kv_set_get_cmp").bind fun tally =>
    (within_test within_canSetMaxValues tally "kv_set__can_set_max_values").bind fun tally =>
    (within_test within_canReplaceMaxValues tally "kv_set__can_replace_max_values").bind
      fun tally =>
    (@within_call _ _ Request.kvClose).bind fun _ =>
    (within_test (within_canPersist stack argc) tally "kv_store_can_persist").bind fun tally =>
    (within_test (within_afterOverwrites stack argc) tally
      "kv_store_retrieves_latest_persisted_keys_after_overwrites").bind fun tally =>
    (within_test (within_afterDeletes stack argc) tally
      "kv_store_retrieves_latest_persisted_keys_after_deletes").bind fun tally =>
    (within_test (within_retrievesLatestTwice stack argc) tally
      "kv_store_retrieves_latest_persisted_keys_twice").bind fun tally =>
    within_test (within_cannotGetDeletedValuesAfterReplay stack argc) tally
      "kv_store_cannot_get_deleted_values_after_replay"
  exact bound.mono (by decide)

end Within

/-! ## The report -/

theorem testfail_expected (stack : Stack) : (expected stack).testfail = 0 ↔
    Roomy stack.overwritten ∧ Roomy stack.deleted ∧ Roomy stack.first ∧ Roomy stack.second := by
  simp only [expected, Tally.test, Tally.start, if_true, decide_eq_true_eq]
  split_ifs <;> simp_all

/-- With the store of `submission` every test passes but for those that retrieve into memory
which happens to hold too small a size. -/
theorem harness_report {circumstances : Nat → Circumstances}
    (letThrough : ∀ count, (circumstances count).LetThrough) {argc : Nat} (enough : 2 ≤ argc)
    (stack : Stack) (m : Machine) :
    ∃ tally count last, (kvHarness stack argc).run (serve circumstances) 0 m =
        .ok (tally, count) last ∧ tally = expected stack ∧
      (tally.testfail = 0 ↔ Roomy stack.overwritten ∧ Roomy stack.deleted ∧ Roomy stack.first ∧
        Roomy stack.second) := by
  obtain ⟨tally, count, last, _, returned, rfl⟩ := run_serves letThrough
    (kvHarness_ensures stack enough) (within_kvHarness stack argc) (by decide) m
  exact ⟨_, count, last, returned, rfl, testfail_expected stack⟩

/-- A stack of zeros. -/
def Stack.zero : Stack where
  output := .zeros
  compared := .zeros
  persisted := fun _ => .zeros
  overwritten := fun _ => ⟨⟨0, List.replicate 16 0, by decide⟩, by decide⟩
  deleted := fun _ => ⟨⟨0, List.replicate 16 0, by decide⟩, by decide⟩
  first := fun _ => ⟨⟨0, List.replicate 16 0, by decide⟩, by decide⟩
  second := fun _ => ⟨⟨0, List.replicate 16 0, by decide⟩, by decide⟩
  replayed := ⟨⟨0, List.replicate 16 0, by decide⟩, by decide⟩

theorem harness_report_zero :
    ∃ count last, (kvHarness .zero 2).run (serve fun _ => .quiet) 0 (.fresh 3) =
      .ok (expected .zero, count) last ∧ (expected .zero).testfail = 3 := by
  obtain ⟨_, count, last, returned, rfl, _⟩ := harness_report
    (fun _ => Circumstances.quiet_letThrough) (Nat.le_refl 2) .zero (.fresh 3)
  exact ⟨count, last, returned, by decide⟩

end KeyValueStore.Harness
