import KeyValueStore.Programs.Session

/-! # Programs that look at the codes of their calls

What the calls of `kv_store.h` ensure for a program that gives up at the first code other than
0: a rule for each call, and one for each kind of loop.  The tests of a program that need no
more of a store than a `Keeper` has are proved for all such stores at once; the durable store
is one (`durable`). -/

namespace KeyValueStore.Harness

open Clients

abbrev Test := Client Request Response Int

/-- A call for its code. -/
def code (request : Request) : Test := do
  let response ← Client.call request
  return response.ret

/-- `kv_close`, then `kv_open` of the same file. -/
def reopen (argc : Nat) : Test := do
  let _ ← Client.call .kvClose
  code (.kvOpen false argc)

/-- `kv_close(stor); return 0;` -/
def close : Test := do
  let _ ← Client.call .kvClose
  return 0

/-! ## What the calls ensure -/

/-- The store is open, holds `mapping`, and has never had a key other than `keys`. -/
def Holds (keys : Finset UInt64) (mapping : Mapping) (session : Session) : Prop :=
  ∃ everSet ⊆ keys, session = .opened ⟨mapping, everSet⟩

/-- So it did when it was closed. -/
def Held (keys : Finset UInt64) (mapping : Mapping) (session : Session) : Prop :=
  ∃ everSet ⊆ keys, session = .closed ⟨mapping, everSet⟩

section Calls

variable {keys : Finset UInt64} {mapping : Mapping} {session : Session} {key : UInt64} {v : Value}
  {argc : Nat}

theorem create_passes (keys : Finset UInt64) (enough : 2 ≤ argc) :
    (code (.kvOpen true argc)).Passes (api true) session True (Holds keys Mapping.empty) := by
  refine ⟨⟨enough, .inl rfl⟩, fun response answered => ?_⟩
  have ret : response.ret = 0 := by cases session <;> exact answered
  refine ⟨iff_of_true ret trivial, fun _ => ⟨∅, Finset.empty_subset _, ?_⟩⟩
  cases session <;> rfl

theorem open_passes (held : Held keys mapping session) (enough : 2 ≤ argc) :
    (code (.kvOpen false argc)).Passes (api true) session True (Holds keys mapping) := by
  obtain ⟨everSet, subset, rfl⟩ := held
  exact ⟨⟨enough, .inr ⟨rfl, _, rfl⟩⟩, fun response (ret : response.ret = 0) =>
    ⟨iff_of_true ret trivial, fun _ => ⟨everSet, subset, rfl⟩⟩⟩

theorem reopen_passes (holds : Holds keys mapping session) (enough : 2 ≤ argc) :
    (reopen argc).Passes (api true) session True (Holds keys mapping) := by
  obtain ⟨everSet, subset, rfl⟩ := holds
  exact ⟨trivial, fun _ _ => open_passes ⟨everSet, subset, rfl⟩ enough⟩

theorem close_passes (holds : Holds keys mapping session) :
    close.Passes (api true) session True (Held keys mapping) := by
  obtain ⟨everSet, subset, rfl⟩ := holds
  exact ⟨trivial, fun _ _ => ⟨iff_of_true rfl trivial, fun _ => ⟨everSet, subset, rfl⟩⟩⟩

/-- A set that fits has the code 0 as long as there are few keys. -/
theorem ret_of_set {everSet : Finset UInt64} {response : Response} (few : keys.card ≤ MAXKEYS)
    (subset : everSet ⊆ keys) (fits : v.size.toNat ≠ 0 ∧ v.size.toNat ≤ MAXBLOB)
    (answered : Session.answers (.opened ⟨mapping, everSet⟩) (.kvSet key v) response) :
    response.ret = 0 := by
  obtain ⟨⟨invalid, codes⟩, room⟩ := answered
  rcases codes with ret | ret | ret
  · exact ret
  · have := invalid.mp ret
    omega
  · exact absurd ret (room ((Finset.card_le_card subset).trans few))

theorem ret_of_del {everSet : Finset UInt64} {response : Response} (few : keys.card ≤ MAXKEYS)
    (subset : everSet ⊆ keys) (present : mapping key ≠ none)
    (answered : Session.answers (.opened ⟨mapping, everSet⟩) (.kvDel key) response) :
    response.ret = 0 := by
  obtain ⟨⟨missing, codes⟩, room⟩ := answered
  rcases codes with ret | ret | ret
  · exact ret
  · exact absurd (missing.mp ret) present
  · exact absurd ret (room ((Finset.card_le_card subset).trans few))

theorem set_passes (few : keys.card ≤ MAXKEYS) (member : key ∈ keys)
    (fits : v.size.toNat ≠ 0 ∧ v.size.toNat ≤ MAXBLOB) (holds : Holds keys mapping session) :
    (code (.kvSet key v)).Passes (api true) session True
      (Holds keys (Function.update mapping key (some v.bytes))) := by
  obtain ⟨everSet, subset, rfl⟩ := holds
  refine ⟨trivial, fun response answered => ?_⟩
  have ret := ret_of_set few subset fits answered
  refine ⟨iff_of_true ret trivial, fun _ => ⟨insert key everSet, ?_, ?_⟩⟩
  · exact Finset.insert_subset member subset
  · simp only [api, Session.record, Reference.record, Mapping.record, recordKey, if_pos ret]

theorem del_passes (few : keys.card ≤ MAXKEYS) (present : mapping key ≠ none)
    (holds : Holds keys mapping session) :
    (code (.kvDel key)).Passes (api true) session True
      (Holds keys (Function.update mapping key none)) := by
  obtain ⟨everSet, subset, rfl⟩ := holds
  refine ⟨trivial, fun response answered => ?_⟩
  have ret := ret_of_del few subset present answered
  refine ⟨iff_of_true ret trivial, fun _ => ⟨everSet, subset, ?_⟩⟩
  simp only [api, Session.record, Reference.record, Mapping.record, recordKey, if_pos ret]

/-- A deletion, whether there is anything to delete or not. -/
theorem del_ensures (holds : Holds keys mapping session) :
    (Client.call (.kvDel key)).Ensures (api true) session fun _ after =>
      Holds keys mapping after ∨ Holds keys (Function.update mapping key none) after := by
  obtain ⟨everSet, subset, rfl⟩ := holds
  refine ⟨trivial, fun response _ => ?_⟩
  by_cases ret : response.ret = 0
  · refine .inr ⟨everSet, subset, ?_⟩
    simp only [api, Session.record, Reference.record, Mapping.record, recordKey, if_pos ret]
  · refine .inl ⟨everSet, subset, ?_⟩
    simp only [api, Session.record, Reference.record, Mapping.record, recordKey, if_neg ret]

theorem get_ensures (holds : Holds keys mapping session) :
    (Client.call (.kvGet key v)).Ensures (api true) session fun response after =>
      Answers mapping (.get .full key v) response ∧ Holds keys mapping after := by
  obtain ⟨everSet, subset, rfl⟩ := holds
  exact ⟨trivial, fun response answered => ⟨answered, everSet, subset, rfl⟩⟩

end Calls

/-! ## Stores that keep what is written -/

/-- The spec of a store, and what it gives a program that writes a file and then reads it.
While the program writes the store `Holds` a map of some of the keys.  If nothing was deleted
since the last set it is `Settled`: it can be opened again, and then `Reads` the map. -/
structure Keeper (Abstract : Type) where
  spec : Spec Abstract Request Response
  Holds : Finset UInt64 → Mapping → Abstract → Prop
  Settled : Finset UInt64 → Mapping → Abstract → Prop
  Reads : Finset UInt64 → Mapping → Abstract → Prop
  holds : ∀ {keys mapping abstract}, Settled keys mapping abstract → Holds keys mapping abstract
  create : ∀ (keys : Finset UInt64) {argc : Nat} {abstract : Abstract}, 2 ≤ argc →
    (code (.kvOpen true argc)).Passes spec abstract True (Settled keys Mapping.empty)
  set : ∀ {keys mapping abstract key v}, keys.card ≤ MAXKEYS → key ∈ keys →
    v.size.toNat ≠ 0 ∧ v.size.toNat ≤ MAXBLOB → Holds keys mapping abstract →
    (code (.kvSet key v)).Passes spec abstract True
      (Settled keys (Function.update mapping key (some v.bytes)))
  del : ∀ {keys mapping abstract key}, keys.card ≤ MAXKEYS → mapping key ≠ none →
    Holds keys mapping abstract → (code (.kvDel key)).Passes spec abstract True
      (Holds keys (Function.update mapping key none))
  /-- A deletion, whether there is anything to delete or not. -/
  tryDel : ∀ {keys mapping abstract key}, Holds keys mapping abstract →
    (Client.call (.kvDel key)).Ensures spec abstract fun _ after =>
      Holds keys mapping after ∨ Holds keys (Function.update mapping key none) after
  get : ∀ {keys mapping abstract key v}, Holds keys mapping abstract →
    (Client.call (.kvGet key v)).Ensures spec abstract fun response after =>
      Answers mapping (.get .full key v) response ∧ Holds keys mapping after
  leave : ∀ {keys mapping abstract}, Holds keys mapping abstract →
    (Client.call .kvClose).Ensures spec abstract fun _ _ => True
  reopen : ∀ {keys mapping abstract argc}, Settled keys mapping abstract → 2 ≤ argc →
    (reopen argc).Passes spec abstract True (Reads keys mapping)
  read : ∀ {keys mapping abstract key v}, mapping key ≠ none → Reads keys mapping abstract →
    (Client.call (.kvGet key v)).Ensures spec abstract fun response after =>
      Answers mapping (.get .full key v) response ∧ Reads keys mapping after
  close : ∀ {keys mapping abstract}, Reads keys mapping abstract →
    close.Passes spec abstract True fun _ => True

/-- The durable store does so whatever the program does. -/
def durable : Keeper Session where
  spec := api true
  Holds := Harness.Holds
  Settled := Harness.Holds
  Reads := Harness.Holds
  holds := id
  create keys := create_passes keys
  set := set_passes
  del := del_passes
  tryDel := del_ensures
  get := get_ensures
  leave := by
    rintro keys mapping session ⟨everSet, _, rfl⟩
    exact ⟨trivial, fun _ _ => trivial⟩
  reopen := reopen_passes
  read _ := get_ensures
  close holds := (close_passes holds).mono fun _ _ => trivial

/-- A value that fits the buffer. -/
theorem Keeper.get_passes {Abstract : Type} (keeper : Keeper Abstract) {abstract : Abstract}
    {keys : Finset UInt64} {mapping : Mapping} {key : UInt64} {v : Value} {bytes : Bytes}
    (stored : mapping key = some bytes) (room : ¬ v.size.toNat < bytes.length)
    (holds : keeper.Holds keys mapping abstract) :
    (code (.kvGet key v)).Passes keeper.spec abstract True (keeper.Holds keys mapping) := by
  refine (keeper.get holds).bind ?_
  rintro response after ⟨answers, holds'⟩
  simp only [Answers, stored, if_neg room] at answers
  exact ⟨iff_of_true answers.1 trivial, fun _ => holds'⟩

/-! ## Loops -/

/-- The map after a round that sets. -/
def put (id : Nat → UInt64) (value : Nat → Value) (mapping : Mapping) (i : Nat) : Mapping :=
  Function.update mapping (id i) (some (value i).bytes)

section Put

variable {id : Nat → UInt64} {value : Nat → Value}

theorem foldl_put_of_not_mem : ∀ {items : List Nat} {mapping : Mapping} {key : UInt64},
    key ∉ items.map id → items.foldl (put id value) mapping key = mapping key
  | [], _, _, _ => rfl
  | i :: items, mapping, key, absent => by
    rw [List.map_cons, List.mem_cons, not_or] at absent
    rw [List.foldl_cons, foldl_put_of_not_mem absent.2, put, Function.update_of_ne absent.1]

/-- With keys that differ each keeps the value of its round. -/
theorem foldl_put : ∀ {items : List Nat} {mapping : Mapping} {i : Nat},
    (items.map id).Nodup → i ∈ items →
    items.foldl (put id value) mapping (id i) = some (value i).bytes
  | j :: items, mapping, i, nodup, mem => by
    rw [List.map_cons, List.nodup_cons] at nodup
    rw [List.foldl_cons]
    by_cases later : i ∈ items
    · exact foldl_put nodup.2 later
    · obtain rfl : i = j := (List.mem_cons.mp mem).resolve_right later
      rw [foldl_put_of_not_mem nodup.1, put, Function.update_self]

theorem foldl_put_ne_none {items : List Nat} {mapping : Mapping} {key : UInt64}
    (nodup : (items.map id).Nodup) (mem : key ∈ items.map id) :
    items.foldl (put id value) mapping key ≠ none := by
  obtain ⟨i, member, rfl⟩ := List.mem_map.mp mem
  rw [foldl_put nodup member]
  exact Option.some_ne_none _

end Put

section Loops

variable {Abstract : Type} {spec : Spec Abstract Request Response} {abstract : Abstract}
  {keys : Finset UInt64} {mapping : Mapping} {body : Nat → Test} {items : List Nat}

/-- A loop whose rounds each change the map does so one after the other. -/
theorem changes_pass (Keeps : Mapping → Abstract → Prop) {f : Mapping → Nat → Mapping}
    (round : ∀ i ∈ items, ∀ mapping abstract, Keeps mapping abstract →
      (body i).Passes spec abstract True (Keeps (f mapping i)))
    (keeps : Keeps mapping abstract) :
    (Client.untilError body items).Passes spec abstract True (Keeps (items.foldl f mapping)) := by
  let invariant (rest : List Nat) (abstract : Abstract) : Prop := (∀ i ∈ rest, i ∈ items) ∧
    ∃ mapping', Keeps mapping' abstract ∧ rest.foldl f mapping' = items.foldl f mapping
  have step : ∀ i rest before, invariant (i :: rest) before →
      (body i).Passes spec before True (invariant rest) := by
    rintro i rest before ⟨members, mapping', keeps', same⟩
    refine (round i (members i (.head _)) mapping' before keeps').mono fun after kept => ?_
    exact ⟨fun j mem => members j (.tail _ mem), f mapping' i, kept, same⟩
  have start : invariant items abstract := ⟨fun _ mem => mem, mapping, keeps, rfl⟩
  refine ((Client.Passes.untilError step start).congr (by simp)).mono ?_
  rintro after ⟨_, mapping', keeps', same⟩
  exact same ▸ keeps'

/-- A loop that only looks. -/
theorem checks_pass (Keeps : Abstract → Prop) {good : Nat → Prop}
    (round : ∀ i ∈ items, ∀ abstract, Keeps abstract →
      (body i).Passes spec abstract (good i) Keeps)
    (keeps : Keeps abstract) :
    (Client.untilError body items).Passes spec abstract (∀ i ∈ items, good i) Keeps := by
  let invariant (rest : List Nat) (abstract : Abstract) : Prop :=
    (∀ i ∈ rest, i ∈ items) ∧ Keeps abstract
  have step : ∀ i rest before, invariant (i :: rest) before →
      (body i).Passes spec before (good i) (invariant rest) := by
    rintro i rest before ⟨members, keeps'⟩
    refine (round i (members i (.head _)) before keeps').mono fun after kept => ?_
    exact ⟨fun j mem => members j (.tail _ mem), kept⟩
  have start : invariant items abstract := ⟨fun _ mem => mem, keeps⟩
  exact (Client.Passes.untilError step start).mono fun _ kept => kept.2

theorem Keeper.setLoop_passes (keeper : Keeper Abstract) (few : keys.card ≤ MAXKEYS)
    {id : Nat → UInt64} {value : Nat → Value} (members : ∀ i ∈ items, id i ∈ keys)
    (fits : ∀ i, (value i).size.toNat ≠ 0 ∧ (value i).size.toNat ≤ MAXBLOB)
    (settled : keeper.Settled keys mapping abstract) :
    (Client.untilError (fun i => code (.kvSet (id i) (value i))) items).Passes keeper.spec abstract
      True (keeper.Settled keys (items.foldl (put id value) mapping)) :=
  changes_pass (keeper.Settled keys)
    (fun i mem _ _ settled' => keeper.set few (members i mem) (fits i) (keeper.holds settled'))
    settled

/-- Every key is there until its round. -/
theorem delLoop_passes {session : Session} (few : keys.card ≤ MAXKEYS) {id : Nat → UInt64}
    (nodup : (items.map id).Nodup) (present : ∀ i ∈ items, mapping (id i) ≠ none)
    (holds : Holds keys mapping session) :
    (Client.untilError (fun i => code (.kvDel (id i))) items).Passes (api true) session True
      fun after => ∃ mapping', Holds keys mapping' after := by
  let invariant (rest : List Nat) (session : Session) : Prop := (rest.map id).Nodup ∧
    ∃ mapping', Holds keys mapping' session ∧ ∀ i ∈ rest, mapping' (id i) ≠ none
  have step : ∀ i rest before, invariant (i :: rest) before →
      (code (.kvDel (id i))).Passes (api true) before True (invariant rest) := by
    rintro i rest before ⟨nodup', mapping', holds', present'⟩
    rw [List.map_cons, List.nodup_cons] at nodup'
    refine (del_passes few (present' i (.head _)) holds').mono fun after kept => ?_
    refine ⟨nodup'.2, _, kept, fun j mem => ?_⟩
    have apart : id j ≠ id i := fun same => nodup'.1 (same ▸ List.mem_map_of_mem mem)
    rw [Function.update_of_ne apart]
    exact present' j (.tail _ mem)
  have start : invariant items session := ⟨nodup, mapping, holds, present⟩
  refine ((Client.Passes.untilError step start).congr (by simp)).mono ?_
  rintro after ⟨_, mapping', holds', _⟩
  exact ⟨mapping', holds'⟩

end Loops

end KeyValueStore.Harness
