import KeyValueStore.Programs.Reopening

/-! # The stores agree

A program that creates its stores, and never has more than `MAXKEYS` keys in one, cannot tell
the store of `submission` from the class store in either text (`stores_agree`).  What it may
look at are the codes of its calls and the bytes of the values. -/

namespace KeyValueStore

open Clients

structure Observation where
  ret : Int
  /-- The value, if `kv_get` has found it. -/
  bytes : Option Bytes

/-- What a program sees of a response. -/
def observe : Request → Response → Observation
  | .kvGet .., response =>
    ⟨response.ret, if response.ret = 0 then response.value.map Value.bytes else none⟩
  | .kvClose, _ => ⟨0, none⟩
  | .kvOpen .., response | .kvSet .., response | .kvDel .., response => ⟨response.ret, none⟩

/-- No more than `MAXKEYS` keys have been set. -/
def Session.Few : Session → Prop
  | .opened reference => reference.everSet.card ≤ MAXKEYS
  | .blank | .closed _ => True

/-- What the stores have in common. -/
def common : Spec Session Request Observation where
  requires session request := (api false).requires session request ∧ session.Few
  answers session request observation :=
    ∃ response, (api false).answers session request response ∧ observe request response = observation
  record session request observation := session.record request ⟨observation.ret, none⟩

/-- Of a response only the code is recorded. -/
theorem record_observe (session : Session) (request : Request) (response : Response) :
    session.record request ⟨(observe request response).ret, none⟩ =
      session.record request response := by
  cases session <;> cases request <;> rfl

/-- The code of an update, when there is room. -/
theorem answers_set {mapping : Mapping} {env : BlockWrite} {key : UInt64} {v : Value}
    {response : Response} (answers : Answers mapping (.set env key v) response)
    (room : response.ret ≠ -ENOSPC) :
    response.ret = if v.size.toNat = 0 ∨ MAXBLOB < v.size.toNat then -EINVAL else 0 := by
  obtain ⟨invalid, codes⟩ := answers
  split
  · rename_i unfit
    exact invalid.mpr unfit
  · rename_i fits
    exact codes.resolve_right fun failed => failed.elim (fun ret => fits (invalid.mp ret)) room

theorem answers_del {mapping : Mapping} {env : BlockWrite} {key : UInt64} {response : Response}
    (answers : Answers mapping (.del env key) response) (room : response.ret ≠ -ENOSPC) :
    response.ret = if mapping key = none then -ENOENT else 0 := by
  obtain ⟨missing, codes⟩ := answers
  split
  · rename_i absent
    exact missing.mpr absent
  · rename_i present
    exact codes.resolve_right fun failed => failed.elim (fun ret => present (missing.mp ret)) room

theorem observe_get {mapping : Mapping} {read : ReadResult} {key : UInt64} {v : Value}
    {response : Response} (answers : Answers mapping (.get read key v) response) :
    observe (.kvGet key v) response =
      match mapping key with
      | none => ⟨-ENOENT, none⟩
      | some bytes => if v.size.toNat < bytes.length then ⟨-EINVAL, none⟩ else ⟨0, some bytes⟩ := by
  simp only [Answers] at answers
  cases held : mapping key with
  | none =>
    rw [held] at answers
    subst answers
    rfl
  | some bytes =>
    rw [held] at answers
    dsimp only at answers ⊢
    split at answers
    · rename_i small
      subst answers
      rw [if_pos small]
      rfl
    · rename_i room
      obtain ⟨ret, out, value, _, rfl⟩ := answers
      rw [if_neg room]
      simp only [observe, ret, value, if_true, Option.map_some]

/-- A program can see only one thing. -/
theorem observed_unique {session : Session} {request : Request} {response response' : Response}
    (allowed : (api true).requires session request) (few : session.Few)
    (answered : session.answers request response) (answered' : session.answers request response') :
    observe request response = observe request response' := by
  cases request with
  | kvClose => rfl
  | kvOpen create argc =>
    have ret : response.ret = 0 := by cases session <;> exact answered
    have ret' : response'.ret = 0 := by cases session <;> exact answered'
    simp only [observe, ret, ret']
  | kvSet key v =>
    cases session with
    | blank | closed _ => exact absurd allowed id
    | opened reference =>
      have same := (answers_set answered.1 (answered.2 few)).trans
        (answers_set answered'.1 (answered'.2 few)).symm
      simp only [observe, same]
  | kvDel key =>
    cases session with
    | blank | closed _ => exact absurd allowed id
    | opened reference =>
      have same := (answers_del answered.1 (answered.2 few)).trans
        (answers_del answered'.1 (answered'.2 few)).symm
      simp only [observe, same]
  | kvGet key v =>
    cases session with
    | blank | closed _ => exact absurd allowed id
    | opened reference =>
      have seen := @observe_get reference.mapping .full key v
      exact (seen answered).trans (seen answered').symm

theorem common_seen (durable : Bool) : Client.Seen observe (api durable) common where
  answers answered := ⟨_, answered, rfl⟩
  record := record_observe

/-- What the class store may be asked can be asked of the durable store. -/
theorem requires_durable {session : Session} {request : Request}
    (allowed : (api false).requires session request) : (api true).requires session request := by
  cases request with
  | kvOpen create argc =>
    obtain ⟨enough, create | ⟨impossible, _⟩⟩ := allowed
    · exact ⟨enough, .inl create⟩
    · cases impossible
  | _ => cases session <;> exact allowed

theorem common_determined : common.Determined := by
  rintro session request observation observation' ⟨allowed, few⟩ ⟨response, answered, rfl⟩
    ⟨response', answered', rfl⟩
  exact observed_unique (requires_durable allowed) few answered answered'

/-- The program gets the same result from either store. -/
theorem stores_agree {port : KvStore.Port} {circumstances : Nat → Circumstances}
    {circumstances' : Nat → KvStore.Circumstances}
    (letThrough : ∀ count, (circumstances count).LetThrough)
    (letThrough' : ∀ count, (circumstances' count).LetThrough) {Result : Type}
    {client : Client Request Observation Result} {calls : Nat} {post : Result → Session → Prop}
    (allowed : client.Ensures common .blank post) (within : client.Within calls)
    (noWrap : calls < 2 ^ 64) (m m' : Machine) :
    ∃ result count last last',
      client.run (Client.observing observe (serve circumstances)) 0 m =
        .ok (result, count) last ∧
      client.run (Client.observing observe (KvStore.serve port circumstances')) 0 m' =
        .ok (result, count) last' := by
  have starts : InSession 0 m .blank := trivial
  have starts' : KvStore.InSession 0 m' .blank := trivial
  have fits : 0 + calls ≤ 2 ^ 64 - 1 := by omega
  exact Client.run_agrees common_determined
    (fun small related required =>
      (common_seen true).observing (serves letThrough small related (requires_durable required.1)))
    (fun small related required =>
      (common_seen false).observing (KvStore.serves letThrough' small related required.1))
    starts starts' allowed within fits

/-- A value is stored and retrieved. -/
def storeAndRetrieve : Client Request Observation Observation := do
  let _ ← Client.call (.kvOpen true 2)
  let _ ← Client.call (.kvSet 1 .one)
  Client.call (.kvGet 1 .one)

theorem stores_agree_get : ∃ observation count last last',
    storeAndRetrieve.run (Client.observing observe (serve fun _ => .quiet)) 0 (.fresh 3) =
      .ok (observation, count) last ∧
    storeAndRetrieve.run (Client.observing observe (KvStore.serve .cpp fun _ => .quiet)) 0
      (.fresh 3) = .ok (observation, count) last' := by
  have few : ∀ {keys : Finset UInt64}, keys ⊆ {1} → keys.card ≤ MAXKEYS := by
    intro keys subset
    have one := Finset.card_le_card subset
    rw [Finset.card_singleton] at one
    exact one.trans (by decide)
  have allowed : storeAndRetrieve.Ensures common .blank fun _ _ => True := by
    refine ⟨⟨⟨Nat.le_refl 2, .inl rfl⟩, trivial⟩, fun _ _ => ?_⟩
    refine ⟨⟨trivial, few (Finset.empty_subset _)⟩, fun observation _ => ?_⟩
    refine ⟨⟨trivial, ?_⟩, fun _ _ => trivial⟩
    change (recordKey ∅ (.set .quiet 1 .one) ⟨observation.ret, none⟩).card ≤ MAXKEYS
    refine few ?_
    simp only [recordKey]
    split <;> simp
  exact stores_agree (fun _ => Circumstances.quiet_letThrough)
    (fun _ => KvStore.Circumstances.quiet_letThrough) allowed
    (Client.within_call.bind fun _ => Client.within_call.bind fun _ => Client.within_call)
    (by decide) (.fresh 3) (.fresh 3)

/-! ## Files that are opened again -/

/-- What the stores have in common for a program that opens its files again. -/
def commonAgain : Spec KvStore.History Request Observation where
  requires history request := KvStore.again.requires history request ∧ history.session.Few
  answers history request observation :=
    ∃ response, KvStore.again.answers history request response ∧
      observe request response = observation
  record history request observation :=
    KvStore.again.record history request ⟨observation.ret, none⟩

theorem commonAgain_seen : Client.Seen observe KvStore.again commonAgain where
  answers answered := ⟨_, answered, rfl⟩
  record history request response := by
    have session := record_observe history.session request response
    have stage : history.stage.record request ⟨(observe request response).ret, none⟩ =
        history.stage.record request response := by
      cases history.stage <;> cases request <;> rfl
    simp only [commonAgain, KvStore.again, api, session, stage]

theorem commonAgain_determined : commonAgain.Determined := by
  rintro history request observation observation' ⟨allowed, few⟩ ⟨response, answered, rfl⟩
    ⟨response', answered', rfl⟩
  exact observed_unique allowed.1 few answered answered'

/-- The program gets the same result from either store, if after it has opened a file again
it only gets keys that are present. -/
theorem stores_agree_reopened {port : KvStore.Port} {circumstances : Nat → Circumstances}
    {circumstances' : Nat → KvStore.Circumstances}
    (letThrough : ∀ count, (circumstances count).LetThrough)
    (letThrough' : ∀ count, (circumstances' count).LetAllThrough port) {Result : Type}
    {client : Client Request Observation Result} {calls : Nat}
    {post : Result → KvStore.History → Prop} (allowed : client.Ensures commonAgain .blank post)
    (within : client.Within calls) (noWrap : calls < 2 ^ 64) (m m' : Machine) :
    ∃ result count last last',
      client.run (Client.observing observe (serve circumstances)) 0 m =
        .ok (result, count) last ∧
      client.run (Client.observing observe (KvStore.serve port circumstances')) 0 m' =
        .ok (result, count) last' := by
  let Related (count : Nat) (m : Machine) (history : KvStore.History) : Prop :=
    InSession count m history.session
  have step : ∀ {count : Nat} {m : Machine} {history : KvStore.History} {request : Request},
      count < 2 ^ 64 - 1 → Related count m history → KvStore.again.requires history request →
      ∃ response next, serve circumstances count m request = .ok response next ∧
        KvStore.again.answers history request response ∧
        Related (count + 1) next (KvStore.again.record history request response) :=
    fun small related required => serves letThrough small related required.1
  have starts : Related 0 m .blank := trivial
  have starts' : KvStore.InHistory 0 m' .blank := trivial
  have fits : 0 + calls ≤ 2 ^ 64 - 1 := by omega
  exact Client.run_agrees commonAgain_determined
    (fun small related required => commonAgain_seen.observing (step small related required.1))
    (fun small related required =>
      commonAgain_seen.observing (KvStore.serves_again letThrough' small related required.1))
    starts starts' allowed within fits

/-- A value is stored, and retrieved from the file. -/
def storeAndReopen : Client Request Observation Observation := do
  let _ ← Client.call (.kvOpen true 2)
  let stored ← Client.call (.kvSet 1 .one)
  if stored.ret ≠ 0 then return stored
  let _ ← Client.call .kvClose
  let _ ← Client.call (.kvOpen false 2)
  Client.call (.kvGet 1 .one)

theorem stores_agree_reopened_get : ∃ observation count last last',
    storeAndReopen.run (Client.observing observe (serve fun _ => .quiet)) 0 (.fresh 3) =
      .ok (observation, count) last ∧
    storeAndReopen.run (Client.observing observe (KvStore.serve .cpp fun _ => .quiet)) 0
      (.fresh 3) = .ok (observation, count) last' := by
  have allowed : storeAndReopen.Ensures commonAgain .blank fun _ _ => True := by
    have few : (insert 1 ∅ : Finset UInt64).card ≤ MAXKEYS := by decide
    have present : Function.update Mapping.empty 1 (some Value.one.bytes) 1 ≠ none := by
      rw [Function.update_self]
      exact Option.some_ne_none _
    unfold storeAndReopen
    simp only [Client.ensures_bind, Client.ensures_call]
    refine ⟨⟨⟨⟨Nat.le_refl 2, .inl rfl⟩, trivial⟩, trivial⟩, fun _ _ => ?_⟩
    refine ⟨⟨⟨trivial, trivial⟩, Nat.zero_le _⟩, fun stored _ => ?_⟩
    split
    · trivial
    · rename_i zero
      have recorded : commonAgain.record ⟨.opened .empty, .writing []⟩ (.kvSet 1 .one) stored =
          ⟨.opened ⟨Function.update Mapping.empty 1 (some Value.one.bytes), insert 1 ∅⟩,
            .writing [.set 1 Value.one.bytes]⟩ := by
        simp only [commonAgain, KvStore.again, api, Session.record, Reference.record,
          Reference.empty, Mapping.record, recordKey, KvStore.Stage.record, KvStore.recordUpdate,
          not_not.mp zero, if_true]
      have created : ∀ observation, commonAgain.record .blank (.kvOpen true 2) observation =
          ⟨.opened .empty, .writing []⟩ := fun _ => rfl
      rw [created, recorded]
      refine ⟨⟨⟨trivial, trivial⟩, few⟩, fun _ _ => ?_⟩
      refine ⟨⟨⟨⟨Nat.le_refl 2, .inr ⟨rfl, _, rfl⟩⟩, .inr id⟩, trivial⟩, fun _ _ => ?_⟩
      exact ⟨⟨⟨trivial, present⟩, few⟩, fun _ _ => trivial⟩
  have within : storeAndReopen.Within (1 + (1 + (1 + (1 + 1)))) := by
    refine Client.within_call.bind fun _ => Client.within_call.bind fun stored => ?_
    split
    · exact Client.within_pure
    · exact Client.within_call.bind fun _ => Client.within_call.bind fun _ => Client.within_call
  exact stores_agree_reopened (fun _ => Circumstances.quiet_letThrough)
    (fun _ => KvStore.Circumstances.quiet_letAllThrough .cpp) allowed within (by decide) (.fresh 3)
    (.fresh 3)

end KeyValueStore
