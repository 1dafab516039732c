import KeyValueStore.Lib.Clients
import KeyValueStore.Class.Refinement
import KeyValueStore.Submission.Refinement

/-! # The functions of `kv_store.h` for a program

A program calls the functions of `kv_store.h`; what the environment does to each call is
not its to choose, so that comes by the number of the call.  A `Session` is what the
program may know: whether its store is open, the map, and the keys it has set.  A store
that is still open when the next is created is lost to the program.

`serves` and `KvStore.serves` say that the two stores answer as `api` allows.  The class
store does so only until it is closed. -/

namespace KeyValueStore

open Clients

inductive Request where
  | kvOpen (create : Bool) (argc : Nat)
  | kvClose
  | kvGet (key : UInt64) (v : Value)
  | kvSet (key : UInt64) (v : Value)
  | kvDel (key : UInt64)

/-- The buffer of a program that asks for a value of any size: its `data` is what the stack
held. -/
structure ValueBuffer where
  data : Bytes
  data_length : data.length = MAXBLOB

def ValueBuffer.value (buffer : ValueBuffer) : Value where
  size := UInt64.ofNat MAXBLOB
  data := buffer.data
  size_le := by rw [buffer.data_length]; decide

def ValueBuffer.zeros : ValueBuffer := ⟨List.replicate MAXBLOB 0, List.length_replicate⟩

inductive Session where
  /-- There is no file of a store yet. -/
  | blank
  | closed (reference : Reference)
  | opened (reference : Reference)

/-- A store may be created at any time.  One that is `durable` can be opened again. -/
def Session.requires (durable : Bool) : Session → Request → Prop
  | session, .kvOpen create argc =>
    2 ≤ argc ∧ (create = true ∨ durable = true ∧ ∃ reference, session = .closed reference)
  | .opened _, _ => True
  | .blank, _ | .closed _, _ => False

/-- With no more than `MAXKEYS` keys there is always room. -/
def Session.answers : Session → Request → Response → Prop
  | .opened reference, .kvGet key v, response =>
    Answers reference.mapping (.get .full key v) response
  | .opened reference, .kvSet key v, response =>
    Answers reference.mapping (.set .quiet key v) response ∧
      (reference.everSet.card ≤ MAXKEYS → response.ret ≠ -ENOSPC)
  | .opened reference, .kvDel key, response =>
    Answers reference.mapping (.del .quiet key) response ∧
      (reference.everSet.card ≤ MAXKEYS → response.ret ≠ -ENOSPC)
  | _, .kvOpen .., response => response.ret = 0
  | _, _, _ => True

def Session.record : Session → Request → Response → Session
  | session, .kvOpen create _, _ =>
    if create then .opened .empty
    else match session with
      | .closed reference => .opened reference
      | other => other
  | .opened reference, .kvClose, _ => .closed reference
  | .opened reference, .kvSet key v, response =>
    .opened (reference.record (.set .quiet key v) response)
  | .opened reference, .kvDel key, response => .opened (reference.record (.del .quiet key) response)
  | session, _, _ => session

def api (durable : Bool) : Spec Session Request Response where
  requires := Session.requires durable
  answers := Session.answers
  record := Session.record

/-! ## The store of `submission` -/

/-- What the environment does to a call, whichever function it is of. -/
structure Circumstances where
  «open» : OpenEnv
  write : BlockWrite
  read : ReadResult

structure Circumstances.LetThrough (circumstances : Circumstances) : Prop where
  «open» : circumstances.open.Succeeds
  write : circumstances.write.Succeeds
  read : circumstances.read = .full

def Circumstances.quiet : Circumstances := ⟨.quiet, .quiet, .full⟩

theorem Circumstances.quiet_letThrough : Circumstances.quiet.LetThrough :=
  ⟨OpenEnv.quiet_succeeds, BlockWrite.quiet_succeeds, rfl⟩

def serve (circumstances : Nat → Circumstances) (count : Nat) (m : Machine) :
    Request → EStateM.Result Fault Machine Response
  | .kvOpen create argc => openStore create argc (circumstances count).open m
  | .kvClose => (do kvClose; return ⟨0, none⟩ : StoreM Response) m
  | .kvGet key v => exec m (.get (circumstances count).read key v)
  | .kvSet key v => exec m (.set (circumstances count).write key v)
  | .kvDel key => exec m (.del (circumstances count).write key)

/-- Before call number `count` the machine agrees with the session. -/
def InSession (count : Nat) (m : Machine) : Session → Prop
  | .blank => True
  | .closed reference => ∃ before, m = before.closed ∧ Represents before reference ∧
      before.stor.currentSequenceNumber.toNat ≤ count
  | .opened reference => Represents m reference ∧ m.stor.currentSequenceNumber.toNat ≤ count

theorem openStore_create {argc : Nat} {env : OpenEnv} (enough : 2 ≤ argc) (succeeds : env.Succeeds)
    (m : Machine) : ∃ fd, openStore true argc env m = .ok ⟨0, none⟩ (.fresh fd) := by
  obtain ⟨fd, opened⟩ := succeeds.opened
  refine ⟨fd, ?_⟩
  rw [openStore_apply, kvOpen_apply, if_neg (by omega), succeeds.mallocs, opened]
  rfl

theorem Represents.served {m : Machine} {reference : Reference} {call : Call}
    (represents : Represents m reference) (succeeds : call.Succeeds) (noWrap : NoWrap m call) :
    ∃ response next, exec m call = .ok response next ∧ Answers reference.mapping call response ∧
      AnswersRoom reference call response ∧ Represents next (reference.record call response) ∧
      next.stor.currentSequenceNumber.toNat ≤ m.stor.currentSequenceNumber.toNat + 1 := by
  obtain ⟨response, next, returned, room, represents'⟩ := represents.step ⟨succeeds, noWrap⟩
  obtain ⟨response', next', returned', served⟩ := represents.serves.serving.step succeeds noWrap
  rw [returned, EStateM.Result.ok.injEq] at returned'
  obtain ⟨rfl, rfl⟩ := returned'
  have answers := served.answers
  rw [represents.serves.mapping] at answers
  exact ⟨response, next, returned, answers, room, represents', served.counter⟩

/-- As long as not more than `MAXKEYS` keys have been set there is room. -/
theorem AnswersRoom.not_full {reference : Reference} {call : Call} {response : Response}
    (room : AnswersRoom reference call response) (few : reference.everSet.card ≤ MAXKEYS) :
    response.ret ≠ -ENOSPC := by
  intro full
  have many := (room.mp full).2
  simp only [capacity, MAXKEYS] at many few
  omega

/-- A store can be created at any time. -/
theorem serve_creates {circumstances : Nat → Circumstances}
    (letThrough : ∀ count, (circumstances count).LetThrough) (count : Nat) (m : Machine)
    {argc : Nat} (enough : 2 ≤ argc) :
    ∃ response next, serve circumstances count m (.kvOpen true argc) = .ok response next ∧
      response.ret = 0 ∧ InSession (count + 1) next (.opened .empty) := by
  obtain ⟨fd, returned⟩ := openStore_create enough (letThrough count).open m
  have fresh := created_iff.mpr ⟨fd, rfl⟩
  refine ⟨_, _, returned, rfl, ⟨serves_created fresh, (serving_created fresh).2.2.1⟩, ?_⟩
  exact Nat.zero_le _

theorem serves {circumstances : Nat → Circumstances}
    (letThrough : ∀ count, (circumstances count).LetThrough) {count : Nat} {m : Machine}
    {session : Session} {request : Request} (small : count < 2 ^ 64 - 1)
    (inSession : InSession count m session) (allowed : (api true).requires session request) :
    ∃ response next, serve circumstances count m request = .ok response next ∧
      (api true).answers session request response ∧
      InSession (count + 1) next ((api true).record session request response) := by
  obtain ⟨opens, write, read⟩ := letThrough count
  cases session with
  | blank =>
    cases request with
    | kvOpen create argc =>
      obtain ⟨enough, rfl | ⟨_, _, impossible⟩⟩ := allowed
      · exact serve_creates letThrough count m enough
      · cases impossible
    | _ => exact absurd allowed id
  | closed reference =>
    cases request with
    | kvOpen create argc =>
      cases create with
      | true => exact serve_creates letThrough count m allowed.1
      | false =>
        obtain ⟨before, rfl, represents, counter⟩ := inSession
        have noWrap := represents.serves.serving.noWrap
          (.reopen argc (circumstances count).open) (by omega)
        obtain ⟨response, next, returned, answers, _, represents', counter'⟩ :=
          @Represents.served before reference (.reopen argc _) represents ⟨allowed.1, opens⟩ noWrap
        refine ⟨response, next, returned, answers, ?_, by omega⟩
        simpa only [Reference.record, Mapping.record, recordKey, ite_self] using represents'
    | _ => exact absurd allowed id
  | opened reference =>
    obtain ⟨represents, counter⟩ := inSession
    have noWrap := fun call => represents.serves.serving.noWrap call (by omega)
    cases request with
    | kvOpen create argc =>
      obtain ⟨enough, rfl | ⟨_, _, impossible⟩⟩ := allowed
      · exact serve_creates letThrough count m enough
      · cases impossible
    | kvClose => exact ⟨_, _, rfl, trivial, m, rfl, represents, by omega⟩
    | kvGet key v =>
      obtain ⟨response, next, returned, answers, _, represents', counter'⟩ :=
        @Represents.served m reference (.get (circumstances count).read key v) represents read
          (noWrap _)
      refine ⟨response, next, returned, answers, ?_, by omega⟩
      simpa only [Reference.record, Mapping.record, recordKey, ite_self] using represents'
    | kvSet key v =>
      obtain ⟨response, next, returned, answers, room, represents', counter'⟩ :=
        @Represents.served m reference (.set (circumstances count).write key v) represents write
          (noWrap _)
      exact ⟨response, next, returned, ⟨answers, room.not_full⟩, represents', by omega⟩
    | kvDel key =>
      obtain ⟨response, next, returned, answers, room, represents', counter'⟩ :=
        @Represents.served m reference (.del (circumstances count).write key) represents write
          (noWrap _)
      exact ⟨response, next, returned, ⟨answers, room.not_full⟩, represents', by omega⟩

/-- A program that starts with no store, whatever its machine was used for. -/
theorem run_serves {circumstances : Nat → Circumstances}
    (letThrough : ∀ count, (circumstances count).LetThrough) {Result : Type}
    {client : Client Request Response Result} {calls : Nat} {post : Result → Session → Prop}
    (ensures : client.Ensures (api true) .blank post) (within : client.Within calls)
    (noWrap : calls < 2 ^ 64) (m : Machine) :
    ∃ result count last after,
      client.run (serve circumstances) 0 m = .ok (result, count) last ∧ post result after := by
  have starts : InSession 0 m .blank := trivial
  have fits : 0 + calls ≤ 2 ^ 64 - 1 := by omega
  obtain ⟨result, count, last, after, returned, holds, _⟩ :=
    Client.run_ensures (serves letThrough) starts ensures within fits
  exact ⟨result, count, last, after, returned, holds⟩

/-! ## The class store -/

namespace KvStore

structure Circumstances where
  «open» : OpenEnv
  write : BlockWrite
  allocated : Bool
  read : ReadResult

structure Circumstances.LetThrough (circumstances : Circumstances) : Prop where
  mallocs : circumstances.open.mallocs = ⟨true, true, true, true, true, true⟩
  arrayRet : circumstances.open.arrayRet = 0
  «open» : ∃ fd, circumstances.open.open = .opened fd
  write : circumstances.write.Succeeds
  blockAllocated : circumstances.write.allocated = true
  allocated : circumstances.allocated = true
  read : circumstances.read = .full

def Circumstances.quiet : Circumstances := ⟨.quiet, .quiet, true, .full⟩

theorem Circumstances.quiet_letThrough : Circumstances.quiet.LetThrough :=
  ⟨rfl, rfl, ⟨3, rfl⟩, KeyValueStore.BlockWrite.quiet_succeeds, rfl, rfl, rfl⟩

def serve (port : Port) (circumstances : Nat → Circumstances) (count : Nat) (m : Machine) :
    Request → EStateM.Result Fault Machine Response
  | .kvOpen create argc => openStore port create argc (circumstances count).open m
  | .kvClose => (do kvClose; return ⟨0, none⟩ : StoreM Response) m
  | .kvGet key v =>
    exec port m (.get (circumstances count).allocated (circumstances count).read key v)
  | .kvSet key v => exec port m (.set (circumstances count).write key (some v))
  | .kvDel key => exec port m (.del (circumstances count).write key)

def InSession (count : Nat) (m : Machine) : Session → Prop
  | .blank | .closed _ => True
  | .opened reference => Represents m reference.mapping ∧
      (∀ key, reference.mapping key ≠ none → key ∈ reference.everSet) ∧
      m.stor.currentSequenceNumber.toNat ≤ count

theorem openStore_create (port : Port) {argc : Nat} {env : OpenEnv} (enough : 2 ≤ argc)
    (mallocs : env.mallocs = ⟨true, true, true, true, true, true⟩) (arrayRet : env.arrayRet = 0)
    (opens : ∃ fd, env.open = .opened fd) (m : Machine) :
    ∃ fd, openStore port true argc env m = .ok ⟨0, none⟩ (fresh fd) := by
  obtain ⟨fd, opened⟩ := opens
  refine ⟨fd, ?_⟩
  have started : ¬ (port = .c ∧ argc < 2) := fun few => by omega
  rcases init_cases port env with ⟨_, made⟩ | ⟨unmade, _⟩
  · rw [openStore_apply, open_apply, if_neg started, made, opened]
    rfl
  · exact absurd ⟨mallocs, fun _ => arrayRet⟩ unmade

/-- A key that is present after an update has been set. -/
theorem record_subset {reference : Reference} {call : KeyValueStore.Call} {response : Response}
    (subset : ∀ key, reference.mapping key ≠ none → key ∈ reference.everSet) (key : UInt64)
    (present : (reference.record call response).mapping key ≠ none) :
    key ∈ (reference.record call response).everSet := by
  simp only [Reference.record, Mapping.record, recordKey] at present ⊢
  split at present
  · rename_i stored
    rw [if_pos stored]
    cases call with
    | set _ key' v =>
      simp only at present ⊢
      by_cases same : key = key'
      · exact same ▸ Finset.mem_insert_self ..
      · rw [Function.update_of_ne same] at present
        exact Finset.mem_insert_of_mem (subset key present)
    | del _ key' =>
      simp only at present ⊢
      by_cases same : key = key'
      · rw [same, Function.update_self] at present
        exact absurd rfl present
      · rw [Function.update_of_ne same] at present
        exact subset key present
    | get _ _ _ | reopen _ _ => exact subset key present
  · rename_i failed
    rw [if_neg failed]
    exact subset key present

/-- An update, or a get, of a store in service. -/
theorem InSession.call {port : Port} {m : Machine} {reference : Reference} {count : Nat}
    (inSession : InSession count m (.opened reference)) (small : count < 2 ^ 64 - 1) {call : Call}
    (pointers : call.PointersValid port) (inProcess : call.InProcess) (io : call.IoSucceeds)
    (memory : call.MemorySucceeds) :
    ∃ response next, exec port m call = .ok response next ∧
      Answers reference.mapping call response ∧
      Represents next (record reference.mapping call response) ∧
      next.stor.currentSequenceNumber.toNat ≤ count + 1 := by
  obtain ⟨represents, _, counter⟩ := inSession
  obtain ⟨response, next, returned, answers, represents'⟩ :=
    represents.advance pointers ⟨inProcess, io, memory, fun _ => by omega⟩
  have counter' := exec_counter represents.inService.steady.usable inProcess returned
  exact ⟨response, next, returned, answers, represents', by omega⟩

/-- A map with no more keys than those of a small set. -/
theorem few_of_subset {reference : Reference}
    (subset : ∀ key, reference.mapping key ≠ none → key ∈ reference.everSet)
    (few : reference.everSet.card ≤ MAXKEYS) : Few reference.mapping :=
  ⟨reference.everSet, few, subset⟩

/-- A store can be created at any time. -/
theorem serve_creates (port : Port) {circumstances : Nat → Circumstances}
    (letThrough : ∀ count, (circumstances count).LetThrough) (count : Nat) (m : Machine)
    {argc : Nat} (enough : 2 ≤ argc) :
    ∃ response next, serve port circumstances count m (.kvOpen true argc) = .ok response next ∧
      response.ret = 0 ∧ InSession (count + 1) next (.opened .empty) := by
  obtain ⟨mallocs, arrayRet, opens, _⟩ := letThrough count
  obtain ⟨fd, returned⟩ := openStore_create port enough mallocs arrayRet opens m
  exact ⟨_, _, returned, rfl, represents_fresh fd, fun _ present => absurd rfl present,
    Nat.zero_le _⟩

theorem serves {port : Port} {circumstances : Nat → Circumstances}
    (letThrough : ∀ count, (circumstances count).LetThrough) {count : Nat} {m : Machine}
    {session : Session} {request : Request} (small : count < 2 ^ 64 - 1)
    (inSession : InSession count m session) (allowed : (api false).requires session request) :
    ∃ response next, serve port circumstances count m request = .ok response next ∧
      (api false).answers session request response ∧
      InSession (count + 1) next ((api false).record session request response) := by
  obtain ⟨_, _, _, write, blockAllocated, allocated, read⟩ := letThrough count
  cases session with
  | blank | closed _ =>
    cases request with
    | kvOpen create argc =>
      obtain ⟨enough, rfl | ⟨impossible, _⟩⟩ := allowed
      · exact serve_creates port letThrough count m enough
      · cases impossible
    | _ => exact absurd allowed id
  | opened reference =>
    have subset := inSession.2.1
    cases request with
    | kvOpen create argc =>
      obtain ⟨enough, rfl | ⟨impossible, _⟩⟩ := allowed
      · exact serve_creates port letThrough count m enough
      · cases impossible
    | kvClose => exact ⟨_, _, rfl, trivial, trivial⟩
    | kvGet key v =>
      obtain ⟨response, next, returned, answers, represents', counter'⟩ :=
        @InSession.call port m reference count inSession small (.get _ _ key v) allocated trivial
          read allocated
      simp only [record, ite_self] at represents'
      exact ⟨response, next, returned, answers, represents', subset, counter'⟩
    | kvSet key v =>
      obtain ⟨response, next, returned, ⟨invalid, codes, room⟩, represents', counter'⟩ :=
        @InSession.call port m reference count inSession small (.set _ key (some v))
          ⟨blockAllocated, fun _ => by simp⟩ trivial write.write ⟨blockAllocated, write.insert⟩
      refine ⟨response, next, returned, ⟨⟨?_, codes⟩, fun few => room (few_of_subset subset few)⟩,
        represents', record_subset subset, counter'⟩
      rw [invalid]
      simp only [Valid, Option.some.injEq, exists_eq_left']
      omega
    | kvDel key =>
      obtain ⟨response, next, returned, ⟨missing, codes, room⟩, represents', counter'⟩ :=
        @InSession.call port m reference count inSession small (.del _ key) blockAllocated trivial
          write.write ⟨blockAllocated, write.insert⟩
      exact ⟨response, next, returned,
        ⟨⟨missing, codes⟩, fun few => room (few_of_subset subset few)⟩, represents',
        record_subset subset, counter'⟩

/-- A program that starts with no store, whatever its machine was used for. -/
theorem run_serves {port : Port} {circumstances : Nat → Circumstances}
    (letThrough : ∀ count, (circumstances count).LetThrough) {Result : Type}
    {client : Client Request Response Result} {calls : Nat} {post : Result → Session → Prop}
    (ensures : client.Ensures (api false) .blank post) (within : client.Within calls)
    (noWrap : calls < 2 ^ 64) (m : Machine) :
    ∃ result count last after,
      client.run (serve port circumstances) 0 m = .ok (result, count) last ∧ post result after := by
  have starts : InSession 0 m .blank := trivial
  have fits : 0 + calls ≤ 2 ^ 64 - 1 := by omega
  obtain ⟨result, count, last, after, returned, holds, _⟩ :=
    Client.run_ensures (serves letThrough) starts ensures within fits
  exact ⟨result, count, last, after, returned, holds⟩

end KvStore

end KeyValueStore
