import Mathlib.Logic.Basic

/-! # Programs that call a machine

A `Client` decides by the responses it has had what to call next.  `Ensures` says what a
client ends with against an abstract machine, whichever of the responses it may give come
back; it has a rule for each way to build a client.  Against a machine that refines the
abstract one every client ends, in what it ensures (`run_ensures`), and against two such
machines with the same result, where the abstract one leaves it no choice (`run_agrees`).

The machine may treat the calls of a run differently by their number, so that what the
environment does to each of them is fixed in advance and no part of the client. -/

namespace KeyValueStore.Clients

inductive Client (Call Response Result : Type) where
  | done (result : Result)
  | ask (call : Call) (rest : Response → Client Call Response Result)

/-- An abstract machine: the calls it may be asked, how it may respond, and what becomes
of it. -/
structure Spec (Abstract Call Response : Type) where
  requires : Abstract → Call → Prop
  answers : Abstract → Call → Response → Prop
  record : Abstract → Call → Response → Abstract

/-- Every call that is allowed can be answered in at most one way. -/
def Spec.Determined {Abstract Call Response : Type} (spec : Spec Abstract Call Response) : Prop :=
  ∀ {abstract call response response'}, spec.requires abstract call →
    spec.answers abstract call response → spec.answers abstract call response' →
    response = response'

namespace Client

variable {Call Response Result Result' State Fault Abstract Item : Type}

def bind : Client Call Response Result → (Result → Client Call Response Result') →
    Client Call Response Result'
  | .done result, next => next result
  | .ask call rest, next => .ask call fun response => (rest response).bind next

instance : Monad (Client Call Response) where
  pure := .done
  bind := bind

/-- One call, for its response. -/
def call (request : Call) : Client Call Response Response := .ask request .done

/-- The body for each item in turn, until it ends with a code other than 0. -/
def untilError (body : Item → Client Call Response Int) : List Item → Client Call Response Int
  | [] => pure 0
  | item :: items => do
    let ret ← body item
    if ret ≠ 0 then return ret
    untilError body items

/-- Call number `count` is the next one; the result comes with the number after the last. -/
def run (exec : Nat → State → Call → EStateM.Result Fault State Response) :
    Client Call Response Result → Nat → State → EStateM.Result Fault State (Result × Nat)
  | .done result, count, state => .ok (result, count) state
  | .ask call rest, count, state =>
    match exec count state call with
    | .error fault next => .error fault next
    | .ok response next => (rest response).run exec (count + 1) next

/-- The client makes only calls that are allowed and ends in `post`. -/
def Ensures (spec : Spec Abstract Call Response) :
    Client Call Response Result → Abstract → (Result → Abstract → Prop) → Prop
  | .done result, abstract, post => post result abstract
  | .ask call rest, abstract, post => spec.requires abstract call ∧
      ∀ response, spec.answers abstract call response →
        (rest response).Ensures spec (spec.record abstract call response) post

/-- The client makes at most so many calls, whatever the responses. -/
def Within : Client Call Response Result → Nat → Prop
  | .done _, _ => True
  | .ask _ rest, calls => ∃ fewer, calls = fewer + 1 ∧ ∀ response, (rest response).Within fewer

/-! ## What a client ensures -/

section Ensures

variable {spec : Spec Abstract Call Response} {abstract : Abstract}

@[simp] theorem ensures_pure {result : Result} {post : Result → Abstract → Prop} :
    Ensures spec (pure result : Client Call Response Result) abstract post ↔ post result abstract :=
  Iff.rfl

@[simp] theorem ensures_call {request : Call} {post : Response → Abstract → Prop} :
    (call request).Ensures spec abstract post ↔ spec.requires abstract request ∧
      ∀ response, spec.answers abstract request response →
        post response (spec.record abstract request response) :=
  Iff.rfl

@[simp] theorem ensures_bind {client : Client Call Response Result}
    {next : Result → Client Call Response Result'} {post : Result' → Abstract → Prop} :
    (client >>= next).Ensures spec abstract post ↔
      client.Ensures spec abstract fun result after => (next result).Ensures spec after post := by
  induction client generalizing abstract with
  | done result => exact Iff.rfl
  | ask call rest ih =>
    refine and_congr_right fun _ => forall_congr' fun response => ?_
    exact imp_congr_right fun _ => ih response

theorem Ensures.mono {client : Client Call Response Result} {post post' : Result → Abstract → Prop}
    (implies : ∀ result after, post result after → post' result after)
    (ensures : client.Ensures spec abstract post) : client.Ensures spec abstract post' := by
  induction client generalizing abstract with
  | done result => exact implies _ _ ensures
  | ask call rest ih =>
    exact ⟨ensures.1, fun response answered => ih response (ensures.2 response answered)⟩

theorem Ensures.bind {client : Client Call Response Result}
    {next : Result → Client Call Response Result'} {mid : Result → Abstract → Prop}
    {post : Result' → Abstract → Prop} (head : client.Ensures spec abstract mid)
    (tail : ∀ result after, mid result after → (next result).Ensures spec after post) :
    (client >>= next).Ensures spec abstract post :=
  ensures_bind.mpr (head.mono tail)

end Ensures

/-! ## Clients that return a code

Such a client gives up at the first code other than 0, as its caller does. -/

section Passes

variable {spec : Spec Abstract Call Response} {abstract : Abstract} {passes passes' : Prop}
  {post : Abstract → Prop}

/-- The client returns 0 exactly if `passes`, and then it ends in `post`. -/
def Passes (spec : Spec Abstract Call Response) (client : Client Call Response Int)
    (abstract : Abstract) (passes : Prop) (post : Abstract → Prop) : Prop :=
  client.Ensures spec abstract fun ret after => (ret = 0 ↔ passes) ∧ (ret = 0 → post after)

theorem passes_pure (holds : post abstract) :
    Passes spec (pure 0 : Client Call Response Int) abstract True post :=
  ⟨iff_of_true rfl trivial, fun _ => holds⟩

theorem Passes.congr {client : Client Call Response Int}
    (ends : client.Passes spec abstract passes post) (same : passes ↔ passes') :
    client.Passes spec abstract passes' post :=
  Ensures.mono (fun _ _ ended => ⟨ended.1.trans same, ended.2⟩) ends

theorem Passes.mono {client : Client Call Response Int} {post' : Abstract → Prop}
    (ends : client.Passes spec abstract passes post) (implies : ∀ after, post after → post' after) :
    client.Passes spec abstract passes post' :=
  Ensures.mono (fun _ after ended => ⟨ended.1, fun zero => implies after (ended.2 zero)⟩) ends

/-- The rule of sequence. -/
theorem Passes.seq {first rest : Client Call Response Int} {mid : Abstract → Prop}
    (head : first.Passes spec abstract passes mid)
    (tail : ∀ after, mid after → rest.Passes spec after passes' post) :
    Passes spec (do
      let ret ← first
      if ret ≠ 0 then return ret
      rest) abstract (passes ∧ passes') post := by
  refine Ensures.bind head fun ret after ended => ?_
  by_cases zero : ret = 0
  · rw [if_neg (not_not.mpr zero)]
    have holds := ended.1.mp zero
    exact (tail after (ended.2 zero)).congr ⟨fun holds' => ⟨holds, holds'⟩, And.right⟩
  · rw [if_pos zero]
    exact ⟨⟨fun returned => absurd returned zero, fun both => ended.1.mpr both.1⟩,
      fun returned => absurd returned zero⟩

theorem Passes.andThen {first rest : Client Call Response Int} {mid : Abstract → Prop}
    (head : first.Passes spec abstract True mid)
    (tail : ∀ after, mid after → rest.Passes spec after passes post) :
    Passes spec (do
      let ret ← first
      if ret ≠ 0 then return ret
      rest) abstract passes post :=
  (head.seq tail).congr (Iff.of_eq (true_and passes))

/-- The rule for loops, where the invariant is about what is left to do. -/
theorem Passes.untilError {body : Item → Client Call Response Int} {good : Item → Prop}
    {invariant : List Item → Abstract → Prop}
    (round : ∀ item items before, invariant (item :: items) before →
      (body item).Passes spec before (good item) (invariant items)) :
    ∀ {items : List Item} {abstract : Abstract}, invariant items abstract →
      (untilError body items).Passes spec abstract (∀ item ∈ items, good item) (invariant [])
  | [], _, holds => (passes_pure holds).congr (by simp)
  | item :: items, _, holds =>
    ((round item items _ holds).seq fun _ kept => Passes.untilError round kept).congr
      List.forall_mem_cons.symm

end Passes

/-! ## How many calls a client makes -/

section Within

@[simp] theorem within_pure {result : Result} {calls : Nat} :
    Within (pure result : Client Call Response Result) calls := trivial

@[simp] theorem within_call {request : Call} :
    Within (call request : Client Call Response Response) 1 := ⟨0, rfl, fun _ => trivial⟩

theorem Within.mono {client : Client Call Response Result} {calls more : Nat}
    (within : client.Within calls) (le : calls ≤ more) : client.Within more := by
  induction client generalizing calls more with
  | done result => trivial
  | ask call rest ih =>
    obtain ⟨fewer, rfl, later⟩ := within
    exact ⟨more - 1, by omega, fun response => ih response (later response) (by omega)⟩

theorem Within.bind {client : Client Call Response Result}
    {next : Result → Client Call Response Result'} {calls calls' : Nat}
    (within : client.Within calls) (rest : ∀ result, (next result).Within calls') :
    (client >>= next).Within (calls + calls') := by
  induction client generalizing calls with
  | done result => exact (rest result).mono (by omega)
  | ask call continues ih =>
    obtain ⟨fewer, rfl, later⟩ := within
    exact ⟨fewer + calls', by omega, fun response => ih response (later response)⟩

theorem Within.seq {first rest : Client Call Response Int} {calls calls' : Nat}
    (head : first.Within calls) (tail : rest.Within calls') :
    Within (do
      let ret ← first
      if ret ≠ 0 then return ret
      rest) (calls + calls') := by
  refine head.bind fun ret => ?_
  split
  · exact within_pure
  · exact tail

theorem Within.untilError {body : Item → Client Call Response Int} {calls : Nat}
    (round : ∀ item, (body item).Within calls) :
    ∀ items : List Item, (untilError body items).Within (items.length * calls)
  | [] => trivial
  | item :: items => by
    refine ((round item).seq (Within.untilError round items)).mono (Nat.le_of_eq ?_)
    rw [List.length_cons, Nat.succ_mul, Nat.add_comm]

end Within

-- No loop is to be unrolled where the two rules above apply.
attribute [irreducible] untilError

/-! ## Against a machine -/

/-- The client rule.  `Related` ties the machine, before the call with this number, to the
abstract one. -/
theorem run_ensures {exec : Nat → State → Call → EStateM.Result Fault State Response}
    {spec : Spec Abstract Call Response} {Related : Nat → State → Abstract → Prop} {bound : Nat}
    (step : ∀ {count state abstract request}, count < bound → Related count state abstract →
      spec.requires abstract request →
      ∃ response next, exec count state request = .ok response next ∧
        spec.answers abstract request response ∧
        Related (count + 1) next (spec.record abstract request response))
    {client : Client Call Response Result} {count calls : Nat} {state : State}
    {abstract : Abstract} {post : Result → Abstract → Prop} (related : Related count state abstract)
    (ensures : client.Ensures spec abstract post) (within : client.Within calls)
    (fits : count + calls ≤ bound) :
    ∃ result count' last after, client.run exec count state = .ok (result, count') last ∧
      post result after ∧ Related count' last after := by
  induction client generalizing count calls state abstract with
  | done result => exact ⟨result, count, state, abstract, rfl, ensures, related⟩
  | ask request rest ih =>
    obtain ⟨allowed, later⟩ := ensures
    obtain ⟨fewer, rfl, shorter⟩ := within
    obtain ⟨response, next, returned, answered, related'⟩ := step (by omega) related allowed
    obtain ⟨result, count', last, after, ended, holds, final⟩ :=
      ih response related' (later response answered) (shorter response) (by omega)
    refine ⟨result, count', last, after, ?_, holds, final⟩
    simp only [run, returned, ended]

/-- The machine as it appears to a client that gets only part of each response. -/
def observing {Observation : Type} (observe : Call → Response → Observation)
    (exec : Nat → State → Call → EStateM.Result Fault State Response) (count : Nat) (state : State)
    (request : Call) : EStateM.Result Fault State Observation :=
  match exec count state request with
  | .error fault next => .error fault next
  | .ok response next => .ok (observe request response) next

/-- `seen` is `spec` for a client that gets only part of each response. -/
structure Seen {Observation : Type} (observe : Call → Response → Observation)
    (spec : Spec Abstract Call Response) (seen : Spec Abstract Call Observation) : Prop where
  answers : ∀ {abstract request response}, spec.answers abstract request response →
    seen.answers abstract request (observe request response)
  record : ∀ abstract request response, seen.record abstract request (observe request response) =
    spec.record abstract request response

theorem Seen.observing {Observation : Type} {observe : Call → Response → Observation}
    {spec : Spec Abstract Call Response} {seen : Spec Abstract Call Observation}
    (sees : Seen observe spec seen)
    {exec : Nat → State → Call → EStateM.Result Fault State Response}
    {Related : Nat → State → Abstract → Prop} {count : Nat} {state : State} {abstract : Abstract}
    {request : Call}
    (served : ∃ response next, exec count state request = .ok response next ∧
      spec.answers abstract request response ∧
      Related (count + 1) next (spec.record abstract request response)) :
    ∃ observation next, Client.observing observe exec count state request = .ok observation next ∧
      seen.answers abstract request observation ∧
      Related (count + 1) next (seen.record abstract request observation) := by
  obtain ⟨response, next, returned, answered, related⟩ := served
  refine ⟨observe request response, next, ?_, sees.answers answered, ?_⟩
  · simp only [Client.observing, returned]
  · rw [sees.record]
    exact related

/-- No client can tell machines apart that refine one abstract machine, if that leaves no
choice of a response. -/
theorem run_agrees {State' Fault' : Type}
    {exec : Nat → State → Call → EStateM.Result Fault State Response}
    {exec' : Nat → State' → Call → EStateM.Result Fault' State' Response}
    {spec : Spec Abstract Call Response} {Related : Nat → State → Abstract → Prop}
    {Related' : Nat → State' → Abstract → Prop} {bound : Nat} (determined : spec.Determined)
    (step : ∀ {count state abstract request}, count < bound → Related count state abstract →
      spec.requires abstract request →
      ∃ response next, exec count state request = .ok response next ∧
        spec.answers abstract request response ∧
        Related (count + 1) next (spec.record abstract request response))
    (step' : ∀ {count state abstract request}, count < bound → Related' count state abstract →
      spec.requires abstract request →
      ∃ response next, exec' count state request = .ok response next ∧
        spec.answers abstract request response ∧
        Related' (count + 1) next (spec.record abstract request response))
    {client : Client Call Response Result} {count calls : Nat} {state : State} {state' : State'}
    {abstract : Abstract} {post : Result → Abstract → Prop} (related : Related count state abstract)
    (related' : Related' count state' abstract) (ensures : client.Ensures spec abstract post)
    (within : client.Within calls) (fits : count + calls ≤ bound) :
    ∃ result count' last last', client.run exec count state = .ok (result, count') last ∧
      client.run exec' count state' = .ok (result, count') last' := by
  induction client generalizing count calls state state' abstract with
  | done result => exact ⟨result, count, state, state', rfl, rfl⟩
  | ask request rest ih =>
    obtain ⟨allowed, later⟩ := ensures
    obtain ⟨fewer, rfl, shorter⟩ := within
    obtain ⟨response, next, returned, answered, nextRelated⟩ := step (by omega) related allowed
    obtain ⟨response', next', returned', answered', nextRelated'⟩ :=
      step' (by omega) related' allowed
    obtain rfl := determined allowed answered answered'
    obtain ⟨result, count', last, last', ended, ended'⟩ := ih response nextRelated nextRelated'
      (later response answered) (shorter response) (by omega)
    refine ⟨result, count', last, last', ?_, ?_⟩
    · simp only [run, returned, ended]
    · simp only [run, returned', ended']

end Client

end KeyValueStore.Clients
