import Mathlib.Data.List.Basic
import Mathlib.Logic.Function.Basic

/-! # Runs of a machine whose calls may fault

A machine is a function from a state and a call to an `EStateM.Result`: a response
and the next state, or a fault that ends the run.  Each rule below turns a lemma about
one call into one about every run:

* `run_refines`: the responses of the run are those an abstract machine may give;
* `run_simulates`: two machines end the run alike;
* `run_preserves`: an invariant holds when the run ends;
* `run_keeps`: the same where only calls that return matter;
* `run_harmless_iff`: a run ends in no harmful fault exactly when every call of it is
  safe in the state in which it is made;
* `throughout_iff`: something holds in every state of a run exactly when every call of it
  is safe in the state in which it is made;
* `history_admits`: the events of the run are those an abstract state admits;
* `allowed_congr`: under an invariant one condition on the calls of a run is another.

`noting` runs a machine beside a record of what the run has done, for conditions on calls
that depend on more than the state. -/

namespace KeyValueStore.Runs

variable {State Call Response Fault Abstract Event : Type}

/-- The responses of a run of calls, or its first fault. -/
def run (exec : State → Call → EStateM.Result Fault State Response) :
    State → List Call → EStateM.Result Fault State (List Response)
  | state, [] => .ok [] state
  | state, call :: calls =>
    match exec state call with
    | .error fault next => .error fault next
    | .ok response next =>
      match run exec next calls with
      | .error fault last => .error fault last
      | .ok responses last => .ok (response :: responses) last

/-- Every call is allowed in the state in which the run makes it. -/
def Allowed (exec : State → Call → EStateM.Result Fault State Response)
    (allowed : State → Call → Prop) : State → List Call → Prop
  | _, [] => True
  | state, call :: calls => allowed state call ∧
      ∀ response next, exec state call = .ok response next → Allowed exec allowed next calls

/-- Every state of the run, the first and the last included, is one that `holds`. -/
def Throughout (exec : State → Call → EStateM.Result Fault State Response)
    (holds : State → Prop) : State → List Call → Prop
  | state, [] => holds state
  | state, call :: calls => holds state ∧
      ∀ response next, exec state call = .ok response next → Throughout exec holds next calls

/-- The abstract state after a run: `record` takes in each call with its response. -/
def track (record : Abstract → Call → Response → Abstract) :
    Abstract → List Call → List Response → Abstract
  | abstract, call :: calls, response :: responses =>
    track record (record abstract call response) calls responses
  | abstract, _, _ => abstract

/-- Each response answers its call in the abstract state that the calls before it left. -/
def Conforms (record : Abstract → Call → Response → Abstract)
    (answers : Abstract → Call → Response → Prop) :
    Abstract → List Call → List Response → Prop
  | _, [], [] => True
  | abstract, call :: calls, response :: responses =>
    answers abstract call response ∧
      Conforms record answers (record abstract call response) calls responses
  | _, _, _ => False

/-- The events that `see` sees in the calls of a run that return, in order. -/
def history (exec : State → Call → EStateM.Result Fault State Response)
    (see : State → Call → State → Option Event) : State → List Call → List Event
  | _, [] => []
  | state, call :: calls =>
    match exec state call with
    | .error _ _ => []
    | .ok _ next => (see state call next).toList ++ history exec see next calls

/-- The machine beside a record of its run, to which `note` adds each call that returns. -/
def noting {Record : Type} (exec : State → Call → EStateM.Result Fault State Response)
    (note : Record → State → Call → Response → Record) (noted : State × Record) (call : Call) :
    EStateM.Result Fault (State × Record) Response :=
  match exec noted.1 call with
  | .error fault next => .error fault (next, noted.2)
  | .ok response next => .ok response (next, note noted.2 noted.1 call response)

/-- Each event is admitted by what `note` has made of the events before it. -/
def Admits (note : Abstract → Event → Abstract) (admits : Abstract → Event → Prop) :
    Abstract → List Event → Prop
  | _, [] => True
  | abstract, event :: events => admits abstract event ∧ Admits note admits (note abstract event) events

variable {exec : State → Call → EStateM.Result Fault State Response}
  {allowed : State → Call → Prop}

theorem run_cons_eq_ok {call : Call} {calls : List Call} {state last : State}
    {responses : List Response} (returned : run exec state (call :: calls) = .ok responses last) :
    ∃ response next rest, exec state call = .ok response next ∧
      run exec next calls = .ok rest last ∧ responses = response :: rest := by
  rw [run] at returned
  split at returned
  · cases returned
  · rename_i response next first
    split at returned
    · cases returned
    · rename_i rest last' others
      cases returned
      exact ⟨response, next, rest, first, others, rfl⟩

/-- Calls that are allowed in every state. -/
theorem Allowed.of_mem : ∀ (calls : List Call) (state : State),
    (∀ state, ∀ call ∈ calls, allowed state call) → Allowed exec allowed state calls
  | [], _, _ => trivial
  | call :: calls, state, always =>
    ⟨always state call (List.mem_cons_self ..), fun _ next _ =>
      Allowed.of_mem calls next fun state call' member =>
        always state call' (List.mem_cons_of_mem _ member)⟩

/-- A first call that is known to return. -/
theorem Allowed.cons {state next : State} {call : Call} {calls : List Call} {response : Response}
    (now : allowed state call) (returned : exec state call = .ok response next)
    (later : Allowed exec allowed next calls) : Allowed exec allowed state (call :: calls) := by
  refine ⟨now, ?_⟩
  intro response' next' returned'
  rw [returned, EStateM.Result.ok.injEq] at returned'
  exact returned'.2 ▸ later

theorem Allowed.and {also : State → Call → Prop} : ∀ {calls : List Call} {state : State},
    Allowed exec allowed state calls → Allowed exec also state calls →
    Allowed exec (fun state call => allowed state call ∧ also state call) state calls
  | [], _, _, _ => trivial
  | _ :: _, _, ⟨now, later⟩, ⟨now', later'⟩ =>
    ⟨⟨now, now'⟩, fun response next returned =>
      (later response next returned).and (later' response next returned)⟩

/-- What an invariant makes of a condition on calls. -/
theorem Allowed.of_invariant {Invariant : State → Prop} {safe : State → Call → Prop}
    (keeps : ∀ {state call response next}, Invariant state → allowed state call →
      exec state call = .ok response next → Invariant next)
    (implies : ∀ {state call}, Invariant state → allowed state call → safe state call) :
    ∀ {calls : List Call} {state : State}, Invariant state → Allowed exec allowed state calls →
      Allowed exec safe state calls
  | [], _, _, _ => trivial
  | _ :: _, _, holds, ⟨now, later⟩ =>
    ⟨implies holds now, fun response next returned =>
      Allowed.of_invariant keeps implies (keeps holds now returned)
        (later response next returned)⟩

theorem allowed_congr {Invariant : State → Prop} {safe safe' : State → Call → Prop}
    (keeps : ∀ {state call response next}, Invariant state → allowed state call →
      exec state call = .ok response next → Invariant next)
    (same : ∀ {state call}, Invariant state → allowed state call →
      (safe state call ↔ safe' state call))
    {calls : List Call} {state : State} (holds : Invariant state)
    (permitted : Allowed exec allowed state calls) :
    Allowed exec safe state calls ↔ Allowed exec safe' state calls := by
  constructor
  · intro safe
    refine Allowed.of_invariant (fun holds now => keeps holds now.1) ?_ holds (permitted.and safe)
    exact fun holds now => (same holds now.1).mp now.2
  · intro safe
    refine Allowed.of_invariant (fun holds now => keeps holds now.1) ?_ holds (permitted.and safe)
    exact fun holds now => (same holds now.1).mpr now.2

/-! ## The machine beside a record -/

theorem noting_eq_ok {Record : Type} {note : Record → State → Call → Response → Record}
    {noted last : State × Record} {call : Call} {response : Response} :
    noting exec note noted call = .ok response last ↔
      ∃ next, exec noted.1 call = .ok response next ∧
        last = (next, note noted.2 noted.1 call response) := by
  rw [noting]
  cases exec noted.1 call with
  | error fault next => simp
  | ok response' next =>
    simp only [EStateM.Result.ok.injEq]
    constructor
    · rintro ⟨rfl, rfl⟩
      exact ⟨next, ⟨rfl, rfl⟩, rfl⟩
    · rintro ⟨_, ⟨rfl, rfl⟩, rfl⟩
      exact ⟨rfl, rfl⟩

/-- The record has no part in a condition on states. -/
theorem allowed_noting {Record : Type} {note : Record → State → Call → Response → Record} :
    ∀ {calls : List Call} {noted : State × Record},
      Allowed (noting exec note) (fun noted call => allowed noted.1 call) noted calls ↔
        Allowed exec allowed noted.1 calls
  | [], _ => Iff.rfl
  | call :: calls, noted => by
    refine and_congr_right fun _ => ⟨fun later response next returned => ?_,
      fun later response last returned => ?_⟩
    · exact allowed_noting.mp (later response _ (noting_eq_ok.mpr ⟨next, returned, rfl⟩))
    · obtain ⟨next, returned', rfl⟩ := noting_eq_ok.mp returned
      exact allowed_noting.mpr (later response next returned')

/-! ## Two machines, and machines that may fault -/

/-- The refinement rule.  `Related` ties the machine to the abstract state. -/
theorem run_refines {record : Abstract → Call → Response → Abstract}
    {answers : Abstract → Call → Response → Prop} {Related : State → Abstract → Prop}
    (step : ∀ {state abstract call}, Related state abstract → allowed state call →
      ∃ response next, exec state call = .ok response next ∧ answers abstract call response ∧
        Related next (record abstract call response)) :
    ∀ {calls : List Call} {state : State} {abstract : Abstract},
      Related state abstract → Allowed exec allowed state calls →
      ∃ responses last, run exec state calls = .ok responses last ∧
        Conforms record answers abstract calls responses ∧
        Related last (track record abstract calls responses)
  | [], state, _, related, _ => ⟨[], state, rfl, trivial, related⟩
  | call :: calls, state, abstract, related, ⟨now, later⟩ => by
    obtain ⟨response, next, returned, answered, related'⟩ := step related now
    obtain ⟨responses, last, rest, conforms, final⟩ :=
      run_refines step related' (later response next returned)
    refine ⟨response :: responses, last, ?_, ⟨answered, conforms⟩, final⟩
    simp only [run, returned, rest]

/-- Two calls, or two runs, of different machines end alike: with the same responses and in
related states, or in the same fault. -/
inductive Alike {State' : Type} (Related : State → State' → Prop) :
    EStateM.Result Fault State Response → EStateM.Result Fault State' Response → Prop
  | ok {response : Response} {next : State} {next' : State'} (related : Related next next') :
    Alike Related (.ok response next) (.ok response next')
  | error {fault : Fault} {next : State} {next' : State'} :
    Alike Related (.error fault next) (.error fault next')

theorem Alike.mono {State' : Type} {Related Related' : State → State' → Prop}
    {result : EStateM.Result Fault State Response} {result' : EStateM.Result Fault State' Response}
    (implies : ∀ state state', Related state state' → Related' state state')
    (alike : Alike Related result result') : Alike Related' result result' := by
  cases alike with
  | ok related => exact .ok (implies _ _ related)
  | error => exact .error

/-- The simulation rule. -/
theorem run_simulates {State' : Type}
    {exec' : State' → Call → EStateM.Result Fault State' Response}
    {Related : State → State' → Prop}
    (step : ∀ {state state' call}, Related state state' → allowed state call →
      Alike Related (exec state call) (exec' state' call)) :
    ∀ {calls : List Call} {state : State} {state' : State'}, Related state state' →
      Allowed exec allowed state calls →
      Alike Related (run exec state calls) (run exec' state' calls)
  | [], _, _, related, _ => .ok related
  | call :: calls, state, state', related, ⟨now, later⟩ => by
    have first := step related now
    simp only [run]
    generalize exec state call = result at first later
    generalize exec' state' call = result' at first
    cases first with
    | error => exact .error
    | ok related' =>
      have rest := run_simulates step related' (later _ _ rfl)
      dsimp only
      generalize run exec _ calls = results at rest
      generalize run exec' _ calls = results' at rest
      cases rest with
      | error => exact .error
      | ok final => exact .ok final

/-- An invariant of the machine alone, where calls may end in faults that are excused. -/
theorem run_preserves {Invariant : State → Prop} {Excused : Call → Fault → Prop}
    (step : ∀ {state call}, Invariant state → allowed state call →
      (∃ response next, exec state call = .ok response next ∧ Invariant next) ∨
        ∃ fault next, exec state call = .error fault next ∧ Excused call fault) :
    ∀ {calls : List Call} {state : State}, Invariant state → Allowed exec allowed state calls →
      (∃ responses last, run exec state calls = .ok responses last ∧ Invariant last) ∨
        ∃ call ∈ calls, ∃ fault last, run exec state calls = .error fault last ∧
          Excused call fault
  | [], state, holds, _ => .inl ⟨[], state, rfl, holds⟩
  | call :: calls, state, holds, ⟨now, later⟩ => by
    rcases step holds now with ⟨response, next, returned, holds'⟩ | ⟨fault, next, ended, excused⟩
    · rcases run_preserves step holds' (later response next returned) with
        ⟨responses, last, rest, final⟩ | ⟨call', member, fault, last, rest, excused⟩
      · refine .inl ⟨response :: responses, last, ?_, final⟩
        simp only [run, returned, rest]
      · refine .inr ⟨call', List.mem_cons_of_mem _ member, fault, last, ?_, excused⟩
        simp only [run, returned, rest]
    · refine .inr ⟨call, List.mem_cons_self .., fault, next, ?_, excused⟩
      simp only [run, ended]

/-- An invariant of the calls that return. -/
theorem run_keeps {Invariant : State → Prop}
    (keeps : ∀ {state call response next}, Invariant state → allowed state call →
      exec state call = .ok response next → Invariant next)
    {calls : List Call} {state last : State} {responses : List Response}
    (holds : Invariant state) (permitted : Allowed exec allowed state calls)
    (returned : run exec state calls = .ok responses last) : Invariant last := by
  have step : ∀ {state : State} {call : Call}, Invariant state → allowed state call →
      (∃ response next, exec state call = .ok response next ∧ Invariant next) ∨
        ∃ fault next, exec state call = .error fault next ∧ True := by
    intro state call holds now
    cases ended : exec state call with
    | error fault next => exact .inr ⟨fault, next, rfl, trivial⟩
    | ok response next => exact .inl ⟨response, next, rfl, keeps holds now ended⟩
  rcases @run_preserves _ _ _ _ exec allowed Invariant (fun _ _ => True) step calls state holds
    permitted with ⟨_, _, returned', final⟩ | ⟨_, _, _, _, ended, _⟩
  · rw [returned, EStateM.Result.ok.injEq] at returned'
    exact returned'.2 ▸ final
  · rw [returned] at ended
    cases ended

/-- Where an invariant makes `safe` the exact condition for a call not to end in a
harmful fault, it is the exact condition for runs. -/
theorem run_harmless_iff {Invariant : State → Prop} {Harmless : Fault → Prop}
    {safe : State → Call → Prop}
    (keeps : ∀ {state call response next}, Invariant state → allowed state call →
      exec state call = .ok response next → Invariant next)
    (exact_ : ∀ {state call}, Invariant state → allowed state call →
      ((∀ fault next, exec state call = .error fault next → Harmless fault) ↔ safe state call)) :
    ∀ {calls : List Call} {state : State}, Invariant state → Allowed exec allowed state calls →
      ((∀ fault last, run exec state calls = .error fault last → Harmless fault) ↔
        Allowed exec safe state calls)
  | [], state, _, _ => by simp [run, Allowed]
  | call :: calls, state, holds, ⟨now, later⟩ => by
    rw [Allowed, ← exact_ holds now]
    -- A call that faults ends the run; otherwise the rest of the run decides.
    cases returned : exec state call with
    | error fault next => simp [run, returned]
    | ok response next =>
      have rest := run_harmless_iff keeps exact_ (keeps holds now returned) (later _ _ returned)
      simp only [run, returned, reduceCtorEq, false_implies, implies_true, true_and,
        EStateM.Result.ok.injEq, and_imp]
      constructor
      · rintro harmless _ _ rfl rfl
        refine rest.mp ?_
        intro fault last ended
        exact harmless fault last (by rw [ended])
      · intro safe fault last ended
        cases outcome : run exec next calls with
        | ok responses final => rw [outcome] at ended; cases ended
        | error fault' final =>
          rw [outcome] at ended
          cases ended
          exact rest.mpr (safe _ _ rfl rfl) fault last outcome

theorem Throughout.first {holds : State → Prop} {state : State} {calls : List Call}
    (throughout : Throughout exec holds state calls) : holds state := by
  cases calls with
  | nil => exact throughout
  | cons call calls => exact throughout.1

/-- Where safe calls keep an invariant that gives what holds, and every other call returns
to a state where it fails, the two conditions on a run are one. -/
theorem throughout_iff {Invariant holds : State → Prop} {safe : State → Call → Prop}
    (keeps : ∀ {state call response next}, Invariant state → allowed state call →
      safe state call → exec state call = .ok response next → Invariant next)
    (implies : ∀ {state}, Invariant state → holds state)
    (breaks : ∀ {state call}, Invariant state → allowed state call → ¬ safe state call →
      ∃ response next, exec state call = .ok response next ∧ ¬ holds next) :
    ∀ {calls : List Call} {state : State}, Invariant state → Allowed exec allowed state calls →
      (Throughout exec holds state calls ↔ Allowed exec safe state calls)
  | [], _, invariant, _ => iff_of_true (implies invariant) trivial
  | call :: calls, state, invariant, ⟨now, later⟩ => by
    by_cases harmless : safe state call
    · constructor
      · rintro ⟨_, rest⟩
        refine ⟨harmless, fun response next returned => ?_⟩
        exact (throughout_iff keeps implies breaks (keeps invariant now harmless returned)
          (later response next returned)).mp (rest response next returned)
      · rintro ⟨_, rest⟩
        refine ⟨implies invariant, fun response next returned => ?_⟩
        exact (throughout_iff keeps implies breaks (keeps invariant now harmless returned)
          (later response next returned)).mpr (rest response next returned)
    · obtain ⟨response, next, returned, fails⟩ := breaks invariant now harmless
      refine iff_of_false ?_ fun safe => harmless safe.1
      rintro ⟨_, rest⟩
      exact fails (rest response next returned).first

/-! ## The last event of a key -/

/-- The last of the events with this key. -/
def lastAt {Key : Type} [DecidableEq Key] (key : Event → Key) (events : List Event) (k : Key) :
    Option Event :=
  (events.filter fun event => key event = k).getLast?

/-- What is kept under a key is what its last event left there. -/
theorem foldl_update_eq_lastAt {Key Kept : Type} [DecidableEq Key] (key : Event → Key)
    (kept : Event → Kept) (events : List Event) (start : Key → Kept) (k : Key) :
    events.foldl (fun store event => Function.update store (key event) (kept event)) start k =
      ((lastAt key events k).map kept).getD (start k) := by
  induction events generalizing start with
  | nil => rfl
  | cons event events ih =>
    rw [List.foldl_cons, ih, lastAt, lastAt, List.filter_cons]
    by_cases here : key event = k
    · subst here
      rw [if_pos (decide_eq_true rfl), List.getLast?_cons, Function.update_self]
      cases (events.filter fun event' => key event' = key event).getLast? <;> rfl
    · rw [if_neg (by simpa using here), Function.update_of_ne (Ne.symm here)]

/-! ## Events -/

theorem Admits.append {note : Abstract → Event → Abstract} {admits : Abstract → Event → Prop}
    {before after : List Event} {abstract : Abstract}
    (admitted : Admits note admits abstract (before ++ after)) :
    Admits note admits (before.foldl note abstract) after := by
  induction before generalizing abstract with
  | nil => exact admitted
  | cons event before ih => exact ih admitted.2

/-- Events that are admitted by their number. -/
theorem Admits.numbered {admits : Nat → Event → Prop} {events : List Event} {count : Nat}
    (admitted : Admits (fun count _ => count + 1) admits count events) {i : Nat} {event : Event}
    (at_ : events[i]? = some event) : admits (count + i) event := by
  induction events generalizing count i with
  | nil => simp at at_
  | cons first events ih =>
    obtain ⟨now, later⟩ := admitted
    cases i with
    | zero =>
      rw [List.getElem?_cons_zero, Option.some.injEq] at at_
      exact at_ ▸ now
    | succ i =>
      rw [List.getElem?_cons_succ] at at_
      have shifted := ih later at_
      rwa [show count + 1 + i = count + (i + 1) by omega] at shifted

theorem foldl_count (events : List Event) (count : Nat) :
    events.foldl (fun count _ => count + 1) count = count + events.length := by
  induction events generalizing count with
  | nil => rfl
  | cons event events ih =>
    rw [List.foldl_cons, ih, List.length_cons]
    omega

/-- The rule for events: `Related` ties the machine to what has been noted of them. -/
theorem history_admits {see : State → Call → State → Option Event}
    {note : Abstract → Event → Abstract} {admits : Abstract → Event → Prop}
    {Related : State → Abstract → Prop}
    (silent : ∀ {state abstract call response next}, Related state abstract → allowed state call →
      exec state call = .ok response next → see state call next = none → Related next abstract)
    (seen : ∀ {state abstract call response next event}, Related state abstract →
      allowed state call → exec state call = .ok response next →
      see state call next = some event → admits abstract event ∧ Related next (note abstract event))
    {calls : List Call} {state : State} {abstract : Abstract} (related : Related state abstract)
    (permitted : Allowed exec allowed state calls) :
    Admits note admits abstract (history exec see state calls) ∧
      ∀ responses last, run exec state calls = .ok responses last →
        Related last ((history exec see state calls).foldl note abstract) := by
  induction calls generalizing state abstract with
  | nil =>
    refine ⟨trivial, ?_⟩
    rintro _ _ ⟨⟩
    exact related
  | cons call calls ih =>
    obtain ⟨now, later⟩ := permitted
    cases returned : exec state call with
    | error fault next =>
      simp only [history, returned, run]
      refine ⟨trivial, ?_⟩
      rintro _ _ ⟨⟩
    | ok response next =>
      -- The rest of the run is one of its own, from what has been noted so far.
      have rest : ∀ {noted : Abstract}, Related next noted →
          Admits note admits noted (history exec see next calls) ∧
          ∀ responses last, run exec state (call :: calls) = .ok responses last →
            Related last ((history exec see next calls).foldl note noted) := by
        intro noted related'
        obtain ⟨admitted, final⟩ := ih related' (later _ _ returned)
        refine ⟨admitted, ?_⟩
        intro responses last ended
        simp only [run, returned] at ended
        split at ended
        · cases ended
        · rename_i responses' last' ended'
          cases ended
          exact final _ _ ended'
      cases event : see state call next with
      | none =>
        simp only [history, returned, event, Option.toList_none, List.nil_append]
        exact rest (silent related now returned event)
      | some event' =>
        obtain ⟨admitted, related'⟩ := seen related now returned event
        simp only [history, returned, event, Option.toList_some, List.cons_append,
          List.nil_append, List.foldl_cons]
        obtain ⟨later', final⟩ := rest related'
        exact ⟨⟨admitted, later'⟩, final⟩

end KeyValueStore.Runs
