import Mathlib.Algebra.Order.Group.Multiset
import Mathlib.Algebra.Order.Sub.Basic
import KeyValueStore.Lib.Runs

/-! # What a program acquires and releases

A program acquires resources, several under one name if need be, and may release only what
it holds (`account`).  Of what it holds it may lose some, which are then held for ever by
nobody: `Footprint.Takes` has a rule for one program after another, and a frame rule.  For a
machine the rules speak of its calls: `runFootprint_takes` of what a run holds, and
`runFootprint_loses_iff` and `count_runFootprint_loses` of what it loses. -/

namespace KeyValueStore.Resources

variable {Object : Type} [DecidableEq Object]

inductive Use (Object : Type) where
  | acquire (objects : Multiset Object)
  | release (objects : Multiset Object)

/-- What is held afterwards: `none` after the release of something that is not held. -/
def Use.apply (held : Multiset Object) : Use Object → Option (Multiset Object)
  | .acquire objects => some (held + objects)
  | .release objects => if objects ≤ held then some (held - objects) else none

/-- What is held after all the uses. -/
def account (held : Multiset Object) : List (Use Object) → Option (Multiset Object)
  | [] => some held
  | use :: uses => (use.apply held).bind fun held => account held uses

variable {held after : Multiset Object} {uses : List (Use Object)}

@[simp] theorem account_nil : account held [] = some held := rfl

@[simp] theorem account_acquire {objects : Multiset Object} :
    account held (.acquire objects :: uses) = account (held + objects) uses := rfl

@[simp] theorem account_release {objects : Multiset Object} :
    account (held + objects) (.release objects :: uses) = account held uses := by
  have enough : objects ≤ held + objects := Multiset.le_add_left objects held
  simp only [account, Use.apply, if_pos enough, add_tsub_cancel_right, Option.bind_some]

theorem account_append {uses' : List (Use Object)} :
    account held (uses ++ uses') = (account held uses).bind fun held => account held uses' := by
  induction uses generalizing held with
  | nil => rfl
  | cons use uses ih =>
    simp only [List.cons_append, account]
    cases use.apply held with
    | none => rfl
    | some next => exact ih

/-- One program after another. -/
theorem account_append_of_eq {uses' : List (Use Object)} {mid : Multiset Object}
    (first : account held uses = some mid) (second : account mid uses' = some after) :
    account held (uses ++ uses') = some after := by
  rw [account_append, first]
  exact second

theorem Use.apply_frame {use : Use Object} (applied : use.apply held = some after)
    (more : Multiset Object) : use.apply (held + more) = some (after + more) := by
  cases use with
  | acquire objects =>
    cases applied
    exact congrArg some (add_right_comm held more objects)
  | release objects =>
    simp only [Use.apply] at applied ⊢
    split at applied
    · rename_i enough
      cases applied
      rw [if_pos (enough.trans (Multiset.le_add_right held more)), tsub_add_eq_add_tsub enough]
    · cases applied

/-- The frame rule. -/
theorem account_frame (more : Multiset Object) : ∀ {uses : List (Use Object)}
    {held after : Multiset Object}, account held uses = some after →
    account (held + more) uses = some (after + more)
  | [], _, _, accounted => by
    cases accounted
    rfl
  | use :: uses, held, after, accounted => by
    simp only [account, Option.bind_eq_some_iff] at accounted ⊢
    obtain ⟨mid, applied, rest⟩ := accounted
    exact ⟨mid + more, Use.apply_frame applied more, account_frame more rest⟩

/-! ## Footprints -/

/-- What a program does to its resources, and which of them it loses. -/
structure Footprint (Object : Type) where
  uses : List (Use Object)
  loses : Multiset Object

namespace Footprint

variable {mid more : Multiset Object} {first second footprint : Footprint Object}

def none : Footprint Object := ⟨[], 0⟩

/-- One program after the other. -/
def append (first second : Footprint Object) : Footprint Object :=
  ⟨first.uses ++ second.uses, first.loses + second.loses⟩

omit [DecidableEq Object] in
theorem append_loses : (first.append second).loses = first.loses + second.loses := rfl

omit [DecidableEq Object] in
theorem append_loses_eq_zero :
    (first.append second).loses = 0 ↔ first.loses = 0 ∧ second.loses = 0 := by
  rw [append_loses]
  constructor
  · intro zero
    exact ⟨Multiset.le_zero.mp (zero ▸ Multiset.le_add_right _ _),
      Multiset.le_zero.mp (zero ▸ Multiset.le_add_left _ _)⟩
  · rintro ⟨zero, zero'⟩
    rw [zero, zero', add_zero]

/-- The program can be run on `held`, and leaves `after` and what it has lost. -/
def Takes (footprint : Footprint Object) (held after : Multiset Object) : Prop :=
  account held footprint.uses = some (after + footprint.loses)

theorem takes_none : (none : Footprint Object).Takes held held :=
  congrArg some (add_zero held).symm

theorem Takes.append (takes : first.Takes held mid) (takes' : second.Takes mid after) :
    (first.append second).Takes held after := by
  have later := account_frame first.loses takes'
  rw [add_assoc, add_comm second.loses] at later
  exact account_append_of_eq takes later

theorem Takes.frame (takes : footprint.Takes held after) (more : Multiset Object) :
    footprint.Takes (held + more) (after + more) := by
  have framed := account_frame more takes
  rwa [add_right_comm] at framed

end Footprint

/-! ## Resources by other names -/

section Map

variable {Object' : Type} [DecidableEq Object'] {held after : Multiset Object}

def Use.map (name : Object → Object') : Use Object → Use Object'
  | .acquire objects => .acquire (objects.map name)
  | .release objects => .release (objects.map name)

def Footprint.map (name : Object → Object') (footprint : Footprint Object) : Footprint Object' :=
  ⟨footprint.uses.map (Use.map name), footprint.loses.map name⟩

theorem account_map (name : Object → Object') : ∀ {uses : List (Use Object)}
    {held after : Multiset Object}, account held uses = some after →
    account (held.map name) (uses.map (Use.map name)) = some (after.map name)
  | [], _, _, accounted => by
    cases accounted
    rfl
  | .acquire objects :: uses, held, after, accounted => by
    rw [account_acquire] at accounted
    have rest : account ((held + objects).map name) (uses.map (Use.map name)) =
        some (after.map name) := account_map name accounted
    rw [Multiset.map_add] at rest
    exact rest
  | .release objects :: uses, held, after, accounted => by
    simp only [account, Option.bind_eq_some_iff, Use.apply] at accounted
    obtain ⟨mid, applied, rest⟩ := accounted
    split at applied
    · rename_i enough
      cases applied
      have apart := Multiset.map_add name (held - objects) objects
      rw [tsub_add_cancel_of_le enough] at apart
      have rest' : account ((held - objects).map name) (uses.map (Use.map name)) =
          some (after.map name) := account_map name rest
      rw [apart]
      exact account_release.trans rest'
    · cases applied

/-- A program does the same to what it holds under other names, even if they share them. -/
theorem Footprint.Takes.map {footprint : Footprint Object} (takes : footprint.Takes held after)
    (name : Object → Object') : (footprint.map name).Takes (held.map name) (after.map name) := by
  have mapped := account_map name takes
  rw [Multiset.map_add] at mapped
  exact mapped

end Map

/-- Everything that is held is released, piece by piece. -/
theorem account_release_each (objects : List Object) :
    account (Multiset.ofList objects) (objects.map fun object => .release {object}) = some 0 := by
  induction objects with
  | nil => rfl
  | cons object objects ih =>
    rw [← Multiset.cons_coe, ← Multiset.singleton_add, add_comm, List.map_cons, account_release]
    exact ih

/-! ## Runs -/

section Run

open Runs

variable {State Call Response Fault : Type} {exec : State → Call → EStateM.Result Fault State Response}
  {footprint : State → Call → Footprint Object}

/-- The footprint of a run up to its first fault. -/
def runFootprint (exec : State → Call → EStateM.Result Fault State Response)
    (footprint : State → Call → Footprint Object) : State → List Call → Footprint Object
  | _, [] => .none
  | state, call :: calls => (footprint state call).append <|
      match exec state call with
      | .ok _ next => runFootprint exec footprint next calls
      | .error _ _ => .none

/-- Each call starts with what the one before it has left. -/
theorem runFootprint_takes {allowed : State → Call → Prop} {held : State → Multiset Object}
    (step : ∀ {state call response next}, allowed state call →
      exec state call = .ok response next → (footprint state call).Takes (held state) (held next)) :
    ∀ {calls : List Call} {state last : State} {responses : List Response},
      Allowed exec allowed state calls → run exec state calls = .ok responses last →
      (runFootprint exec footprint state calls).Takes (held state) (held last)
  | [], _, _, _, _, returned => by
    cases returned
    exact Footprint.takes_none
  | call :: calls, state, last, responses, ⟨now, later⟩, returned => by
    obtain ⟨response, next, rest, first, others, rfl⟩ := run_cons_eq_ok returned
    simp only [runFootprint, first]
    exact (step now first).append (runFootprint_takes step (later response next first) others)

omit [DecidableEq Object] in
/-- A run loses nothing exactly if none of its calls does. -/
theorem runFootprint_loses_iff (loses : Call → Response → Prop)
    (step : ∀ {state call response next}, exec state call = .ok response next →
      ((footprint state call).loses = 0 ↔ ¬ loses call response)) :
    ∀ {calls : List Call} {state last : State} {responses : List Response},
      run exec state calls = .ok responses last →
      ((runFootprint exec footprint state calls).loses = 0 ↔
        ∀ call ∈ calls.zip responses, ¬ loses call.1 call.2)
  | [], _, _, _, returned => by
    cases returned
    exact iff_of_true rfl fun _ none => absurd none List.not_mem_nil
  | call :: calls, state, last, responses, returned => by
    obtain ⟨response, next, rest, first, others, rfl⟩ := run_cons_eq_ok returned
    simp only [runFootprint, first, Footprint.append_loses_eq_zero, List.zip_cons_cons,
      List.forall_mem_cons]
    exact and_congr (step first) (runFootprint_loses_iff loses step others)

/-- A run loses an object as often as its calls do. -/
theorem count_runFootprint_loses (object : Object) (loses : Call → Response → Bool)
    (step : ∀ {state call response next}, exec state call = .ok response next →
      (footprint state call).loses.count object = if loses call response then 1 else 0) :
    ∀ {calls : List Call} {state last : State} {responses : List Response},
      run exec state calls = .ok responses last →
      (runFootprint exec footprint state calls).loses.count object =
        (calls.zip responses).countP fun call => loses call.1 call.2
  | [], _, _, _, returned => by
    cases returned
    exact Multiset.count_zero object
  | call :: calls, state, last, responses, returned => by
    obtain ⟨response, next, rest, first, others, rfl⟩ := run_cons_eq_ok returned
    simp only [runFootprint, first, Footprint.append_loses, Multiset.count_add, List.zip_cons_cons,
      List.countP_cons]
    rw [step first, count_runFootprint_loses object loses step others, add_comm]

end Run

end KeyValueStore.Resources
