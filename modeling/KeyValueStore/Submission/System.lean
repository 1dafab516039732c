import KeyValueStore.Lib.Runs
import KeyValueStore.Submission.Log

/-! # Calls, responses and the durable map

A run is a list of calls made one after the other on one machine (`Runs.run exec`).
What the environment does to a call is part of the call, so that a run fixes it and
a condition on calls (`Succeeds`, `NoWrap`) says what is assumed of it.

The reference is a `Mapping` from keys to values that only successful calls change;
`Answers` is what the callers are promised about the responses. -/

namespace KeyValueStore

inductive Call where
  | set (env : BlockWrite) (key : UInt64) (v : Value)
  | del (env : BlockWrite) (key : UInt64)
  | get (read : ReadResult) (key : UInt64) (v : Value)
  /-- `kv_close`, then `kv_open` of the same file without `create`. -/
  | reopen (argc : Nat) (env : OpenEnv)

structure Response where
  ret : Int
  /-- The caller's `struct value` after `kv_get`. -/
  value : Option Value

/-- `kv_open`, noting whether there is an open store afterwards. -/
def openStore (create : Bool) (argc : Nat) (env : OpenEnv) : StoreM Response := do
  let ret ← kvOpen create argc env
  modify fun m => { m with opened := decide (ret = 0) }
  return ⟨ret, none⟩

def perform : Call → StoreM Response
  | .set env key v => do return ⟨← kvSet env key v, none⟩
  | .del env key => do return ⟨← kvDel env key, none⟩
  | .get read key v => do
    let (ret, v) ← lift (kvGet read (← getStor) (← getFile) key v)
    return ⟨ret, some v⟩
  | .reopen argc env => do
    kvClose
    openStore false argc env

def exec (m : Machine) (call : Call) : EStateM.Result Fault Machine Response := perform call m

/-- A store that `kv_open` has just created. -/
def Created (m : Machine) : Prop :=
  ∃ argc env before, openStore true argc env before = .ok ⟨0, none⟩ m

/-! ## Conditions on calls -/

/-- The key has an entry that is not a deletion. -/
def KvDirectory.Live (directory : KvDirectory) (key : UInt64) : Prop :=
  ∃ entry, directory.findEntryForKey key = some entry ∧ entry.dataBytes ≠ 0

/-- The checks of `kv_set` and `kv_del` let the call pass. -/
def Call.Accepted (m : Machine) : Call → Prop
  | .set _ _ v => v.size.toNat ≠ 0 ∧ v.size.toNat ≤ MAXBLOB
  | .del _ key => m.stor.directory.Live key
  | .get .. | .reopen .. => False

/-- The call does not carry the 64-bit sequence counter past its end: neither the `++`
of an accepted update, nor the `+ 1` of replay. -/
def NoWrap (m : Machine) (call : Call) : Prop :=
  (call.Accepted m → m.stor.currentSequenceNumber.toNat + 1 < 2 ^ 64) ∧
    ∀ argc env, call = .reopen argc env →
      ∀ b block, validBlock m.file b = some block → block.header.sequence.toNat + 1 < 2 ^ 64

/-- Only a store that is open may be used; opening it again is always allowed. -/
def Legal (m : Machine) : Call → Prop
  | .set .. | .del .. | .get .. => m.opened = true
  | .reopen .. => True

/-- The block is written and the entry added. -/
structure BlockWrite.Succeeds (env : BlockWrite) : Prop where
  write : env.write = .full
  insert : env.insert = .inserted

/-- Every allocation, system call and insertion of `kv_open` delivers. -/
structure OpenEnv.Succeeds (env : OpenEnv) : Prop where
  mallocs : env.mallocs = ⟨true, true, true, true, true, true⟩
  opened : ∃ fd, env.open = .opened fd
  seekEnd : env.seekEnd = .ok ()
  read : ∀ b, env.read b = .full
  insert : ∀ b, env.insert b = .inserted

/-- The environment lets the call through. -/
def Call.Succeeds : Call → Prop
  | .set env _ _ | .del env _ => env.Succeeds
  | .get read _ _ => read = .full
  | .reopen argc env => 2 ≤ argc ∧ env.Succeeds

/-- A block write changes its whole block or nothing, and `tsearch` adds the entry of an
update if it has the memory.  Anything else may fail. -/
def Call.AllOrNothing : Call → Prop
  | .set env _ _ | .del env _ => env.write.AllOrNothing ∧ env.insert ≠ .tsearchNull
  | .get .. | .reopen .. => True

/-- A call on an open store that comes back: its read or write may fail, the write having
changed any part of its block, and `tsearch` may return NULL. -/
def Call.ComesBack : Call → Prop
  | .set env _ _ | .del env _ => (∀ count, env.write ≠ .stopped count) ∧ env.insert ≠ .mallocNull
  | .get .. => True
  | .reopen .. => False

/-- The `malloc` calls whose result the code uses unchecked deliver. -/
def Call.UncheckedMallocsDeliver : Call → Prop
  | .set env _ _ | .del env _ => env.insert ≠ .mallocNull
  | .get .. => True
  | .reopen _ env => env.mallocs.bits = true ∧ ∀ b, env.insert b ≠ .mallocNull

/-- Environments that let everything through. -/
def BlockWrite.quiet : BlockWrite where
  memory := ⟨⟨0, 0, 0, 0, 0, 0⟩, List.replicate 4096 0, List.length_replicate⟩
  write := .full
  insert := .inserted

def OpenEnv.quiet : OpenEnv where
  mallocs := ⟨true, true, true, true, true, true⟩
  «open» := .opened 3
  seekEnd := .ok ()
  read := fun _ => .full
  insert := fun _ => .inserted

/-- A value of one byte. -/
def Value.one : Value where
  size := 1
  data := [7]
  size_le := by decide

theorem BlockWrite.quiet_succeeds : BlockWrite.quiet.Succeeds := ⟨rfl, rfl⟩

theorem OpenEnv.quiet_succeeds : OpenEnv.quiet.Succeeds :=
  ⟨rfl, ⟨3, rfl⟩, rfl, fun _ => rfl, fun _ => rfl⟩

theorem Call.Succeeds.uncheckedMallocsDeliver {call : Call} (succeeds : call.Succeeds) :
    call.UncheckedMallocsDeliver := by
  cases call with
  | set env _ _ | del env _ =>
    have inserted : env.insert = .inserted := BlockWrite.Succeeds.insert succeeds
    simp [UncheckedMallocsDeliver, inserted]
  | get _ _ _ => trivial
  | reopen argc env =>
    obtain ⟨_, mallocs, _, _, _, insert⟩ := succeeds
    simp [UncheckedMallocsDeliver, mallocs, insert]

/-- A call of a legitimate run in which things may fail, but not half-way. -/
def Undamaging (m : Machine) (call : Call) : Prop :=
  Legal m call ∧ NoWrap m call ∧ call.AllOrNothing

/-- The environment lets the call through and the counter does not wrap. -/
def Undisturbed (m : Machine) (call : Call) : Prop := call.Succeeds ∧ NoWrap m call

/-! ## The durable map -/

abbrev Mapping := UInt64 → Option Bytes

/-- The bytes of a value. -/
def Value.bytes (v : Value) : Bytes := v.data.take v.size.toNat

/-- Calls that returned 0 change the map: a set stores the bytes, a deletion removes
the key. -/
def Mapping.record (mapping : Mapping) (call : Call) (response : Response) : Mapping :=
  if response.ret = 0 then
    match call with
    | .set _ key v => Function.update mapping key (some v.bytes)
    | .del _ key => Function.update mapping key none
    | .get .. | .reopen .. => mapping
  else mapping

/-- What the response tells of the map. -/
def Answers (mapping : Mapping) : Call → Response → Prop
  | .set _ _ v, response =>
    (response.ret = -EINVAL ↔ v.size.toNat = 0 ∨ MAXBLOB < v.size.toNat) ∧
      (response.ret = 0 ∨ response.ret = -EINVAL ∨ response.ret = -ENOSPC)
  | .del _ key, response =>
    (response.ret = -ENOENT ↔ mapping key = none) ∧
      (response.ret = 0 ∨ response.ret = -ENOENT ∨ response.ret = -ENOSPC)
  | .get _ key v, response =>
    match mapping key with
    | none => response = ⟨-ENOENT, some v⟩
    | some bytes =>
      if v.size.toNat < bytes.length then response = ⟨-EINVAL, some v⟩
      else response.ret = 0 ∧ ∃ out, response.value = some out ∧
        out.size.toNat = bytes.length ∧ out.bytes = bytes
  | .reopen .., response => response.ret = 0

/-- The empty map of a new store. -/
def Mapping.empty : Mapping := fun _ => none

theorem Mapping.record_of_ne_zero {mapping : Mapping} {call : Call} {response : Response}
    (failed : response.ret ≠ 0) : mapping.record call response = mapping := if_neg failed

end KeyValueStore
