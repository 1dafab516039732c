import KeyValueStore.Class.Store
import KeyValueStore.Submission.Backed

/-! # Calls on the class store

Runs of calls on the store of either port, as for the other store: a `Call` carries what
the environment does to it, and conditions on calls say what is assumed of that. -/

namespace KeyValueStore.KvStore

inductive Call where
  /-- Without a value the pointer to it is NULL. -/
  | set (env : BlockWrite) (key : UInt64) (v : Option Value)
  | del (env : BlockWrite) (key : UInt64)
  | get (allocated : Bool) (read : ReadResult) (key : UInt64) (v : Value)
  /-- `close`, then `open` of the same file without `create`. -/
  | reopen (argc : Nat) (env : OpenEnv)

/-- `open`, noting whether there is an open store afterwards. -/
def openStore (port : Port) (create : Bool) (argc : Nat) (env : OpenEnv) : StoreM Response := do
  let ret ← KvStore.open port create argc env
  modify fun m => { m with opened := decide (ret = 0) }
  return ⟨ret, none⟩

def perform (port : Port) : Call → StoreM Response
  | .set env key v => do return ⟨← set port env key v, none⟩
  | .del env key => do return ⟨← del env key, none⟩
  | .get allocated read key v => do
    let (ret, v) ← lift (get allocated read (← getStor) (← getFile) key v)
    return ⟨ret, some v⟩
  | .reopen argc env => do
    kvClose
    openStore port false argc env

def exec (port : Port) (m : Machine) (call : Call) : EStateM.Result Fault Machine Response :=
  perform port call m

/-- A store that `open` has just created. -/
def Created (port : Port) (m : Machine) : Prop :=
  ∃ argc env before, openStore port true argc env before = .ok ⟨0, none⟩ m

/-- The blocks that the bitmap of a store covers. -/
def capacity : Nat := MAXKEYS + 1

/-! ## Conditions on calls -/

/-- The size is one that `set` takes. -/
def Valid (v : Value) : Prop := v.size.toNat ≠ 0 ∧ v.size.toNat ≤ MAXBLOB

/-- What the environment decides in an update. -/
def Call.env : Call → Option BlockWrite
  | .set env _ _ | .del env _ => some env
  | .get .. | .reopen .. => none

/-- The checks of `set` and `del` let the call pass. -/
def Call.Accepted (m : Machine) : Call → Prop
  | .set _ _ v => ∃ value, v = some value ∧ Valid value
  | .del _ key => m.stor.directory.Live key
  | .get .. | .reopen .. => False

/-- The code of an update that its checks reject. -/
def Call.rejection : Call → Int
  | .set .. => -EINVAL
  | _ => -ENOENT

/-- The call uses no pointer that is NULL. -/
def Call.PointersValid (port : Port) : Call → Prop
  | .set env _ v => env.allocated = true ∧ (port = .c → v ≠ none)
  | .del env _ => env.allocated = true
  | .get allocated _ _ _ => allocated = true
  | .reopen .. => True

/-- The call leaves the store open. -/
def Call.InProcess : Call → Prop
  | .set .. | .del .. | .get .. => True
  | .reopen .. => False

/-- Only a store that is open may be used; opening it again is always allowed. -/
def Legal (m : Machine) : Call → Prop
  | .set .. | .del .. | .get .. => m.opened = true
  | .reopen .. => True

/-- The system calls of the call do all that they are asked. -/
def Call.IoSucceeds : Call → Prop
  | .set env _ _ | .del env _ => env.write = .full
  | .get _ read _ _ => read = .full
  | .reopen _ env => (∃ fd, env.open = .opened fd) ∧ env.seekEnd = .ok () ∧ ∀ b, env.read b = .full

/-- There is memory for everything that the call stores. -/
def Call.MemorySucceeds : Call → Prop
  | .set env _ _ | .del env _ => env.allocated = true ∧ env.insert = .inserted
  | .get allocated _ _ _ => allocated = true
  | .reopen _ env => env.mallocs = ⟨true, true, true, true, true, true⟩ ∧ env.arrayRet = 0 ∧
      ∀ b, env.insert b = .inserted

/-- An update does not carry the sequence counter past its end. -/
def NoWrap (m : Machine) (call : Call) : Prop :=
  call.Accepted m → m.stor.currentSequenceNumber.toNat + 1 < 2 ^ 64

/-- Environments that let everything through. -/
def BlockWrite.quiet : BlockWrite := { KeyValueStore.BlockWrite.quiet with allocated := true }

def OpenEnv.quiet : OpenEnv := { KeyValueStore.OpenEnv.quiet with arrayRet := 0 }

theorem one_valid : Valid .one := ⟨by decide, by decide⟩

theorem Call.rejection_ne_zero (call : Call) : call.rejection ≠ 0 := by
  cases call <;> simp [rejection, EINVAL, ENOENT]

theorem Call.IoSucceeds.write {call : Call} (io : call.IoSucceeds) {env : BlockWrite}
    (named : call.env = some env) : env.write = .full := by
  cases call with
  | set _ _ _ | del _ _ =>
    cases named
    exact io
  | get _ _ _ _ | reopen _ _ => cases named

/-! ## The outcomes of a call -/

section Apply

variable (port : Port) (m : Machine)

theorem exec_set (env : BlockWrite) (key : UInt64) (v : Option Value) :
    exec port m (.set env key v) = reply (set port env key v m) := by
  simp only [exec, perform, bind_apply]
  cases set port env key v m <;> rfl

theorem exec_del (env : BlockWrite) (key : UInt64) :
    exec port m (.del env key) = reply (del env key m) := by
  simp only [exec, perform, bind_apply]
  cases del env key m <;> rfl

/-- With memory for the block a get does what that of the other store does. -/
theorem get_eq_kvGet (read : ReadResult) (stor : KvStor) (file : Bytes) (key : UInt64) (v : Value) :
    get true read stor file key v = kvGet read stor file key v := by
  unfold get kvGet KvDirectory.lookupKey
  cases found : stor.directory.findEntryForKey key with
  | none => simp only [lookupKey_absent found]
  | some entry =>
    by_cases deleted : entry.dataBytes = 0
    · simp only [lookupKey_deleted found deleted, if_pos (toUInt64_eq_zero.mpr deleted)]
    · rewrite [lookupKey_live found deleted]
      exact (if_neg (mt toUInt64_eq_zero.mp deleted)).symm

theorem lookupKey_dead {directory : KvDirectory} {key : UInt64} (dead : ¬ directory.Live key) :
    lookupKey directory key = .error (-ENOENT) := by
  cases found : directory.findEntryForKey key with
  | none => exact lookupKey_absent found
  | some entry =>
    refine lookupKey_deleted found ?_
    by_contra live
    exact dead ⟨entry, found, live⟩

theorem exec_get_dead {key : UInt64} (dead : ¬ m.stor.directory.Live key) (allocated : Bool)
    (read : ReadResult) (v : Value) :
    exec port m (.get allocated read key v) = .ok ⟨-ENOENT, some v⟩ m := by
  simp only [exec, perform, bind_apply, getStor_apply, getFile_apply, get, lookupKey_dead dead,
    lift_ok, pure_apply]

theorem exec_get (read : ReadResult) (key : UInt64) (v : Value) :
    exec port m (.get true read key v) = KeyValueStore.exec m (.get read key v) := by
  simp only [exec, perform, KeyValueStore.exec, KeyValueStore.perform, bind_apply, getStor_apply,
    getFile_apply, get_eq_kvGet]

end Apply

end KeyValueStore.KvStore
