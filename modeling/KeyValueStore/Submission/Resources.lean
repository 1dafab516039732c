import Mathlib.Tactic.Abel
import KeyValueStore.Lib.Resources
import KeyValueStore.Submission.AnyFile
import KeyValueStore.Submission.Serving
import KeyValueStore.Submission.Codes

/-! # Memory and descriptors

What the functions of the store `malloc`, `free`, `open` and `close`, next to the model of
what they compute.  A process opens a store, uses it and closes it, any number of times,
and a call may fail wherever it can.

It never frees or closes what it does not have, and it ends with exactly what its failed
calls have lost (`process_accounts`): `kv_open` frees nothing of a store that it could not
open, and `kv_directory__store_key` does not free an entry for which `tsearch` has no
memory.  Nothing else is ever lost (`process_loses_nothing_iff`). -/

namespace KeyValueStore

open Resources

inductive Object where
  | stor
  | blockAllocator
  | bits
  | blockArray
  | directory
  | appendPoint
  | descriptor (fd : Nat)
  /-- A `struct directory_entry`. -/
  | entry (key : UInt64)
  /-- What `tsearch` allocates for an entry. -/
  | node (key : UInt64)
  /-- The `struct kv_block` of one call, where it is not on the stack. -/
  | block
deriving DecidableEq

/-! ## What is held for a store -/

def KvDirectory.objects (directory : KvDirectory) : Multiset Object :=
  directory.keys.val.map .entry + directory.keys.val.map .node

def KvBlockArray.objects (array : KvBlockArray) : Multiset Object :=
  match array.fd with
  | none => 0
  | some fd => {.descriptor fd}

def KvStor.objects (stor : KvStor) : Multiset Object :=
  0 + {.stor} + {.appendPoint} + {.directory} + stor.directory.objects + {.blockArray} +
    stor.blockArray.objects + {.blockAllocator} + {.bits}

/-! ## What the functions use -/

/-- `kv_store__init`.  When an allocation fails only the first object is freed. -/
def KvStor.initFootprint (mallocs : InitMallocs) : Footprint Object :=
  if ¬ mallocs.stor then .none
  else if ¬ mallocs.blockAllocator then ⟨[.acquire {.stor}, .release {.stor}], 0⟩
  -- Without the bitmap the process does not get past `memset`.
  else if ¬ mallocs.bits then ⟨[.acquire {.stor}, .acquire {.blockAllocator}], 0⟩
  else if ¬ mallocs.blockArray then
    ⟨[.acquire {.stor}, .acquire {.blockAllocator}, .acquire {.bits}, .release {.stor}],
      {.blockAllocator} + {.bits}⟩
  else if ¬ mallocs.directory then
    ⟨[.acquire {.stor}, .acquire {.blockAllocator}, .acquire {.bits}, .acquire {.blockArray},
        .release {.stor}],
      {.blockAllocator} + {.bits} + {.blockArray}⟩
  else if ¬ mallocs.appendPoint then
    ⟨[.acquire {.stor}, .acquire {.blockAllocator}, .acquire {.bits}, .acquire {.blockArray},
        .acquire {.directory}, .release {.stor}],
      {.blockAllocator} + {.bits} + {.blockArray} + {.directory}⟩
  else
    ⟨[.acquire {.stor}, .acquire {.blockAllocator}, .acquire {.bits}, .acquire {.blockArray},
        .acquire {.directory}, .acquire {.appendPoint}], 0⟩

/-- `kv_directory__store_key`: a key that has its entry needs no other.  Nothing refers to an
entry for which `tsearch` has no memory. -/
def KvDirectory.storeKeyFootprint (directory : KvDirectory) (insert : InsertResult)
    (key : UInt64) : Footprint Object :=
  match directory.findEntryForKey key, insert with
  | some _, _ | none, .mallocNull => .none
  | none, .tsearchNull => ⟨[.acquire {.entry key}], {.entry key}⟩
  | none, .inserted => ⟨[.acquire {.entry key}, .acquire {.node key}], 0⟩

/-- What the loop does with a valid block. -/
abbrev Visit : Type := InsertResult → Nat → KvBlockHeader → KvStor → Except Fault (Int × KvStor)

/-- The loop of `kv_store__replay_log`, around any body. -/
def loopFrom (visit : Visit) (env : OpenEnv) (file : Bytes) :
    (remaining b : Nat) → KvStor → Except Fault (Int × KvStor)
  | 0, _, stor => .ok (0, stor)
  | remaining + 1, b, stor =>
    match stor.blockArray.readBlock (env.read b) file b with
    | .error ret => .ok (ret, stor)
    | .ok bytes =>
      let block := KvBlock.ofBytes bytes
      if block.validate then
        match visit (env.insert b) b block.header stor with
        | .error fault => .error fault
        | .ok (ret, next) =>
          if ret ≠ 0 then .ok (ret, next) else loopFrom visit env file remaining (b + 1) next
      else loopFrom visit env file remaining (b + 1) stor

/-- `kv_store__replay_log` around any body of its loop. -/
def logFrom (visit : Visit) (env : OpenEnv) (file : Bytes) (stor : KvStor) :
    Except Fault (Int × KvStor) :=
  match stor.blockArray.getFileBlockCount env.seekEnd file with
  | .error ret => .ok (ret, stor)
  | .ok totalBlocks => loopFrom visit env file totalBlocks 0 stor

/-- The footprint of this loop, around a body that stores the key of the block. -/
def loopFootprint (visit : Visit) (env : OpenEnv) (file : Bytes) :
    (remaining b : Nat) → KvStor → Footprint Object
  | 0, _, _ => .none
  | remaining + 1, b, stor =>
    match stor.blockArray.readBlock (env.read b) file b with
    | .error _ => .none
    | .ok bytes =>
      let block := KvBlock.ofBytes bytes
      if block.validate then
        let stores := stor.directory.storeKeyFootprint (env.insert b) block.header.keyId
        match visit (env.insert b) b block.header stor with
        | .error _ => stores
        | .ok (ret, next) =>
          if ret ≠ 0 then stores
          else stores.append (loopFootprint visit env file remaining (b + 1) next)
      else loopFootprint visit env file remaining (b + 1) stor

def logFootprint (visit : Visit) (env : OpenEnv) (file : Bytes) (stor : KvStor) : Footprint Object :=
  match stor.blockArray.getFileBlockCount env.seekEnd file with
  | .error _ => .none
  | .ok totalBlocks => loopFootprint visit env file totalBlocks 0 stor

/-- `kv_store__replay_log` -/
def kvStoreReplayLogFootprint : OpenEnv → Bytes → KvStor → Footprint Object :=
  logFootprint replayBlock

/-- `kv_open`, whose caller does not use a store that it gets with a code other than 0. -/
def kvOpenFootprint (create : Bool) (argc : Nat) (env : OpenEnv) (file : Bytes) :
    Footprint Object :=
  if argc < 2 then .none
  else
    let inits := KvStor.initFootprint env.mallocs
    match kvStoreInit env.mallocs with
    | .error _ | .ok (.error _) => inits
    | .ok (.ok stor) =>
      match env.open with
      | .failed _ => inits.append ⟨[], stor.objects⟩
      | .opened fd =>
        let opens := inits.append ⟨[.acquire {.descriptor fd}], 0⟩
        if create then opens
        else
          let stor := { stor with blockArray := { stor.blockArray with fd := some fd } }
          let replays := opens.append (kvStoreReplayLogFootprint env file stor)
          match kvStoreReplayLog env file stor with
          | .error _ => replays
          | .ok (ret, stor) => if ret = 0 then replays else replays.append ⟨[], stor.objects⟩

/-- `kv_close` -/
def KvStor.closeFootprint (stor : KvStor) : Footprint Object :=
  ⟨[.release {.bits}, .release {.blockAllocator},
    .release stor.blockArray.objects, .release {.blockArray},
    -- `tdestroy`, in whatever order.
    .release stor.directory.objects, .release {.directory},
    .release {.appendPoint}, .release {.stor}], 0⟩

/-- The statements that `kv_set` and `kv_del` share. -/
def Machine.appendFootprint (m : Machine) (env : BlockWrite) (key size : UInt64)
    (valueData : Option Bytes) : Footprint Object :=
  match env.memory.init key size.toUInt32 valueData (m.stor.currentSequenceNumber + 1),
    m.stor.appendPoint.getAppendPoint m.stor.blockAllocator with
  | .ok block, .ok (destinationBlock, _) =>
    if destinationBlock = UINT32_MAX then .none
    else match m.stor.blockArray.writeBlock env.write destinationBlock block.toBytes m.file with
      | .ok ret _ =>
        if ret ≠ 0 then .none else m.stor.directory.storeKeyFootprint env.insert key
      | .error _ _ => .none
  | _, _ => .none

/-! ## A process -/

inductive Act where
  | kvOpen (create : Bool) (argc : Nat) (env : OpenEnv)
  | kvClose
  | kvGet (read : ReadResult) (key : UInt64) (v : Value)
  | kvSet (env : BlockWrite) (key : UInt64) (v : Value)
  | kvDel (env : BlockWrite) (key : UInt64)

namespace Act

def exec (m : Machine) : Act → EStateM.Result Fault Machine Response
  | .kvOpen create argc env => openStore create argc env m
  | .kvClose => (do KeyValueStore.kvClose; return ⟨0, none⟩ : StoreM Response) m
  | .kvGet read key v => KeyValueStore.exec m (.get read key v)
  | .kvSet env key v => KeyValueStore.exec m (.set env key v)
  | .kvDel env key => KeyValueStore.exec m (.del env key)

/-- A process opens no second store, and uses only one that is open. -/
def Legal (m : Machine) : Act → Prop
  | .kvOpen .. => m.opened = false
  | .kvClose | .kvGet .. | .kvSet .. | .kvDel .. => m.opened = true

def footprint (m : Machine) : Act → Footprint Object
  | .kvOpen create argc env => kvOpenFootprint create argc env m.file
  | .kvClose => m.stor.closeFootprint
  -- The block is on the stack.
  | .kvGet .. => .none
  | .kvSet env key v =>
    if v.size.toNat = 0 ∨ v.size.toNat > MAXBLOB then .none
    else m.appendFootprint env key v.size (some v.data)
  | .kvDel env key =>
    match m.stor.directory.lookupKey key with
    | .error _ => .none
    | .ok (_, size) => if size = 0 then .none else m.appendFootprint env key 0 none

/-- A `kv_open` that fails past `kv_block_allocator__init`, or an update for which the directory
has no memory. -/
def Loses : Act → Response → Prop
  | .kvOpen _ argc env, response =>
    2 ≤ argc ∧ env.mallocs.stor ∧ env.mallocs.blockAllocator ∧ response.ret ≠ 0
  | .kvClose, _ | .kvGet .., _ => False
  | .kvSet .., response | .kvDel .., response => response.ret = -ENOMEM

end Act

def processFootprint : Machine → List Act → Footprint Object := runFootprint Act.exec Act.footprint

/-- What a process holds: only the objects of a store that is open. -/
def Machine.held (m : Machine) : Multiset Object := if m.opened then m.stor.objects else 0

/-! ## What each function takes -/

theorem takes_lost (objects : Multiset Object) :
    (⟨[], objects⟩ : Footprint Object).Takes objects 0 :=
  congrArg some (zero_add objects).symm

theorem initFootprint_takes {mallocs : InitMallocs} {stor : KvStor}
    (made : kvStoreInit mallocs = .ok (.ok stor)) :
    (KvStor.initFootprint mallocs).Takes 0 stor.objects := by
  rcases kvStoreInit_cases mallocs with ⟨rfl, made'⟩ | ⟨_, ⟨ret, _, failed⟩ | ⟨failed, _⟩⟩
  · obtain rfl : KvStor.initial none = stor := by simpa [made'] using made
    change some _ = some _
    refine congrArg some ?_
    have noEntries : (KvStor.initial none).directory.objects = 0 := rfl
    have closed : (KvStor.initial none).blockArray.objects = 0 := rfl
    simp only [KvStor.objects, noEntries, closed]
    abel
  · rw [failed] at made
    cases made
  · rw [failed] at made
    cases made

theorem initFootprint_failed {mallocs : InitMallocs} {ret : Int}
    (failed : kvStoreInit mallocs = .ok (.error ret)) :
    (KvStor.initFootprint mallocs).Takes 0 0 ∧
      ((KvStor.initFootprint mallocs).loses = 0 ↔ ¬ (mallocs.stor ∧ mallocs.blockAllocator)) := by
  obtain ⟨stor, blockAllocator, bits, blockArray, directory, appendPoint⟩ := mallocs
  cases stor <;> cases blockAllocator <;> cases bits <;> cases blockArray <;> cases directory <;>
    cases appendPoint <;> cases failed <;> exact ⟨rfl, by decide⟩

/-- The key has its entry, or gets one, or `tsearch` has no memory for it. -/
theorem storeKeyFootprint_cases {directory : KvDirectory} {insert : InsertResult} {key : UInt64}
    {block : Nat} {bytes sequence : UInt64} {stored : KvDirectory.Stored}
    (returned : directory.storeKey insert key block bytes sequence = .ok stored) :
    (stored.ret = 0 ∧ stored.directory.keys = directory.keys ∧
      directory.storeKeyFootprint insert key = .none) ∨
    (stored.ret = 0 ∧ key ∉ directory.keys ∧ stored.directory.keys = Insert.insert key directory.keys ∧
      directory.storeKeyFootprint insert key = ⟨[.acquire {.entry key}, .acquire {.node key}], 0⟩) ∨
    (stored.ret = -ENOMEM ∧ stored.directory = directory ∧
      directory.storeKeyFootprint insert key = ⟨[.acquire {.entry key}], {.entry key}⟩) := by
  unfold KvDirectory.storeKeyFootprint
  cases found : directory.findEntryForKey key with
  | some entry =>
    have present : key ∈ directory.keys := KvDirectory.mem_keys.mpr ⟨entry, found⟩
    rcases Nat.lt_trichotomy entry.sequence.toNat sequence.toNat with newer | same | older
    · rw [KvDirectory.storeKey_newer _ _ _ found newer] at returned
      cases returned
      exact .inl ⟨rfl, (KvDirectory.keys_withEntry _ _).trans (Finset.insert_eq_of_mem present), rfl⟩
    · rw [KvDirectory.storeKey_equal _ _ _ found (UInt64.toNat_inj.mp same.symm)] at returned
      cases returned
    · rw [KvDirectory.storeKey_older _ _ _ found older] at returned
      cases returned
      exact .inl ⟨rfl, rfl, rfl⟩
  | none =>
    have absent : key ∉ directory.keys := by
      simp [KvDirectory.mem_keys, found]
    cases insert with
    | mallocNull =>
      rw [KvDirectory.storeKey_mallocNull _ _ _ found] at returned
      cases returned
    | tsearchNull =>
      rw [KvDirectory.storeKey_tsearchNull _ _ _ found] at returned
      cases returned
      exact .inr (.inr ⟨rfl, rfl, rfl⟩)
    | inserted =>
      rw [KvDirectory.storeKey_absent _ _ _ found] at returned
      cases returned
      exact .inr (.inl ⟨rfl, absent, KvDirectory.keys_withEntry _ _, rfl⟩)

theorem storeKeyFootprint_takes {directory : KvDirectory} {insert : InsertResult} {key : UInt64}
    {block : Nat} {bytes sequence : UInt64} {stored : KvDirectory.Stored}
    (returned : directory.storeKey insert key block bytes sequence = .ok stored) :
    (directory.storeKeyFootprint insert key).Takes directory.objects stored.directory.objects := by
  rcases storeKeyFootprint_cases returned with
    ⟨_, keys, uses⟩ | ⟨_, absent, keys, uses⟩ | ⟨_, same, uses⟩
  · rw [uses, KvDirectory.objects, KvDirectory.objects, keys]
    exact Footprint.takes_none
  · rw [uses]
    simp only [KvDirectory.objects, keys, Finset.insert_val_of_notMem absent, Multiset.map_cons]
    refine congrArg some ?_
    simp only [← Multiset.singleton_add]
    abel
  · rw [uses, same]
    rfl

/-- The entry is lost exactly if the code says so. -/
theorem storeKeyFootprint_loses {directory : KvDirectory} {insert : InsertResult} {key : UInt64}
    {block : Nat} {bytes sequence : UInt64} {stored : KvDirectory.Stored}
    (returned : directory.storeKey insert key block bytes sequence = .ok stored) :
    (stored.ret = 0 ∧ (directory.storeKeyFootprint insert key).loses = 0) ∨
      (stored.ret = -ENOMEM ∧ (directory.storeKeyFootprint insert key).loses ≠ 0) := by
  rcases storeKeyFootprint_cases returned with
    ⟨zero, _, uses⟩ | ⟨zero, _, _, uses⟩ | ⟨code, _, uses⟩
  · exact .inl ⟨zero, by rw [uses]; rfl⟩
  · exact .inl ⟨zero, by rw [uses]⟩
  · exact .inr ⟨code, by rw [uses]; exact Multiset.singleton_ne_zero _⟩

theorem replayFrom_eq_loop {env : OpenEnv} {file : Bytes} {remaining b : Nat} {stor : KvStor} :
    replayFrom env file remaining b stor = loopFrom replayBlock env file remaining b stor := by
  induction remaining generalizing b stor with
  | zero => rfl
  | succ remaining ih =>
    have rest : replayFrom env file remaining = loopFrom replayBlock env file remaining := by
      funext b stor
      exact ih
    rw [replayFrom, rest]
    rfl

theorem kvStoreReplayLog_eq_log {env : OpenEnv} {file : Bytes} {stor : KvStor} :
    kvStoreReplayLog env file stor = logFrom replayBlock env file stor := by
  simp only [kvStoreReplayLog, replayFrom_eq_loop]
  rfl

/-- What the body does beside the directory leaves the objects alone. -/
def StoresKey (visit : Visit) : Prop :=
  ∀ {insert b header stor next ret}, visit insert b header stor = .ok (ret, next) →
    next.blockArray = stor.blockArray ∧
      ∃ stored, stor.directory.storeKey insert header.keyId b header.dataBytes.toUInt64
        header.sequence = .ok stored ∧ next.directory = stored.directory ∧ stored.ret = ret

theorem replayBlock_storesKey : StoresKey replayBlock := by
  intro insert b header stor next ret returned
  simp only [replayBlock, bind, Except.bind, pure, Except.pure] at returned
  split at returned
  · cases returned
  · rename_i stored storing
    split at returned
    · cases returned
      exact ⟨rfl, stored, storing, rfl, rfl⟩
    · rename_i zero
      have zero := not_not.mp zero
      split at returned
      · cases returned
      · split at returned
        · split at returned <;> cases returned
          exact ⟨rfl, stored, storing, rfl, zero⟩
        · cases returned
          exact ⟨rfl, stored, storing, rfl, zero⟩

/-- The loop ends at the first entry that is lost, by induction on the rounds that remain. -/
theorem loopFootprint_takes {visit : Visit} (stores : StoresKey visit) {env : OpenEnv}
    {file : Bytes} : ∀ (remaining b : Nat) {stor last : KvStor} {ret : Int},
    loopFrom visit env file remaining b stor = .ok (ret, last) →
    last.blockArray = stor.blockArray ∧
      (loopFootprint visit env file remaining b stor).Takes stor.directory.objects
        last.directory.objects ∧
      ((loopFootprint visit env file remaining b stor).loses = 0 ↔ ret ≠ -ENOMEM)
  | 0, _, stor, last, ret, returned => by
    cases returned
    exact ⟨rfl, Footprint.takes_none, iff_of_true rfl (by decide)⟩
  | remaining + 1, b, stor, last, ret, returned => by
    rw [loopFrom] at returned
    rw [loopFootprint]
    cases delivered : stor.blockArray.readBlock (env.read b) file b with
    | error code =>
      rw [delivered] at returned
      cases returned
      exact ⟨rfl, Footprint.takes_none, iff_of_true rfl (readBlock_ioCode delivered).others.1⟩
    | ok bytes =>
      rw [delivered] at returned
      dsimp only at returned ⊢
      split at returned
      · rename_i valid
        rw [if_pos valid]
        cases passed : visit (env.insert b) b (KvBlock.ofBytes bytes).header stor with
        | error fault =>
          rw [passed] at returned
          cases returned
        | ok result =>
          obtain ⟨code, next⟩ := result
          obtain ⟨array, stored, storing, directory, rfl⟩ := stores passed
          have takes := directory ▸ storeKeyFootprint_takes storing
          have loses := storeKeyFootprint_loses storing
          rw [passed] at returned
          dsimp only at returned ⊢
          split at returned
          · rename_i failed
            cases returned
            rw [if_pos failed]
            obtain ⟨code, lost⟩ := loses.resolve_left fun kept => failed kept.1
            exact ⟨array, takes, iff_of_false lost (not_not_intro code)⟩
          · rename_i zero
            rw [if_neg zero]
            obtain ⟨_, kept⟩ := loses.resolve_right fun lost => zero (by rw [lost.1]; decide)
            obtain ⟨array', takes', loses'⟩ := loopFootprint_takes stores remaining (b + 1) returned
            refine ⟨array'.trans array, takes.append takes', ?_⟩
            rw [Footprint.append_loses, kept, zero_add]
            exact loses'
      · rename_i invalid
        rw [if_neg invalid]
        exact loopFootprint_takes stores remaining (b + 1) returned

/-- The objects of a store beside its entries. -/
def KvBlockArray.shell (array : KvBlockArray) : Multiset Object :=
  {.stor} + {.appendPoint} + {.directory} + {.blockArray} + array.objects + {.blockAllocator} +
    {.bits}

theorem KvStor.objects_eq (stor : KvStor) :
    stor.objects = stor.directory.objects + stor.blockArray.shell := by
  simp only [KvStor.objects, KvBlockArray.shell]
  abel

/-- A footprint in the directory is one of the store. -/
theorem takes_in_store {stor last : KvStor} {footprint : Footprint Object}
    (array : last.blockArray = stor.blockArray)
    (takes : footprint.Takes stor.directory.objects last.directory.objects) :
    footprint.Takes stor.objects last.objects := by
  rw [KvStor.objects_eq, KvStor.objects_eq, array]
  exact takes.frame _

theorem logFootprint_takes {visit : Visit} (stores : StoresKey visit) {env : OpenEnv} {file : Bytes}
    {stor last : KvStor} {ret : Int}
    (returned : logFrom visit env file stor = .ok (ret, last)) :
    (logFootprint visit env file stor).Takes stor.objects last.objects ∧
      ((logFootprint visit env file stor).loses = 0 ↔ ret ≠ -ENOMEM) := by
  rw [logFrom] at returned
  rw [logFootprint]
  cases counted : stor.blockArray.getFileBlockCount env.seekEnd file with
  | error code =>
    rw [counted] at returned
    cases returned
    exact ⟨Footprint.takes_none, iff_of_true rfl (getFileBlockCount_ioCode counted).others.1⟩
  | ok total =>
    rw [counted] at returned
    obtain ⟨array, takes, loses⟩ := loopFootprint_takes stores total 0 returned
    exact ⟨takes_in_store array takes, loses⟩

theorem replayLogFootprint_takes {env : OpenEnv} {file : Bytes} {stor last : KvStor} {ret : Int}
    (returned : kvStoreReplayLog env file stor = .ok (ret, last)) :
    (kvStoreReplayLogFootprint env file stor).Takes stor.objects last.objects ∧
      ((kvStoreReplayLogFootprint env file stor).loses = 0 ↔ ret ≠ -ENOMEM) := by
  rw [kvStoreReplayLog_eq_log] at returned
  exact logFootprint_takes replayBlock_storesKey returned

/-- The descriptor joins the objects of a store that has none yet. -/
theorem takes_descriptor {stor : KvStor} (closed : stor.blockArray.fd = none) (fd : Nat) :
    (⟨[.acquire {.descriptor fd}], 0⟩ : Footprint Object).Takes stor.objects
      { stor with blockArray := { stor.blockArray with fd := some fd } }.objects := by
  refine congrArg some ?_
  have none : stor.blockArray.objects = 0 := by rw [KvBlockArray.objects, closed]
  have one : { stor.blockArray with fd := some fd }.objects = {.descriptor fd} := rfl
  simp only [KvStor.objects, none, one]
  abel

theorem KvStor.objects_ne_zero (stor : KvStor) : stor.objects ≠ 0 := by
  have member : Object.stor ∈ stor.objects := by simp [KvStor.objects]
  exact fun empty => Multiset.notMem_zero _ (empty ▸ member)

/-- A store that could not be opened is lost with every object that it has. -/
theorem abandoned_takes {footprint : Footprint Object} {stor : KvStor}
    (takes : footprint.Takes 0 stor.objects) :
    (footprint.append ⟨[], stor.objects⟩).Takes 0 0 ∧
      (footprint.append ⟨[], stor.objects⟩).loses ≠ 0 := by
  refine ⟨takes.append (takes_lost _), fun zero => ?_⟩
  exact stor.objects_ne_zero (Footprint.append_loses_eq_zero.mp zero).2

/-- The store that a replay has filled, or nothing that the caller has. -/
theorem replayed_takes {opens : Footprint Object} {env : OpenEnv} {file : Bytes}
    {stor last : KvStor} {ret : Int} (takes : opens.Takes 0 stor.objects) (kept : opens.loses = 0)
    (returned : kvStoreReplayLog env file stor = .ok (ret, last)) {footprint : Footprint Object}
    (ends : footprint =
      if ret = 0 then opens.append (kvStoreReplayLogFootprint env file stor)
      else (opens.append (kvStoreReplayLogFootprint env file stor)).append ⟨[], last.objects⟩) :
    footprint.Takes 0 (if ret = 0 then last.objects else 0) ∧ (footprint.loses = 0 ↔ ret = 0) := by
  obtain ⟨takes', loses⟩ := replayLogFootprint_takes returned
  have replays := takes.append takes'
  subst ends
  by_cases zero : ret = 0
  · simp only [if_pos zero]
    refine ⟨replays, iff_of_true ?_ zero⟩
    rw [Footprint.append_loses, kept, zero_add]
    exact loses.mpr (by rw [zero]; decide)
  · simp only [if_neg zero]
    obtain ⟨gone, lost⟩ := abandoned_takes replays
    exact ⟨gone, iff_of_false lost zero⟩

/-- What is left of `kv_open`: the store, or nothing that the caller has. -/
theorem openFootprint_takes {create : Bool} {argc : Nat} {env : OpenEnv} {m next : Machine}
    {ret : Int} (returned : kvOpen create argc env m = .ok ret next) :
    (kvOpenFootprint create argc env m.file).Takes 0 (if ret = 0 then next.stor.objects else 0) ∧
      ((kvOpenFootprint create argc env m.file).loses = 0 ↔
        ¬ (2 ≤ argc ∧ env.mallocs.stor ∧ env.mallocs.blockAllocator ∧ ret ≠ 0)) := by
  rw [kvOpen_apply] at returned
  rw [kvOpenFootprint]
  split at returned
  · rename_i few
    cases returned
    rw [if_pos few]
    exact ⟨Footprint.takes_none, iff_of_true rfl fun loses => by omega⟩
  rename_i enough
  have two : 2 ≤ argc := by omega
  rw [if_neg enough]
  rcases kvStoreInit_cases env.mallocs with ⟨deliver, made⟩ | ⟨_, ⟨code, failed, made⟩ | ⟨made, _⟩⟩
  · have inits := initFootprint_takes made
    have kept : (KvStor.initFootprint env.mallocs).loses = 0 := by rw [deliver]; rfl
    -- With a store that is made every failure loses it.
    have given : env.mallocs.stor ∧ env.mallocs.blockAllocator := by rw [deliver]; exact ⟨rfl, rfl⟩
    have all : ¬ (2 ≤ argc ∧ env.mallocs.stor ∧ env.mallocs.blockAllocator ∧ ret ≠ 0) ↔ ret = 0 := by
      simp only [two, given.1, given.2, true_and, ne_eq, not_not]
    rw [all]
    rw [made] at returned ⊢
    dsimp only at returned ⊢
    cases result : env.open with
    | failed errno =>
      rw [result] at returned
      cases returned
      rw [if_neg errno.code_ne_zero]
      obtain ⟨gone, lost⟩ := abandoned_takes inits
      exact ⟨gone, iff_of_false lost errno.code_ne_zero⟩
    | opened fd =>
      rw [result] at returned
      dsimp only at returned ⊢
      have opens := inits.append (takes_descriptor rfl fd)
      have opensKept : ((KvStor.initFootprint env.mallocs).append
          ⟨[.acquire {.descriptor fd}], 0⟩).loses = 0 := by
        rw [Footprint.append_loses, kept, add_zero]
      cases create with
      | true =>
        cases returned
        exact ⟨opens, iff_of_true opensKept rfl⟩
      | false =>
        rw [if_neg Bool.false_ne_true] at returned ⊢
        generalize replayed : kvStoreReplayLog env m.file _ = outcome at returned ⊢
        rcases outcome with _ | ⟨code, last⟩
        · cases returned
        · cases returned
          exact replayed_takes opens opensKept replayed rfl
  · obtain ⟨takes, loses⟩ := initFootprint_failed made
    rw [made] at returned ⊢
    cases returned
    rw [if_neg failed]
    refine ⟨takes, loses.trans (not_congr ?_)⟩
    simp only [two, failed, ne_eq, not_false_eq_true, true_and, and_true]
  · rw [made] at returned
    cases returned

/-- An update uses and loses what its footprint says. -/
structure Machine.Accounted (m : Machine) (ret : Int) (next : Machine)
    (footprint : Footprint Object) : Prop where
  opened : next.opened = m.opened
  takes : footprint.Takes m.stor.objects next.stor.objects
  loses : footprint.loses = 0 ↔ ret ≠ -ENOMEM

/-- An update that gets no further than the file. -/
theorem accounted_none {m next : Machine} {ret : Int} (opened : next.opened = m.opened)
    (objects : next.stor.objects = m.stor.objects) (code : ret ≠ -ENOMEM) :
    m.Accounted ret next .none where
  opened := opened
  takes := objects ▸ Footprint.takes_none
  loses := iff_of_true rfl code

/-- All that an update does to the objects is done by `kv_directory__store_key`. -/
theorem appendFootprint_accounted {env : BlockWrite} {key size : UInt64}
    {valueData : Option Bytes} {m next : Machine} {ret : Int}
    (returned : kvAppend env key size valueData m = .ok ret next) :
    m.Accounted ret next (m.appendFootprint env key size valueData) ∧ Passed ret := by
  simp only [kvAppend, bind_eq_ok, getStor_apply, setStor_apply, lift_eq_ok,
    EStateM.Result.ok.injEq] at returned
  obtain ⟨_, _, ⟨rfl, rfl⟩, _, _, ⟨_, rfl⟩, block, _, ⟨initialised, rfl⟩, returned⟩ := returned
  obtain ⟨⟨d, appendPoint⟩, _, ⟨searched, rfl⟩, _, _, ⟨_, rfl⟩, returned⟩ := returned
  simp only [Machine.appendFootprint, initialised, searched]
  split at returned
  · rename_i full
    cases returned
    rw [if_pos full]
    exact ⟨accounted_none rfl rfl (by decide), by decide, by decide⟩
  · rename_i room
    rw [if_neg room]
    obtain ⟨code, after, written, returned⟩ := bind_eq_ok.mp returned
    simp only [onFile] at written
    split at written
    · rename_i _ file wrote
      cases written
      rw [wrote]
      dsimp only
      split at returned
      · rename_i failed
        cases returned
        rw [if_pos failed]
        obtain ⟨memory, passed⟩ := (writeBlock_ioCode wrote).others
        exact ⟨accounted_none rfl rfl memory, passed⟩
      · rename_i zero
        rw [if_neg zero]
        simp only [bind_eq_ok, setStor_apply, lift_eq_ok, EStateM.Result.ok.injEq] at returned
        obtain ⟨stored, _, ⟨storing, rfl⟩, _, _, ⟨_, rfl⟩, returned⟩ := returned
        have takes := storeKeyFootprint_takes storing
        have loses := storeKeyFootprint_loses storing
        split at returned
        · rename_i failed
          cases returned
          obtain ⟨code, lost⟩ := loses.resolve_left fun kept => failed kept.1
          refine ⟨⟨rfl, takes_in_store rfl takes, iff_of_false lost (not_not_intro code)⟩, ?_⟩
          rw [code]
          exact ⟨by decide, by decide⟩
        · rename_i stores
          obtain ⟨_, kept⟩ := loses.resolve_right fun lost =>
            stores (by rw [lost.1]; decide)
          simp only [bind_eq_ok, setStor_apply, lift_eq_ok, EStateM.Result.ok.injEq, pure_apply]
            at returned
          obtain ⟨_, _, ⟨_, rfl⟩, _, _, ⟨_, rfl⟩, _, _, ⟨_, rfl⟩, _, _, ⟨_, rfl⟩, rfl, rfl⟩ := returned
          exact ⟨⟨rfl, takes_in_store rfl takes, iff_of_true kept (by decide)⟩, by decide, by decide⟩
    · cases written

theorem setFootprint_accounted {env : BlockWrite} {key : UInt64} {v : Value} {m next : Machine}
    {response : Response} (returned : Act.exec m (.kvSet env key v) = .ok response next) :
    m.Accounted response.ret next (Act.footprint m (.kvSet env key v)) := by
  rw [Act.exec, exec_set] at returned
  rw [Act.footprint]
  cases set : kvSet env key v m with
  | error fault last =>
    rw [set] at returned
    cases returned
  | ok ret last =>
    rw [set] at returned
    cases returned
    rw [kvSet] at set
    split at set
    · rename_i invalid
      cases set
      rw [if_pos invalid]
      exact accounted_none rfl rfl (by decide)
    · rename_i valid
      rw [if_neg valid]
      exact (appendFootprint_accounted set).1

theorem delFootprint_accounted {env : BlockWrite} {key : UInt64} {m next : Machine}
    {response : Response} (returned : Act.exec m (.kvDel env key) = .ok response next) :
    m.Accounted response.ret next (Act.footprint m (.kvDel env key)) := by
  rw [Act.exec, exec_del] at returned
  rw [Act.footprint]
  cases deleted : kvDel env key m with
  | error fault last =>
    rw [deleted] at returned
    cases returned
  | ok ret last =>
    rw [deleted] at returned
    cases returned
    simp only [kvDel, bind_apply, getStor_apply] at deleted
    cases looked : m.stor.directory.lookupKey key with
    | error code =>
      rw [looked] at deleted
      cases deleted
      refine accounted_none rfl rfl ?_
      rw [KvDirectory.lookupKey] at looked
      split at looked
      · cases looked
        decide
      · cases looked
    | ok found =>
      obtain ⟨block, size⟩ := found
      rw [looked] at deleted
      dsimp only at deleted ⊢
      split at deleted
      · rename_i tombstone
        cases deleted
        rw [if_pos tombstone]
        exact accounted_none rfl rfl (by decide)
      · rename_i live
        rw [if_neg live]
        exact (appendFootprint_accounted deleted).1

theorem closeFootprint_takes (stor : KvStor) : stor.closeFootprint.Takes stor.objects 0 := by
  simp only [Footprint.Takes, KvStor.closeFootprint, KvStor.objects, account_release, account_nil,
    add_zero]

/-- A process that keeps its store open. -/
theorem takes_open {m next : Machine} {ret : Int} {footprint : Footprint Object}
    (opened : m.opened = true) (accounted : m.Accounted ret next footprint) :
    footprint.Takes m.held next.held := by
  have takes := accounted.takes
  rwa [Machine.held, Machine.held, accounted.opened, if_pos opened, if_pos opened]

/-- What one act makes of what a process holds, and when it loses some of it. -/
theorem Act.footprint_takes {act : Act} {m next : Machine} {response : Response}
    (returned : act.exec m = .ok response next) :
    (act.Legal m → (act.footprint m).Takes m.held next.held) ∧
      ((act.footprint m).loses = 0 ↔ ¬ act.Loses response) := by
  cases act with
  | kvOpen create argc env =>
    rw [Act.exec, openStore_apply] at returned
    split at returned
    · rename_i ret last opens
      cases returned
      obtain ⟨takes, loses⟩ := openFootprint_takes opens
      refine ⟨fun legal => ?_, loses⟩
      have closed : m.held = 0 := by rw [Machine.held, legal, if_neg Bool.false_ne_true]
      rw [closed]
      simpa only [footprint, Machine.held, decide_eq_true_eq] using takes
    · cases returned
  | kvClose =>
    cases returned
    refine ⟨fun legal => ?_, iff_of_true rfl id⟩
    rw [Machine.held, legal]
    exact closeFootprint_takes m.stor
  | kvGet read key v =>
    rcases exec_get m read key v with ⟨response', got⟩ | failed
    · rw [Act.exec, got] at returned
      cases returned
      exact ⟨fun _ => Footprint.takes_none, iff_of_true rfl id⟩
    · rw [Act.exec, failed] at returned
      cases returned
  | kvSet env key v =>
    have accounted := setFootprint_accounted returned
    exact ⟨fun legal => takes_open legal accounted, accounted.loses⟩
  | kvDel env key =>
    have accounted := delFootprint_accounted returned
    exact ⟨fun legal => takes_open legal accounted, accounted.loses⟩

/-- A process never releases what it does not hold.  It ends with its store, if that is still
open, and with what has been lost. -/
theorem process_accounts {m last : Machine} (closed : m.opened = false) {acts : List Act}
    (legal : Runs.Allowed Act.exec (fun m act => act.Legal m) m acts) {responses : List Response}
    (returned : Runs.run Act.exec m acts = .ok responses last) :
    account 0 (processFootprint m acts).uses =
      some (last.held + (processFootprint m acts).loses) := by
  have takes : (processFootprint m acts).Takes m.held last.held :=
    runFootprint_takes (fun legal first => (Act.footprint_takes first).1 legal) legal returned
  rwa [Machine.held, closed, if_neg Bool.false_ne_true] at takes

/-- A process that creates a store and sets a key for whose entry `tsearch` has no memory. -/
def unindexedProcess : List Act :=
  [.kvOpen true 2 .quiet, .kvSet { BlockWrite.quiet with insert := .tsearchNull } 1 .one, .kvClose]

theorem unindexedProcess_runs : ∃ last : Machine, last.opened = false ∧
    Runs.Allowed Act.exec (fun m act => act.Legal m) ⟨[], .initial none, false⟩ unindexedProcess ∧
    Runs.run Act.exec ⟨[], .initial none, false⟩ unindexedProcess =
      .ok [⟨0, none⟩, ⟨-ENOMEM, none⟩, ⟨0, none⟩] last := by
  have sound : Sound (Machine.fresh 3).stor := sound_initial 3
  have opens : Act.exec ⟨[], .initial none, false⟩ (.kvOpen true 2 .quiet) =
      .ok ⟨0, none⟩ (.fresh 3) := rfl
  have accepted : (Call.set { BlockWrite.quiet with insert := .tsearchNull } 1 .one).Accepted
      (.fresh 3) := by simp [Call.Accepted, Value.one, MAXBLOB]
  obtain ⟨block, _, _, _, _, unindexed⟩ :=
    exec_update_stops sound (.set _ 1 .one) accepted (fresh_destination 3)
  have absent : (Machine.fresh 3).stor.directory.findEntryForKey 1 = none := by
    simp [Machine.fresh, KvStor.initial, KvDirectory.findEntryForKey]
  have sets : Act.exec (.fresh 3) (.kvSet { BlockWrite.quiet with insert := .tsearchNull } 1 .one) =
      .ok ⟨-ENOMEM, none⟩ ((Machine.fresh 3).wrote 0 block .full) := unindexed rfl absent rfl
  obtain ⟨last, closes, closed⟩ : ∃ last : Machine,
      Act.exec ((Machine.fresh 3).wrote 0 block .full) .kvClose = .ok ⟨0, none⟩ last ∧
        last.opened = false := ⟨_, rfl, rfl⟩
  refine ⟨last, closed, .cons rfl opens (.cons rfl sets ⟨rfl, fun _ _ _ => trivial⟩), ?_⟩
  simp only [unindexedProcess, Runs.run, opens, sets, closes]

/-- At its end this process has nothing but the entry that nothing refers to. -/
theorem process_accounts_unindexed : ∃ last : Machine, last.held = 0 ∧
    account 0 (processFootprint ⟨[], .initial none, false⟩ unindexedProcess).uses =
      some (last.held + (processFootprint ⟨[], .initial none, false⟩ unindexedProcess).loses) := by
  obtain ⟨last, closed, legal, ran⟩ := unindexedProcess_runs
  exact ⟨last, by rw [Machine.held, closed, if_neg Bool.false_ne_true],
    process_accounts rfl legal ran⟩

/-- A process loses nothing exactly if none of its calls does. -/
theorem process_loses_nothing_iff {m last : Machine} {acts : List Act} {responses : List Response}
    (returned : Runs.run Act.exec m acts = .ok responses last) :
    (processFootprint m acts).loses = 0 ↔ ∀ call ∈ acts.zip responses, ¬ call.1.Loses call.2 :=
  runFootprint_loses_iff Act.Loses (fun first => (Act.footprint_takes first).2) returned

theorem process_loses_unindexed :
    (processFootprint ⟨[], .initial none, false⟩ unindexedProcess).loses ≠ 0 := by
  obtain ⟨last, _, _, ran⟩ := unindexedProcess_runs
  intro nothing
  exact (process_loses_nothing_iff ran).mp nothing
    (.kvSet { BlockWrite.quiet with insert := .tsearchNull } 1 .one, ⟨-ENOMEM, none⟩)
    (by simp [unindexedProcess]) rfl

end KeyValueStore
