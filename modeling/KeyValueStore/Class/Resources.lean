import KeyValueStore.Class.Refinement
import KeyValueStore.Submission.Resources

/-! # Memory and descriptors of the class store

What `Submission.Resources` says of the other store, for the class store in either text.  They
differ where C++ has destructors: the wrapper deletes a store that it could not open, and
`DeleteOnExit` the block of a call, which the port has left to do (`@todo`). -/

namespace KeyValueStore.KvStore

open Resources SearchTree

/-! ## What the functions use -/

/-- The constructor of `KvStore`, or `kv_store__init`. -/
def initFootprint : Port → OpenEnv → Footprint Object
  -- No process gets past a `new` that throws.
  | .cpp, _ =>
    ⟨[.acquire {.stor}, .acquire {.blockAllocator}, .acquire {.bits}, .acquire {.blockArray},
        .acquire {.directory}, .acquire {.appendPoint}], 0⟩
  | .c, env =>
    let mallocs := env.mallocs
    -- Here the block array is there, but what `kv_block_array__init` has returned is not 0.
    if mallocs.stor ∧ mallocs.blockAllocator ∧ mallocs.bits ∧ mallocs.blockArray ∧
        env.arrayRet ≠ 0 then
      ⟨[.acquire {.stor}, .acquire {.blockAllocator}, .acquire {.bits}, .acquire {.blockArray},
          .release {.stor}],
        {.blockAllocator} + {.bits} + {.blockArray}⟩
    else KvStor.initFootprint mallocs

/-- `KvStore::scan`, `kv_store__scan` -/
def scanFootprint (env : OpenEnv) : Bytes → KvStor → Footprint Object :=
  logFootprint scanBlock env.toOpenEnv

/-- A store that could not be opened.  The destructors are those calls of `kv_close` of the
other store. -/
def abandonFootprint : Port → KvStor → Footprint Object
  | .cpp, stor => stor.closeFootprint
  | .c, stor => ⟨[], stor.objects⟩

/-- `kv_open` -/
def openFootprint (port : Port) (create : Bool) (argc : Nat) (env : OpenEnv) (file : Bytes) :
    Footprint Object :=
  if port = .c ∧ argc < 2 then .none
  else
    let inits := initFootprint port env
    match init port env with
    | .error _ | .ok (.error _) => inits
    | .ok (.ok stor) =>
      match env.open with
      | .failed _ => inits.append (abandonFootprint port stor)
      | .opened fd =>
        let opens := inits.append ⟨[.acquire {.descriptor fd}], 0⟩
        if create then opens
        else
          let stor := { stor with blockArray := { stor.blockArray with fd := some fd } }
          let scans := opens.append (scanFootprint env file stor)
          match scan env file stor with
          | .error _ => scans
          | .ok (ret, stor) => if ret = 0 then scans else scans.append (abandonFootprint port stor)

/-- `kv_close`, which closes the file first. -/
def closeFootprint (stor : KvStor) : Footprint Object :=
  ⟨[.release stor.blockArray.objects, .release {.bits}, .release {.blockAllocator},
    .release {.blockArray}, .release stor.directory.objects, .release {.directory},
    .release {.appendPoint}, .release {.stor}], 0⟩

/-- `remove_key`: the node goes with `tdelete`, and then the entry. -/
def removeKeyFootprint (directory : KvDirectory) (key : UInt64) : Footprint Object :=
  match directory.findEntryForKey key with
  | none => .none
  | some entry =>
    if ¬ isAllocated entry then .none
    else
      match tdelete directory.entriesRoot entry.keyId with
      | none => .none
      | some _ => ⟨[.release {.node key}, .release {.entry key}], 0⟩

/-- The statements that have a block on the heap. -/
def withBlock (port : Port) (body : Footprint Object) : Footprint Object :=
  (Footprint.append ⟨[.acquire {.block}], 0⟩ body).append <|
    match port with
    | .cpp => ⟨[.release {.block}], 0⟩
    | .c => ⟨[], {.block}⟩

/-- `KvStore::get`, `kv_get` -/
def getFootprint (port : Port) (stor : KvStor) (key : UInt64) (v : Value) : Footprint Object :=
  match lookupKey stor.directory key with
  | .error _ => .none
  | .ok (_, storedValueSize) =>
    if v.size < storedValueSize then .none else withBlock port .none

/-- `KvStore::set`, `kv_set` -/
def setFootprint (port : Port) (m : Machine) (env : BlockWrite) (key : UInt64) :
    Option Value → Footprint Object
  | none => .none
  | some v =>
    if v.size.toNat = 0 ∨ v.size.toNat > MAXBLOB then .none
    else withBlock port (m.appendFootprint env.toBlockWrite key v.size (some v.data))

/-- `KvStore::del`, `kv_del` -/
def delFootprint (port : Port) (m : Machine) (env : BlockWrite) (key : UInt64) : Footprint Object :=
  match lookupKey m.stor.directory key with
  | .error _ => .none
  | .ok _ => withBlock port <|
    match env.memory.init key 0 none m.stor.currentSequenceNumber,
      m.stor.appendPoint.getAppendPoint m.stor.blockAllocator with
    | .ok blockData, .ok (destinationBlock, _) =>
      if destinationBlock = UINT32_MAX then .none
      else match m.stor.blockArray.writeBlock env.write destinationBlock blockData.toBytes m.file with
        | .ok ret _ => if ret ≠ 0 then .none else removeKeyFootprint m.stor.directory key
        | .error _ _ => .none
    | _, _ => .none

/-! ## A process -/

inductive Act where
  | kvOpen (create : Bool) (argc : Nat) (env : OpenEnv)
  | kvClose
  | kvGet (allocated : Bool) (read : ReadResult) (key : UInt64) (v : Value)
  /-- Without a value the pointer to it is NULL. -/
  | kvSet (env : BlockWrite) (key : UInt64) (v : Option Value)
  | kvDel (env : BlockWrite) (key : UInt64)

namespace Act

def exec (port : Port) (m : Machine) : Act → EStateM.Result Fault Machine Response
  | .kvOpen create argc env => openStore port create argc env m
  | .kvClose => (do KeyValueStore.kvClose; return ⟨0, none⟩ : StoreM Response) m
  | .kvGet allocated read key v => KvStore.exec port m (.get allocated read key v)
  | .kvSet env key v => KvStore.exec port m (.set env key v)
  | .kvDel env key => KvStore.exec port m (.del env key)

def Legal (m : Machine) : Act → Prop
  | .kvOpen .. => m.opened = false
  | .kvClose | .kvGet .. | .kvSet .. | .kvDel .. => m.opened = true

def footprint (port : Port) (m : Machine) : Act → Footprint Object
  | .kvOpen create argc env => openFootprint port create argc env m.file
  | .kvClose => closeFootprint m.stor
  | .kvGet _ _ key v => getFootprint port m.stor key v
  | .kvSet env key v => setFootprint port m env key v
  | .kvDel env key => delFootprint port m env key

/-- A call on an open store that got past its checks. -/
def passes : Act → Response → Bool
  | .kvOpen .., _ | .kvClose, _ => false
  | .kvGet .., response | .kvSet .., response | .kvDel .., response =>
    decide (Passed response.ret)

end Act

def processFootprint (port : Port) : Machine → List Act → Footprint Object :=
  runFootprint (Act.exec port) (Act.footprint port)

/-! ## What each function takes -/

theorem scanFrom_eq_loop {env : OpenEnv} {file : Bytes} {remaining b : Nat} {stor : KvStor} :
    scanFrom env file remaining b stor = loopFrom scanBlock env.toOpenEnv file remaining b stor := by
  induction remaining generalizing b stor with
  | zero => rfl
  | succ remaining ih =>
    have rest : scanFrom env file remaining = loopFrom scanBlock env.toOpenEnv file remaining := by
      funext b stor
      exact ih
    rw [scanFrom, rest]
    rfl

theorem scan_eq_log {env : OpenEnv} {file : Bytes} {stor : KvStor} :
    scan env file stor = logFrom scanBlock env.toOpenEnv file stor := by
  simp only [scan, scanFrom_eq_loop]
  rfl

theorem scanBlock_storesKey : StoresKey scanBlock := by
  intro insert b header stor next ret returned
  simp only [scanBlock, bind, Except.bind, pure, Except.pure] at returned
  split at returned
  · cases returned
  · rename_i stored storing
    split at returned
    · cases returned
      exact ⟨rfl, stored, storing, rfl, rfl⟩
    · rename_i zero
      have zero := not_not.mp zero
      split at returned
      · cases returned
      · split at returned
        · split at returned <;> cases returned
          exact ⟨rfl, stored, storing, rfl, zero⟩
        · cases returned
          exact ⟨rfl, stored, storing, rfl, zero⟩

/-! ### No entry, and nothing else that a store has, is the block of a call -/

theorem block_notMem_objects (stor : KvStor) : .block ∉ stor.objects := by
  cases fd : stor.blockArray.fd <;>
    simp [KvStor.objects, KvDirectory.objects, KvBlockArray.objects, fd]

theorem block_notMem_storeKey (directory : KvDirectory) (insert : InsertResult) (key : UInt64) :
    .block ∉ (directory.storeKeyFootprint insert key).loses := by
  unfold KvDirectory.storeKeyFootprint
  split <;> simp [Footprint.none]

theorem block_notMem_append (m : Machine) (env : KeyValueStore.BlockWrite) (key size : UInt64)
    (valueData : Option Bytes) : .block ∉ (m.appendFootprint env key size valueData).loses := by
  unfold Machine.appendFootprint
  split
  · split
    · exact Multiset.notMem_zero _
    · split
      · split
        · exact Multiset.notMem_zero _
        · exact block_notMem_storeKey _ _ _
      · exact Multiset.notMem_zero _
  · exact Multiset.notMem_zero _

theorem block_notMem_loop {visit : Visit} {env : KeyValueStore.OpenEnv} {file : Bytes} :
    ∀ (remaining b : Nat) (stor : KvStor),
      .block ∉ (loopFootprint visit env file remaining b stor).loses
  | 0, _, _ => Multiset.notMem_zero _
  | remaining + 1, b, stor => by
    rw [loopFootprint]
    split
    · exact Multiset.notMem_zero _
    · dsimp only
      split
      · split
        · exact block_notMem_storeKey _ _ _
        · split
          · exact block_notMem_storeKey _ _ _
          · rw [Footprint.append_loses, Multiset.mem_add]
            exact not_or.mpr ⟨block_notMem_storeKey _ _ _, block_notMem_loop remaining (b + 1) _⟩
      · exact block_notMem_loop remaining (b + 1) stor

theorem block_notMem_scan (env : OpenEnv) (file : Bytes) (stor : KvStor) :
    .block ∉ (scanFootprint env file stor).loses := by
  rw [scanFootprint, logFootprint]
  split
  · exact Multiset.notMem_zero _
  · exact block_notMem_loop _ 0 stor

theorem block_notMem_init (port : Port) (env : OpenEnv) :
    .block ∉ (initFootprint port env).loses := by
  cases port with
  | cpp => exact Multiset.notMem_zero _
  | c =>
    rw [initFootprint]
    split
    · decide
    · generalize env.mallocs = mallocs
      obtain ⟨stor, blockAllocator, bits, blockArray, directory, appendPoint⟩ := mallocs
      cases stor <;> cases blockAllocator <;> cases bits <;> cases blockArray <;>
        cases directory <;> cases appendPoint <;> decide

/-! ### Opening and closing -/

theorem initFootprint_takes {port : Port} {env : OpenEnv} (made : Made port env) :
    (initFootprint port env).Takes 0 (initial none).objects ∧ (initFootprint port env).loses = 0 := by
  have all : (⟨[.acquire {.stor}, .acquire {.blockAllocator}, .acquire {.bits},
      .acquire {.blockArray}, .acquire {.directory}, .acquire {.appendPoint}], 0⟩ :
        Footprint Object).Takes 0 (initial none).objects := by
    refine congrArg some ?_
    have noEntries : (initial none).directory.objects = 0 := rfl
    have closed : (initial none).blockArray.objects = 0 := rfl
    simp only [KvStor.objects, noEntries, closed]
    abel
  cases port with
  | cpp => exact ⟨all, rfl⟩
  | c =>
    have returned : ¬ env.arrayRet ≠ 0 := not_not_intro (made.arrayRet rfl)
    rw [initFootprint, if_neg fun given => returned given.2.2.2.2, made.mallocs]
    exact ⟨all, rfl⟩

/-- Only the port returns from a constructor that fails. -/
theorem initFootprint_failed {port : Port} {env : OpenEnv} {ret : Int}
    (failed : init port env = .ok (.error ret)) : port = .c ∧ (initFootprint port env).Takes 0 0 := by
  obtain ⟨⟨⟨stor, blockAllocator, bits, blockArray, directory, appendPoint⟩, _, _, _, _⟩, arrayRet⟩ :=
    env
  cases port with
  | cpp =>
    rw [init] at failed
    dsimp only at failed
    split at failed <;> cases failed
  | c =>
    refine ⟨rfl, ?_⟩
    cases stor with
    | false =>
      cases failed
      rfl
    | true =>
      cases blockAllocator with
      | false =>
        cases failed
        rfl
      | true =>
        cases bits with
        | false => cases failed
        | true =>
          cases blockArray with
          | false =>
            cases failed
            rfl
          | true =>
            by_cases zero : arrayRet = 0
            · subst zero
              cases directory <;> cases appendPoint <;> cases failed <;> rfl
            · rw [initFootprint, if_pos ⟨rfl, rfl, rfl, rfl, zero⟩]
              rfl

theorem scanFootprint_takes {env : OpenEnv} {file : Bytes} {stor last : KvStor} {ret : Int}
    (returned : scan env file stor = .ok (ret, last)) :
    (scanFootprint env file stor).Takes stor.objects last.objects ∧
      ((scanFootprint env file stor).loses = 0 ↔ ret ≠ -ENOMEM) := by
  rw [scan_eq_log] at returned
  exact logFootprint_takes scanBlock_storesKey returned

/-- A store that could not be opened is deleted in C++, and lost by the port. -/
theorem abandoned_takes (port : Port) {footprint : Footprint Object} {stor : KvStor}
    (takes : footprint.Takes 0 stor.objects) (noBlock : .block ∉ footprint.loses) :
    (footprint.append (abandonFootprint port stor)).Takes 0 0 ∧
      (port = .cpp → (footprint.append (abandonFootprint port stor)).loses = footprint.loses) ∧
      .block ∉ (footprint.append (abandonFootprint port stor)).loses := by
  simp only [Footprint.append_loses]
  cases port with
  | cpp =>
    have freed : (abandonFootprint .cpp stor).loses = 0 := rfl
    rw [freed, add_zero]
    exact ⟨takes.append (closeFootprint_takes stor), fun _ => rfl, noBlock⟩
  | c =>
    refine ⟨takes.append (takes_lost stor.objects), by rintro ⟨⟩, ?_⟩
    rw [Multiset.mem_add]
    exact not_or.mpr ⟨noBlock, block_notMem_objects stor⟩

/-- The store that a scan has filled, or nothing. -/
theorem scanned_takes (port : Port) {opens : Footprint Object} {env : OpenEnv} {file : Bytes}
    {stor last : KvStor} {ret : Int} (takes : opens.Takes 0 stor.objects) (kept : opens.loses = 0)
    (returned : scan env file stor = .ok (ret, last)) {footprint : Footprint Object}
    (ends : footprint =
      if ret = 0 then opens.append (scanFootprint env file stor)
      else (opens.append (scanFootprint env file stor)).append (abandonFootprint port last)) :
    footprint.Takes 0 (if ret = 0 then last.objects else 0) ∧
      (port = .cpp → (footprint.loses = 0 ↔ ret ≠ -ENOMEM)) ∧ .block ∉ footprint.loses := by
  obtain ⟨takes', loses⟩ := scanFootprint_takes returned
  have scans := takes.append takes'
  have same : (opens.append (scanFootprint env file stor)).loses =
      (scanFootprint env file stor).loses := by
    rw [Footprint.append_loses, kept, zero_add]
  rw [← same] at loses
  have noBlock : .block ∉ (opens.append (scanFootprint env file stor)).loses := by
    rw [same]
    exact block_notMem_scan env file stor
  subst ends
  split
  · exact ⟨scans, fun _ => loses, noBlock⟩
  · obtain ⟨gone, frees, noBlock'⟩ := abandoned_takes port scans noBlock
    refine ⟨gone, fun cpp => ?_, noBlock'⟩
    rw [frees cpp]
    exact loses

/-- A new store, or nothing; and in C++ no more is lost than an entry. -/
theorem openFootprint_takes {port : Port} {create : Bool} {argc : Nat} {env : OpenEnv}
    {m next : Machine} {ret : Int} (returned : KvStore.open port create argc env m = .ok ret next) :
    (openFootprint port create argc env m.file).Takes 0 (if ret = 0 then next.stor.objects else 0) ∧
      (port = .cpp → ((openFootprint port create argc env m.file).loses = 0 ↔ ret ≠ -ENOMEM)) ∧
      .block ∉ (openFootprint port create argc env m.file).loses := by
  rw [open_apply] at returned
  rw [openFootprint]
  split at returned
  · rename_i few
    cases returned
    rw [if_pos few]
    exact ⟨Footprint.takes_none, fun _ => iff_of_true rfl (by decide), Multiset.notMem_zero _⟩
  rename_i enough
  rw [if_neg enough]
  have noInit := block_notMem_init port env
  rcases init_cases port env with ⟨made, inits⟩ | ⟨_, ⟨code, failed, inits⟩ | inits⟩
  · obtain ⟨takes, kept⟩ := initFootprint_takes made
    rw [inits] at returned ⊢
    dsimp only at returned ⊢
    cases result : env.open with
    | failed errno =>
      rw [result] at returned
      cases returned
      rw [if_neg errno.code_ne_zero]
      obtain ⟨gone, frees, noBlock⟩ := abandoned_takes port takes noInit
      refine ⟨gone, fun cpp => ?_, noBlock⟩
      rw [frees cpp]
      exact iff_of_true kept errno.ioCode.others.1
    | opened fd =>
      rw [result] at returned
      dsimp only at returned ⊢
      have opens := takes.append (@takes_descriptor (initial none) rfl fd)
      have opensKept :
          ((initFootprint port env).append ⟨[.acquire {.descriptor fd}], 0⟩).loses = 0 := by
        rw [Footprint.append_loses, kept, add_zero]
      cases create with
      | true =>
        cases returned
        rw [if_pos rfl, if_pos rfl, opensKept]
        exact ⟨opens, fun _ => iff_of_true rfl (by decide), Multiset.notMem_zero _⟩
      | false =>
        rw [if_neg Bool.false_ne_true] at returned ⊢
        generalize scanned : scan env m.file _ = outcome at returned ⊢
        rcases outcome with _ | ⟨code, last⟩
        · cases returned
        · cases returned
          exact scanned_takes port opens opensKept scanned rfl
  · obtain ⟨rfl, takes⟩ := initFootprint_failed inits
    rw [inits] at returned ⊢
    cases returned
    rw [if_neg failed]
    exact ⟨takes, by rintro ⟨⟩, noInit⟩
  · rw [inits] at returned
    cases returned

theorem closing_takes (stor : KvStor) : (closeFootprint stor).Takes stor.objects 0 := by
  have order : stor.objects = 0 + {.stor} + {.appendPoint} + {.directory} + stor.directory.objects +
      {.blockArray} + {.blockAllocator} + {.bits} + stor.blockArray.objects := by
    rw [KvStor.objects]
    abel
  simp only [Footprint.Takes, closeFootprint, order, account_release, account_nil, add_zero]

/-! ### Get, set, delete -/

/-- A call on an open store: what it uses, what C++ loses, and what the port loses. -/
structure Accounted (port : Port) (m : Machine) (ret : Int) (next : Machine)
    (footprint : Footprint Object) : Prop where
  opened : next.opened = m.opened
  takes : footprint.Takes m.stor.objects next.stor.objects
  frees : port = .cpp → (footprint.loses = 0 ↔ ret ≠ -ENOMEM)
  leaks : port = .c → footprint.loses.count .block = if Passed ret then 1 else 0

/-- A call that its checks reject. -/
theorem accounted_rejected {port : Port} {m : Machine} {ret : Int}
    (rejected : ret = -ENOENT ∨ ret = -EINVAL) : Accounted port m ret m .none where
  opened := rfl
  takes := Footprint.takes_none
  frees _ := by
    refine iff_of_true rfl ?_
    rcases rejected with rfl | rfl <;> decide
  leaks _ := by
    rw [if_neg fun passed => rejected.elim passed.1 passed.2]
    exact Multiset.count_zero _

/-- A call that has its block on the heap. -/
theorem accounted_withBlock {port : Port} {m next : Machine} {ret : Int} {body : Footprint Object}
    (accounted : m.Accounted ret next body) (others : .block ∉ body.loses) (passed : Passed ret) :
    Accounted port m ret next (withBlock port body) where
  opened := accounted.opened
  takes := by
    have first : (⟨[.acquire {.block}], 0⟩ : Footprint Object).Takes m.stor.objects
        (m.stor.objects + {.block}) := congrArg some (add_zero _).symm
    refine (first.append (accounted.takes.frame {.block})).append ?_
    cases port with
    | cpp => simp only [Footprint.Takes, account_release, account_nil, add_zero]
    | c => rfl
  frees := by
    rintro rfl
    simp only [withBlock, Footprint.append_loses, zero_add, add_zero]
    exact accounted.loses
  leaks := by
    rintro rfl
    rw [if_pos passed]
    simp only [withBlock, Footprint.append_loses, zero_add, Multiset.count_add,
      Multiset.count_eq_zero_of_notMem others, Multiset.count_singleton_self]

/-- A call that uses its block, but not the directory. -/
theorem accounted_unindexed {port : Port} {m next : Machine} {ret : Int}
    (opened : next.opened = m.opened) (objects : next.stor.objects = m.stor.objects)
    (code : ret ≠ -ENOMEM) (passed : Passed ret) :
    Accounted port m ret next (withBlock port .none) :=
  accounted_withBlock (accounted_none opened objects code) (Multiset.notMem_zero _) passed

theorem lookupKey_error {directory : KvDirectory} {key : UInt64} {code : Int}
    (failed : lookupKey directory key = .error code) : code = -ENOENT := by
  rw [lookupKey] at failed
  split at failed
  · cases failed
    rfl
  · split at failed <;> cases failed
    rfl

theorem getFootprint_accounted {port : Port} {allocated : Bool} {read : ReadResult} {key : UInt64}
    {v : Value} {m next : Machine} {response : Response}
    (returned : Act.exec port m (.kvGet allocated read key v) = .ok response next) :
    Accounted port m response.ret next (getFootprint port m.stor key v) := by
  simp only [Act.exec, exec, perform, bind_eq_ok, getStor_apply, getFile_apply, lift_eq_ok,
    EStateM.Result.ok.injEq, pure_apply] at returned
  obtain ⟨_, _, ⟨rfl, rfl⟩, _, _, ⟨rfl, rfl⟩, ⟨ret, v'⟩, _, ⟨got, rfl⟩, rfl, rfl⟩ := returned
  rw [getFootprint]
  rw [get] at got
  cases looked : lookupKey m.stor.directory key with
  | error code =>
    rw [looked] at got
    cases got
    exact accounted_rejected (.inl (lookupKey_error looked))
  | ok found =>
    rw [looked] at got
    dsimp only at got ⊢
    split at got
    · rename_i small
      cases got
      rw [if_pos small]
      exact accounted_rejected (.inr rfl)
    · rename_i room
      rw [if_neg room]
      split at got
      · cases got
      · split at got
        · rename_i failed
          cases got
          have code := (readBlock_ioCode failed).others
          exact accounted_unindexed rfl rfl code.1 code.2
        · split at got
          · cases got
            exact accounted_unindexed rfl rfl (by decide) (by decide)
          · simp only [bind, Except.bind, pure, Except.pure] at got
            split at got <;> cases got
            exact accounted_unindexed rfl rfl (by decide) (by decide)

theorem setFootprint_accounted {port : Port} {env : BlockWrite} {key : UInt64} {v : Option Value}
    {m next : Machine} {response : Response}
    (returned : Act.exec port m (.kvSet env key v) = .ok response next) :
    Accounted port m response.ret next (setFootprint port m env key v) := by
  rw [Act.exec, exec_set] at returned
  cases set : KvStore.set port env key v m with
  | error fault last =>
    rw [set] at returned
    cases returned
  | ok ret last =>
    rw [set] at returned
    cases returned
    rw [KvStore.set.eq_def] at set
    cases v with
    | none =>
      cases port with
      | cpp =>
        cases set
        exact accounted_rejected (.inr rfl)
      | c => cases set
    | some v =>
      dsimp only at set
      rw [setFootprint]
      split at set
      · rename_i invalid
        cases set
        rw [if_pos invalid]
        exact accounted_rejected (.inr rfl)
      · rename_i valid
        rw [if_neg valid]
        split at set
        · cases set
        · obtain ⟨accounted, passed⟩ := appendFootprint_accounted set
          exact accounted_withBlock accounted (block_notMem_append _ _ _ _ _) passed

/-- The entry of a live key goes with its node. -/
theorem removeKeyFootprint_takes {directory : KvDirectory} {key : UInt64} {found : Nat × UInt64}
    (looked : lookupKey directory key = .ok found) :
    (removeKey directory key).1 = 0 ∧ (removeKeyFootprint directory key).loses = 0 ∧
      (removeKeyFootprint directory key).Takes directory.objects
        (removeKey directory key).2.objects := by
  have live : directory.Live key := by
    by_contra dead
    rw [lookupKey_dead dead] at looked
    cases looked
  obtain ⟨entry, present, data⟩ := live
  have deleted : tdelete directory.entriesRoot key = some (directory.entriesRoot.erase key) :=
    tdelete_of_found present
  have member : key ∈ directory.keys := KvDirectory.mem_keys.mpr ⟨entry, present⟩
  have keys : (without directory key).keys = directory.keys.erase key :=
    Finmap.keys_erase key directory.entriesRoot
  have split : directory.keys.val = key ::ₘ (without directory key).keys.val := by
    rw [keys, Finset.erase_val, Multiset.cons_erase member]
  have uses : removeKeyFootprint directory key =
      ⟨[.release {.node key}, .release {.entry key}], 0⟩ := by
    simp only [removeKeyFootprint, present, isAllocated_iff.mpr data, not_true_eq_false, if_false,
      KvDirectory.keyId_of_find present, deleted]
  have objects : directory.objects =
      (without directory key).objects + {.entry key} + {.node key} := by
    simp only [KvDirectory.objects, split, Multiset.map_cons]
    simp only [← Multiset.singleton_add]
    abel
  rw [removeKey_live present data, uses]
  refine ⟨rfl, rfl, ?_⟩
  simp only [Footprint.Takes, objects, account_release, account_nil, add_zero]

theorem delFootprint_accounted {port : Port} {env : BlockWrite} {key : UInt64} {m next : Machine}
    {response : Response} (returned : Act.exec port m (.kvDel env key) = .ok response next) :
    Accounted port m response.ret next (delFootprint port m env key) := by
  rw [Act.exec, exec_del] at returned
  cases deletes : del env key m with
  | error fault last =>
    rw [deletes] at returned
    cases returned
  | ok ret last =>
    rw [deletes] at returned
    cases returned
    rw [delFootprint]
    simp only [del, bind_apply, getStor_apply] at deletes
    cases looked : lookupKey m.stor.directory key with
    | error code =>
      rw [looked] at deletes
      cases deletes
      exact accounted_rejected (.inl (lookupKey_error looked))
    | ok found =>
      obtain ⟨oldBlock, size⟩ := found
      rw [looked] at deletes
      cases allocated : env.allocated with
      | false =>
        simp only [allocated, Bool.false_eq_true, not_false_eq_true, if_true, bind_apply] at deletes
        cases deletes
      | true =>
        simp only [allocated, not_true_eq_false, if_false, bind_eq_ok, setStor_apply, lift_eq_ok,
          EStateM.Result.ok.injEq] at deletes
        obtain ⟨_, _, ⟨_, rfl⟩, block, _, ⟨initialised, rfl⟩, deletes⟩ := deletes
        obtain ⟨⟨d, appendPoint⟩, _, ⟨searched, rfl⟩, _, _, ⟨_, rfl⟩, deletes⟩ := deletes
        simp only [initialised, searched]
        split at deletes
        · rename_i full
          cases deletes
          rw [if_pos full]
          exact accounted_unindexed rfl rfl (by decide) ⟨by decide, by decide⟩
        · rename_i room
          rw [if_neg room]
          obtain ⟨code, after, written, deletes⟩ := bind_eq_ok.mp deletes
          simp only [onFile] at written
          split at written
          · rename_i _ file wrote
            cases written
            have others := (writeBlock_ioCode wrote).others
            rw [wrote]
            dsimp only
            split at deletes
            · rename_i failed
              cases deletes
              rw [if_pos failed]
              exact accounted_unindexed rfl rfl others.1 others.2
            · rename_i zero
              rw [if_neg zero]
              obtain ⟨removed, kept, takes⟩ := removeKeyFootprint_takes looked
              simp only [removed, ne_eq, not_true_eq_false, if_false, bind_eq_ok, setStor_apply,
                lift_eq_ok, EStateM.Result.ok.injEq, pure_apply] at deletes
              obtain ⟨_, _, ⟨_, rfl⟩, _, _, ⟨_, rfl⟩, _, _, ⟨_, rfl⟩, rfl, rfl⟩ := deletes
              refine accounted_withBlock ⟨rfl, takes_in_store rfl takes, ?_⟩ ?_ ⟨by decide, by decide⟩
              · exact iff_of_true kept (by decide)
              · rw [kept]
                exact Multiset.notMem_zero _
          · cases written

/-! ## Processes -/

/-- An accounted call of a process that has its store open. -/
theorem Accounted.takes_open {port : Port} {m next : Machine} {ret : Int}
    {footprint : Footprint Object} (accounted : Accounted port m ret next footprint)
    (opened : m.opened = true) : footprint.Takes m.held next.held := by
  have takes := accounted.takes
  rwa [Machine.held, Machine.held, accounted.opened, if_pos opened, if_pos opened]

/-- What one act makes of what a process holds, and what it loses. -/
theorem Act.footprint_takes {port : Port} {act : Act} {m next : Machine} {response : Response}
    (returned : act.exec port m = .ok response next) :
    (act.Legal m → (act.footprint port m).Takes m.held next.held) ∧
      (port = .cpp → ((act.footprint port m).loses = 0 ↔ response.ret ≠ -ENOMEM)) ∧
      (port = .c →
        (act.footprint port m).loses.count .block = if act.passes response then 1 else 0) := by
  cases act with
  | kvOpen create argc env =>
    rw [Act.exec, openStore_apply] at returned
    split at returned
    · rename_i ret last opens
      cases returned
      obtain ⟨takes, frees, noBlock⟩ := openFootprint_takes opens
      refine ⟨fun legal => ?_, frees, fun _ => Multiset.count_eq_zero_of_notMem noBlock⟩
      have closed : m.held = 0 := by rw [Machine.held, legal, if_neg Bool.false_ne_true]
      rw [closed]
      simpa only [footprint, Machine.held, decide_eq_true_eq] using takes
    · cases returned
  | kvClose =>
    cases returned
    refine ⟨fun legal => ?_, fun _ => iff_of_true rfl (by decide), fun _ => rfl⟩
    rw [Machine.held, legal]
    exact closing_takes m.stor
  | kvGet allocated read key v =>
    have accounted := getFootprint_accounted returned
    refine ⟨accounted.takes_open, accounted.frees, fun c => ?_⟩
    simpa only [footprint, passes, decide_eq_true_eq] using accounted.leaks c
  | kvSet env key v =>
    have accounted := setFootprint_accounted returned
    refine ⟨accounted.takes_open, accounted.frees, fun c => ?_⟩
    simpa only [footprint, passes, decide_eq_true_eq] using accounted.leaks c
  | kvDel env key =>
    have accounted := delFootprint_accounted returned
    refine ⟨accounted.takes_open, accounted.frees, fun c => ?_⟩
    simpa only [footprint, passes, decide_eq_true_eq] using accounted.leaks c

/-- A process of the class store never releases what it does not hold, in either text. -/
theorem class_process_accounts {port : Port} {m last : Machine} (closed : m.opened = false)
    {acts : List Act} (legal : Runs.Allowed (Act.exec port) (fun m act => act.Legal m) m acts)
    {responses : List Response} (returned : Runs.run (Act.exec port) m acts = .ok responses last) :
    account 0 (processFootprint port m acts).uses =
      some (last.held + (processFootprint port m acts).loses) := by
  have takes : (processFootprint port m acts).Takes m.held last.held :=
    runFootprint_takes (fun legal first => (Act.footprint_takes first).1 legal) legal returned
  rwa [Machine.held, closed, if_neg Bool.false_ne_true] at takes

/-- A process that creates a store, sets a key and closes. -/
def oneSet : List Act := [.kvOpen true 2 .quiet, .kvSet .quiet 1 (some .one), .kvClose]

theorem oneSet_runs (port : Port) : ∃ (response : Response) (last : Machine), response.ret = 0 ∧
    last.opened = false ∧
    Runs.Allowed (Act.exec port) (fun m act => act.Legal m) ⟨[], initial none, false⟩ oneSet ∧
    Runs.run (Act.exec port) ⟨[], initial none, false⟩ oneSet =
      .ok [⟨0, none⟩, response, ⟨0, none⟩] last := by
  have opens : Act.exec port ⟨[], initial none, false⟩ (.kvOpen true 2 .quiet) =
      .ok ⟨0, none⟩ (fresh 3) := by
    cases port <;> rfl
  have undisturbed : Undisturbed (fresh 3) (.set .quiet 1 (some .one)) :=
    ⟨trivial, rfl, ⟨rfl, rfl⟩, fun _ => by decide⟩
  have pointers : Call.PointersValid port (.set .quiet 1 (some .one)) :=
    ⟨rfl, fun _ => Option.some_ne_none _⟩
  obtain ⟨response, next, performed, ⟨valid, codes, room⟩, _⟩ :=
    (represents_fresh 3).advance pointers undisturbed
  have sets : Act.exec port (fresh 3) (.kvSet .quiet 1 (some .one)) = .ok response next := performed
  have zero : response.ret = 0 := by
    rcases codes with zero | invalid | full
    · exact zero
    · exact absurd ⟨.one, rfl, one_valid⟩ (valid.mp invalid)
    · exact absurd full (room ⟨∅, by decide, fun _ present => absurd rfl present⟩)
  have stillOpen : next.opened = true := (setFootprint_accounted sets).opened
  obtain ⟨last, closes, closed⟩ : ∃ last : Machine,
      Act.exec port next .kvClose = .ok ⟨0, none⟩ last ∧ last.opened = false := ⟨_, rfl, rfl⟩
  refine ⟨response, last, zero, closed, ?_, ?_⟩
  · exact .cons rfl opens (.cons rfl sets ⟨stillOpen, fun _ _ _ => trivial⟩)
  · simp only [oneSet, Runs.run, opens, sets, closes]

/-- The port has nothing left at its end but what it has lost. -/
theorem class_process_accounts_one_set : ∃ last : Machine, last.held = 0 ∧
    account 0 (processFootprint .c ⟨[], initial none, false⟩ oneSet).uses =
      some (last.held + (processFootprint .c ⟨[], initial none, false⟩ oneSet).loses) := by
  obtain ⟨response, last, _, closed, legal, ran⟩ := oneSet_runs .c
  exact ⟨last, by rw [Machine.held, closed, if_neg Bool.false_ne_true],
    class_process_accounts rfl legal ran⟩

/-- In C++ a process loses nothing exactly if no call has returned `-ENOMEM`. -/
theorem cpp_loses_nothing_iff {m last : Machine} {acts : List Act} {responses : List Response}
    (returned : Runs.run (Act.exec .cpp) m acts = .ok responses last) :
    (processFootprint .cpp m acts).loses = 0 ↔
      ∀ call ∈ acts.zip responses, ¬ call.2.ret = -ENOMEM :=
  runFootprint_loses_iff (fun _ (response : Response) => response.ret = -ENOMEM)
    (fun first => (Act.footprint_takes first).2.1 rfl) returned

theorem cpp_loses_nothing_one_set :
    (processFootprint .cpp ⟨[], initial none, false⟩ oneSet).loses = 0 := by
  obtain ⟨response, last, zero, _, _, ran⟩ := oneSet_runs .cpp
  refine (cpp_loses_nothing_iff ran).mpr ?_
  simp [oneSet, zero, ENOMEM]

/-- A process of the port loses a block for every call that got past its checks. -/
theorem port_loses_blocks {m last : Machine} {acts : List Act} {responses : List Response}
    (returned : Runs.run (Act.exec .c) m acts = .ok responses last) :
    (processFootprint .c m acts).loses.count .block =
      (acts.zip responses).countP fun call => call.1.passes call.2 :=
  count_runFootprint_loses Object.block Act.passes (fun first => (Act.footprint_takes first).2.2 rfl)
    returned

theorem port_loses_blocks_one_set :
    (processFootprint .c ⟨[], initial none, false⟩ oneSet).loses.count .block = 1 := by
  obtain ⟨response, last, zero, _, _, ran⟩ := oneSet_runs .c
  rw [port_loses_blocks ran]
  simp [oneSet, Act.passes, zero, Passed, ENOENT, EINVAL]

end KeyValueStore.KvStore
