import KeyValueStore.Submission.Reopen

/-! # The sign of the codes

The block array promises a code `< 0` for every error and returns `errno` itself when a
system call fails.  The operations pass it on, so they return a positive number exactly
when a system call that they make fails (`failures_negative_iff`). -/

namespace KeyValueStore

open VersionLog

/-- `lseek` or `read` returns -1. -/
def ReadResult.Errs : ReadResult → Prop
  | .failed _ | .seekFailed _ => True
  | .full | .short _ => False

/-- `lseek` or `write` returns -1. -/
def WriteResult.Errs : WriteResult → Prop
  | .failed .. | .seekFailed _ => True
  | .full | .short _ | .stopped _ => False

/-! ## The block array -/

theorem Errno.code_pos (errno : Errno) : 0 < errno.code := by
  have positive : 0 < (errno : Nat) := errno.2
  simp only [Errno.code]
  omega

section BlockArray

variable {array : KvBlockArray} {file : Bytes}

theorem readBlock_code {result : ReadResult} {b : Nat} {ret : Int}
    (failed : array.readBlock result file b = .error ret) :
    0 < ret ↔ array.fd ≠ none ∧ result.Errs := by
  unfold KvBlockArray.readBlock at failed
  cases fd : array.fd with
  | none =>
    rw [fd] at failed
    cases failed
    simp [EBADF]
  | some _ =>
    rw [fd] at failed
    cases result with
    | seekFailed errno | failed errno =>
      cases failed
      simp [errno.code_pos, ReadResult.Errs]
    | full | short _ =>
      simp only at failed
      split at failed
      · cases failed
      · cases failed
        simp [ EIO, ReadResult.Errs]

/-- A read that fails with -1 delivers nothing. -/
theorem readBlock_of_errs {result : ReadResult} (errs : result.Errs) (opened : array.fd ≠ none)
    (b : Nat) : ∃ ret, array.readBlock result file b = .error ret := by
  cases fd : array.fd with
  | none => exact absurd fd opened
  | some _ =>
    cases result with
    | seekFailed errno | failed errno => exact ⟨errno.code, by simp [KvBlockArray.readBlock, fd]⟩
    | full | short _ => exact absurd errs id

theorem writeBlock_code {result : WriteResult} {d : Nat} {bytes : Bytes} {ret : Int} {after : Bytes}
    (returned : array.writeBlock result d bytes file = .ok ret after) :
    0 < ret ↔ array.fd ≠ none ∧ result.Errs := by
  unfold KvBlockArray.writeBlock at returned
  cases fd : array.fd with
  | none =>
    rw [fd] at returned
    cases returned
    simp [EBADF]
  | some _ =>
    rw [fd] at returned
    cases result with
    | seekFailed errno | failed errno _ =>
      cases returned
      simp [errno.code_pos, WriteResult.Errs]
    | full =>
      cases returned
      simp [WriteResult.Errs]
    | short _ =>
      cases returned
      split <;> simp [ EIO, WriteResult.Errs]
    | stopped _ => cases returned

theorem writeBlock_of_errs {result : WriteResult} (errs : result.Errs) (opened : array.fd ≠ none)
    (d : Nat) (bytes : Bytes) : ∃ ret after, array.writeBlock result d bytes file = .ok ret after := by
  cases fd : array.fd with
  | none => exact absurd fd opened
  | some _ =>
    cases result with
    | seekFailed errno | failed errno _ =>
      exact ⟨errno.code, _, by simp [KvBlockArray.writeBlock, fd]; rfl⟩
    | full | short _ | stopped _ => exact absurd errs id

end BlockArray

/-! ## `kv_get` -/

/-- A system call that the get makes fails: it gets as far as reading the block. -/
def GetErrs (read : ReadResult) (stor : KvStor) (key : UInt64) (v : Value) : Prop :=
  ∃ block size, stor.directory.lookupKey key = .ok (block, size) ∧ size ≠ 0 ∧ ¬ v.size < size ∧
    stor.blockArray.fd ≠ none ∧ read.Errs

theorem kvGet_code (read : ReadResult) (stor : KvStor) (file : Bytes) (key : UInt64) (v : Value) :
    (∀ ret out, kvGet read stor file key v = .ok (ret, out) → ret ≤ 0) ↔
      ¬ GetErrs read stor key v := by
  constructor
  · rintro nonpositive ⟨block, size, found, live, enough, opened, errs⟩
    obtain ⟨ret, failed⟩ : ∃ ret, stor.blockArray.readBlock read file block = .error ret :=
      readBlock_of_errs errs opened block
    have positive := (readBlock_code failed).mpr ⟨opened, errs⟩
    have returned : kvGet read stor file key v = .ok (ret, v) := by
      simp [kvGet, found, live, enough, failed]
    have sign := nonpositive ret v returned
    omega
  · intro quiet ret out returned
    by_contra positive
    rw [Int.not_le] at positive
    refine quiet ?_
    rw [kvGet] at returned
    split at returned
    · rename_i ret' missing
      cases returned
      rw [KvDirectory.lookupKey] at missing
      split at missing <;> cases missing
      cases positive
    · rename_i block size found
      split at returned
      · cases returned
        cases positive
      · rename_i live
        split at returned
        · cases returned
          cases positive
        · rename_i enough
          split at returned
          · rename_i ret' failed
            cases returned
            obtain ⟨opened, errs⟩ := (readBlock_code failed).mp positive
            exact ⟨block, size, found, live, enough, opened, errs⟩
          · simp only at returned
            split at returned
            · cases returned
              cases positive
            · simp only [bind, Except.bind, pure, Except.pure] at returned
              split at returned
              · cases returned
              · cases returned
                cases positive

/-! ## `kv_set`, `kv_del` -/

/-- A system call of the append fails: there is a block to write to. -/
def AppendErrs (env : BlockWrite) (stor : KvStor) : Prop :=
  ∃ d appendPoint, stor.appendPoint.getAppendPoint stor.blockAllocator = .ok (d, appendPoint) ∧
    d ≠ UINT32_MAX ∧ stor.blockArray.fd ≠ none ∧ env.write.Errs

theorem storeKey_code {directory : KvDirectory} {insert : InsertResult} {key : UInt64}
    {block : Nat} {bytes sequence : UInt64} {stored : KvDirectory.Stored}
    (returned : directory.storeKey insert key block bytes sequence = .ok stored) :
    stored.ret ≤ 0 := by
  cases found : directory.findEntryForKey key with
  | none =>
    cases insert <;> simp only [KvDirectory.storeKey, found] at returned <;> cases returned <;>
      simp [ENOMEM]
  | some entry =>
    simp only [KvDirectory.storeKey, found, bind, Except.bind, pure, Except.pure] at returned
    split at returned
    · cases returned
    · split at returned <;> cases returned <;> simp

/-- A step of a computation that comes back. -/
theorem bind_eq_ok {α β : Type} {action : StoreM α} {rest : α → StoreM β} {m next : Machine}
    {value : β} : (action >>= rest) m = .ok value next ↔
      ∃ first middle, action m = .ok first middle ∧ rest first middle = .ok value next := by
  rw [bind_apply]
  cases action m <;> simp

theorem lift_eq_ok {α : Type} {result : Except Fault α} {m next : Machine} {value : α} :
    lift result m = .ok value next ↔ result = .ok value ∧ m = next := by
  cases result <;> simp [lift]

theorem kvAppend_code {env : BlockWrite} {key size : UInt64} {valueData : Option Bytes}
    {m next : Machine} {ret : Int} (returned : kvAppend env key size valueData m = .ok ret next)
    (positive : 0 < ret) : AppendErrs env m.stor := by
  simp only [kvAppend, bind_eq_ok, getStor_apply, setStor_apply, lift_eq_ok,
    EStateM.Result.ok.injEq] at returned
  obtain ⟨_, _, ⟨rfl, rfl⟩, _, _, ⟨_, rfl⟩, block, _, ⟨initialised, rfl⟩, returned⟩ := returned
  obtain ⟨⟨d, appendPoint⟩, _, ⟨searched, rfl⟩, _, _, ⟨_, rfl⟩, returned⟩ := returned
  split at returned
  · cases returned
    cases positive
  · rename_i room
    obtain ⟨code, _, written, returned⟩ := bind_eq_ok.mp returned
    have writing : ∃ file after, m.stor.blockArray.writeBlock env.write d block.toBytes file =
        .ok code after := by
      simp only [onFile] at written
      split at written
      · rename_i value after wrote
        cases written
        exact ⟨_, after, wrote⟩
      · cases written
    obtain ⟨file, after, wrote⟩ := writing
    split at returned
    · cases returned
      exact ⟨d, appendPoint, searched, room, (writeBlock_code wrote).mp positive⟩
    · -- From here on no system call is made.
      simp only [bind_eq_ok, setStor_apply, lift_eq_ok, EStateM.Result.ok.injEq] at returned
      obtain ⟨stored, _, ⟨storing, rfl⟩, _, _, ⟨_, rfl⟩, returned⟩ := returned
      split at returned
      · cases returned
        have sign := storeKey_code storing
        omega
      · simp only [bind_eq_ok, setStor_apply, lift_eq_ok, EStateM.Result.ok.injEq, pure_apply]
          at returned
        obtain ⟨_, _, _, _, _, _, _, _, _, _, _, _, rfl, _⟩ := returned
        cases positive

theorem kvAppend_errs {env : BlockWrite} {key size : UInt64} {valueData : Option Bytes}
    {m : Machine} (payload : Payload size valueData) (errs : AppendErrs env m.stor) :
    ∃ ret next, kvAppend env key size valueData m = .ok ret next ∧ 0 < ret := by
  obtain ⟨d, appendPoint, searched, room, opened, errs⟩ := errs
  obtain ⟨block, initialised, _⟩ :=
    init_carries env.memory key (m.stor.currentSequenceNumber + 1) payload
  obtain ⟨ret, after, wrote⟩ :
      ∃ ret after, m.stor.blockArray.writeBlock env.write d block.toBytes m.file = .ok ret after :=
    writeBlock_of_errs errs opened d block.toBytes
  have positive := (writeBlock_code wrote).mpr ⟨opened, errs⟩
  have nonzero : ret ≠ 0 := by omega
  have ended : ∃ next, kvAppend env key size valueData m = .ok ret next := by
    simp only [kvAppend, bind_apply, getStor_apply, setStor_apply, lift_ok, initialised, searched,
      if_neg room, onFile, wrote, if_pos nonzero, pure_apply]
    exact ⟨_, rfl⟩
  obtain ⟨next, ended⟩ := ended
  exact ⟨ret, next, ended, positive⟩

/-- What an update returns is its rejection or what its append returns. -/
theorem update_code {m : Machine} {call : Call} {env : BlockWrite} {key size : UInt64}
    {valueData : Option Bytes} (appends : call.Appends env key size valueData) :
    (∀ response next, exec m call = .ok response next → response.ret ≤ 0) ↔
      ¬ (call.Accepted m ∧ AppendErrs env m.stor) := by
  have sign : call.rejection ≤ 0 := by
    cases appends <;> simp [Call.rejection, EINVAL, ENOENT]
  rcases exec_checked m appends with ⟨refused, returned⟩ | ⟨accepted, payload, appended⟩
  · refine iff_of_true ?_ (fun both => refused both.1)
    intro response next returned'
    rw [returned] at returned'
    cases returned'
    exact sign
  · constructor
    · rintro nonpositive ⟨_, errs⟩
      obtain ⟨ret, next, ended, positive⟩ :
          ∃ ret next, kvAppend env key size valueData m = .ok ret next ∧ 0 < ret :=
        kvAppend_errs payload errs
      have bound := nonpositive ⟨ret, none⟩ next (by rw [appended, ended]; rfl)
      exact absurd bound (Int.not_le.mpr positive)
    · intro quiet response next returned
      by_contra positive
      rw [appended] at returned
      cases ended : kvAppend env key size valueData m with
      | error fault next' => rw [ended] at returned; cases returned
      | ok ret next' =>
        rw [ended] at returned
        cases returned
        exact quiet ⟨accepted, kvAppend_code ended (Int.not_le.mp positive)⟩

/-! ## `kv_open` -/

theorem kvStoreInit_code {mallocs : InitMallocs} {ret : Int}
    (failed : kvStoreInit mallocs = .ok (.error ret)) : ret ≤ 0 := by
  obtain ⟨stor, blockAllocator, bits, blockArray, directory, appendPoint⟩ := mallocs
  have code : (-ENOMEM : Int) ≤ 0 := by decide
  cases stor <;> cases blockAllocator <;> cases bits <;> cases blockArray <;> cases directory <;>
    cases appendPoint <;> cases failed <;> exact code

section Reach

variable {Passed Fails : Nat → Prop} {n total : Nat}

/-- A scan does not get past a number that does not pass. -/
theorem reaches_stopped (stops : ¬ Passed n) (inside : n < total) :
    (∃ b, n ≤ b ∧ b < total ∧ (∀ b', n ≤ b' → b' < b → Passed b') ∧ Fails b) ↔ Fails n := by
  constructor
  · rintro ⟨b, after, _, passed, fails⟩
    obtain rfl | later := Nat.eq_or_lt_of_le after
    · exact fails
    · exact absurd (passed n (Nat.le_refl _) later) stops
  · intro fails
    exact ⟨n, Nat.le_refl _, inside, fun b' _ _ => by omega, fails⟩

theorem reaches_passed (passes : Passed n) (quiet : ¬ Fails n) :
    (∃ b, n ≤ b ∧ b < total ∧ (∀ b', n ≤ b' → b' < b → Passed b') ∧ Fails b) ↔
      ∃ b, n + 1 ≤ b ∧ b < total ∧ (∀ b', n + 1 ≤ b' → b' < b → Passed b') ∧ Fails b := by
  constructor
  · rintro ⟨b, after, before, passed, fails⟩
    obtain rfl | later := Nat.eq_or_lt_of_le after
    · exact absurd fails quiet
    · exact ⟨b, later, before, fun b' low high => passed b' (by omega) high, fails⟩
  · rintro ⟨b, after, before, passed, fails⟩
    refine ⟨b, by omega, before, ?_, fails⟩
    intro b' low high
    obtain rfl | later := Nat.eq_or_lt_of_le low
    · exact passes
    · exact passed b' later high

end Reach

section Replay

variable {env : OpenEnv} {file : Bytes} {n : Nat} {stor : KvStor}

theorem ReadResult.Delivers.not_errs {read : ReadResult} (delivers : read.Delivers) :
    ¬ read.Errs := by
  cases read with
  | full | short _ => exact id
  | failed _ | seekFailed _ => exact fun _ => delivers

/-- Replay returns a positive number exactly if the read of a block that it gets to fails
with -1. -/
theorem replayFrom_code {remaining total : Nat} (replayed : Replayed file n stor)
    (ends : n + remaining = total) (inside : total ≤ blockCount file) (small : total ≤ 2 ^ 32) :
    (∃ ret final, replayFrom env file remaining n stor = .ok (ret, final) ∧ 0 < ret) ↔
      ∃ b, n ≤ b ∧ b < total ∧ (∀ b', n ≤ b' → b' < b → Passes env file b') ∧
        (env.read b).Errs := by
  induction remaining generalizing n stor with
  | zero =>
    refine iff_of_false ?_ ?_
    · rintro ⟨_, _, ⟨⟩, positive⟩
      exact absurd positive (Int.lt_irrefl _)
    · rintro ⟨b, _, _, _⟩
      omega
  | succ remaining ih =>
    have here : n < total := by omega
    have present : n < blockCount file := by omega
    have range : n < 2 ^ 32 := by omega
    rw [replayFrom]
    cases read : stor.blockArray.readBlock (env.read n) file n with
    | error ret =>
      have stops : ¬ Passes env file n := fun passes =>
        replayed.not_delivered range present read passes.1
      have code := readBlock_code read
      rw [reaches_stopped stops here]
      simp [code, replayed.sound.opened]
    | ok bytes =>
      have stored := blockAt_of_readBlock replayed.sound.raw range read
      have delivered := replayed.delivered range present read
      have quiet := delivered.not_errs
      by_cases valid : (KvBlock.ofBytes bytes).validate = true
      · have held := validBlock_eq_some.mpr ⟨stored, valid⟩
        have outcome := replayBlock_outcome replayed delivered held
        simp only [if_pos valid]
        generalize replayBlock (env.insert n) n (KvBlock.ofBytes bytes).header stor = result
          at outcome
        cases outcome with
        | passed passes next =>
          rw [reaches_passed passes quiet]
          exact ih next (by omega)
        | gaveUp stops _ =>
          rw [reaches_stopped stops here]
          simp [quiet, ENOMEM]
        | crashed stops _ _ =>
          rw [reaches_stopped stops here]
          simp [quiet]
        | tripped trips =>
          rw [reaches_stopped (fun passes => passes.not_trips trips) here]
          simp [quiet]
      · have empty := fileLog_of_invalid stored valid
        simp only [if_neg valid]
        rw [reaches_passed (.of_empty delivered empty) quiet]
        exact ih (replayed.skip empty) (by omega)

end Replay

/-- A system call that `kv_open` makes fails: the `open`, the `lseek` to the end of the
file, or the read of a block that replay gets to. -/
def OpenErrs (create : Bool) (argc : Nat) (env : OpenEnv) (file : Bytes) : Prop :=
  2 ≤ argc ∧ env.mallocs.Deliver ∧
    match env.open with
    | .failed _ => True
    | .opened _ => create = false ∧
      match env.seekEnd with
      | .error _ => True
      | .ok () => ∃ b, b < replayedBlocks file ∧ (∀ b', b' < b → Passes env file b') ∧
        (env.read b).Errs

theorem kvOpen_code (create : Bool) (argc : Nat) (env : OpenEnv) (m : Machine) :
    (∀ ret next, kvOpen create argc env m = .ok ret next → ret ≤ 0) ↔
      ¬ OpenErrs create argc env m.file := by
  rw [kvOpen_apply, OpenErrs]
  by_cases few : argc < 2
  · have notEnough : ¬ 2 ≤ argc := by omega
    simp [few, notEnough, EINVAL]
  · have enough : 2 ≤ argc := by omega
    simp only [if_neg few, enough, true_and]
    rcases kvStoreInit_cases env.mallocs with ⟨deliver, made⟩ | ⟨fails, ⟨ret, _, made⟩ | ⟨made, _⟩⟩
    · simp only [made, deliver, true_and]
      cases opened : env.open with
      | failed errno => simp [errno.code_pos]
      | opened fd =>
        cases create with
        | true => simp
        | false =>
          have start : ({ KvStor.initial none with blockArray :=
              { (KvStor.initial none).blockArray with fd := some fd } } : KvStor) =
              .initial (some fd) := rfl
          simp only [start, kvStoreReplayLog_initial, Bool.false_eq_true, if_false, true_and]
          cases seek : env.seekEnd with
          | error errno => simp [errno.code_pos]
          | ok _ =>
            have code := @replayFrom_code env m.file 0 (.initial (some fd)) (replayedBlocks m.file)
              (replayedBlocks m.file) (replayed_initial m.file fd) (Nat.zero_add _)
              (Nat.mod_le _ _) (Nat.le_of_lt (Nat.mod_lt _ (by decide)))
            simp only [Nat.zero_le, true_and, true_implies] at code
            simp only [← code]
            cases replayFrom env m.file (replayedBlocks m.file) 0 (.initial (some fd)) with
            | error fault => simp
            | ok result =>
              obtain ⟨ret, final⟩ := result
              simp
    · have sign := kvStoreInit_code made
      simp [made, fails, sign]
    · simp [made, fails]

/-! ## All public calls -/

/-- A system call that the call makes fails. -/
def CallErrs (m : Machine) (call : Call) : Prop :=
  match call with
  | .set env _ _ | .del env _ => call.Accepted m ∧ AppendErrs env m.stor
  | .get read key v => GetErrs read m.stor key v
  | .reopen argc env => OpenErrs false argc env m.file

theorem openStore_code (create : Bool) (argc : Nat) (env : OpenEnv) (m : Machine) :
    (∀ response next, openStore create argc env m = .ok response next → response.ret ≤ 0) ↔
      ¬ OpenErrs create argc env m.file := by
  rw [← kvOpen_code, openStore_apply]
  cases kvOpen create argc env m <;> simp

/-- In every state, for all arguments and whatever the system calls do: `kv_open`, and every
other call, returns 0 or a negative number exactly if no system call that it makes fails. -/
theorem failures_negative_iff (m : Machine) :
    (∀ (create : Bool) (argc : Nat) (env : OpenEnv),
      (∀ response next, openStore create argc env m = .ok response next → response.ret ≤ 0) ↔
        ¬ OpenErrs create argc env m.file) ∧
    ∀ call : Call, (∀ response next, exec m call = .ok response next → response.ret ≤ 0) ↔
      ¬ CallErrs m call := by
  refine ⟨fun create argc env => openStore_code create argc env m, ?_⟩
  intro call
  cases call with
  | set env key v => exact update_code (.set env key v)
  | del env key => exact update_code (.del env key)
  | get read key v =>
    rw [CallErrs, ← kvGet_code read m.stor m.file key v]
    constructor
    · intro nonpositive ret out returned
      exact nonpositive _ m (exec_get_of_kvGet returned)
    · intro nonpositive response next returned
      rcases answered : kvGet read m.stor m.file key v with fault | ⟨ret, out⟩
      · simp [exec, perform, answered] at returned
      · rw [exec_get_of_kvGet answered] at returned
        cases returned
        exact nonpositive ret out answered
  | reopen argc env =>
    -- `kv_close` leaves the file alone.
    exact openStore_code false argc env m.closed

theorem thirteen_pos : 0 < 13 := by decide

def EACCES : Errno := ⟨13, thirteen_pos⟩

/-- A file that may not be opened. -/
def OpenEnv.refused : OpenEnv := { OpenEnv.quiet with «open» := .failed EACCES }

theorem failure_positive :
    ¬ ∀ (m : Machine) (create : Bool) (argc : Nat) (env : OpenEnv) (response : Response)
      (next : Machine), openStore create argc env m = .ok response next → response.ret ≤ 0 := by
  intro claimed
  have nonpositive := claimed (.fresh 3) false 2 .refused ⟨EACCES.code, none⟩ _ rfl
  exact absurd nonpositive (by decide)

/-! ## Codes apart -/

/-- The code of a call that got past its checks. -/
def Passed (ret : Int) : Prop := ret ≠ -ENOENT ∧ ret ≠ -EINVAL

instance (ret : Int) : Decidable (Passed ret) :=
  inferInstanceAs (Decidable (ret ≠ -ENOENT ∧ ret ≠ -EINVAL))

/-- The codes of the block array. -/
def IoCode (ret : Int) : Prop := 0 ≤ ret ∨ ret = - EIO ∨ ret = -EBADF

/-- None of them is that of `kv_directory__store_key`, or of a check. -/
theorem IoCode.others {ret : Int} (code : IoCode ret) : ret ≠ -ENOMEM ∧ Passed ret := by
  simp only [IoCode, Passed, EIO, EBADF, ENOMEM, ENOENT, EINVAL] at code ⊢
  omega

theorem Errno.ioCode (errno : Errno) : IoCode errno.code := .inl (Int.le_of_lt errno.code_pos)

theorem readBlock_ioCode {array : KvBlockArray} {result : ReadResult} {file : Bytes} {b : Nat}
    {ret : Int} (failed : array.readBlock result file b = .error ret) : IoCode ret := by
  unfold KvBlockArray.readBlock at failed
  cases fd : array.fd with
  | none =>
    rw [fd] at failed
    cases failed
    exact .inr (.inr rfl)
  | some _ =>
    rw [fd] at failed
    cases result with
    | seekFailed errno | failed errno =>
      cases failed
      exact errno.ioCode
    | full | short _ =>
      dsimp only at failed
      split at failed <;> cases failed
      exact .inr (.inl rfl)

theorem getFileBlockCount_ioCode {array : KvBlockArray} {seek : Except Errno Unit} {file : Bytes}
    {ret : Int} (failed : array.getFileBlockCount seek file = .error ret) : IoCode ret := by
  unfold KvBlockArray.getFileBlockCount at failed
  split at failed
  · cases failed
    exact .inr (.inr rfl)
  · cases failed
    exact Errno.ioCode _
  · cases failed

theorem writeBlock_ioCode {array : KvBlockArray} {result : WriteResult} {d : Nat}
    {bytes file after : Bytes} {ret : Int}
    (returned : array.writeBlock result d bytes file = .ok ret after) : IoCode ret := by
  unfold KvBlockArray.writeBlock at returned
  cases fd : array.fd with
  | none =>
    rw [fd] at returned
    cases returned
    exact .inr (.inr rfl)
  | some _ =>
    rw [fd] at returned
    cases result with
    | seekFailed errno | failed errno _ =>
      cases returned
      exact errno.ioCode
    | full =>
      cases returned
      exact .inl (Int.le_refl 0)
    | short count =>
      cases returned
      split
      · exact .inl (Int.le_refl 0)
      · exact .inr (.inl rfl)
    | stopped count => cases returned

theorem WriteResult.code_ioCode {write : WriteResult} {ret : Int} (code : write.code = some ret) :
    IoCode ret := by
  cases write with
  | full =>
    cases code
    exact .inl (Int.le_refl 0)
  | short count =>
    cases code
    split
    · exact .inl (Int.le_refl 0)
    · exact .inr (.inl rfl)
  | failed errno _ | seekFailed errno =>
    cases code
    exact errno.ioCode
  | stopped count => cases code

end KeyValueStore
