import KeyValueStore.Submission.Replay

/-! # `kv_open`, with and without `create`

`created_iff` says what a new store is.  `ReopenOutcome` is everything `kv_close` and
`kv_open` of the same file can do: be refused before replay starts, use a failed
`malloc`, or end as replay ends. -/

namespace KeyValueStore

open VersionLog

/-- What `kv_store__init` makes, once the file is open. -/
def KvStor.initial (fd : Option Nat) : KvStor where
  blockArray := ⟨sizeofKvBlock, fd⟩
  directory := ⟨∅⟩
  blockAllocator := .empty capacity
  appendPoint := ⟨0, 0⟩
  currentSequenceNumber := 0

/-- A store that has just been created. -/
def Machine.fresh (fd : Nat) : Machine := ⟨[], .initial (some fd), true⟩

/-- Each allocation of `kv_store__init` delivers. -/
def InitMallocs.Deliver (mallocs : InitMallocs) : Prop :=
  mallocs = ⟨true, true, true, true, true, true⟩

/-- `kv_store__init` delivers the new store, fails with a code, or uses the bitmap that
it did not get. -/
theorem kvStoreInit_cases (mallocs : InitMallocs) :
    mallocs.Deliver ∧ kvStoreInit mallocs = .ok (.ok (.initial none)) ∨
      ¬ mallocs.Deliver ∧ ((∃ ret, ret ≠ 0 ∧ kvStoreInit mallocs = .ok (.error ret)) ∨
        kvStoreInit mallocs = .error .nullPointer ∧ mallocs.bits = false) := by
  obtain ⟨stor, blockAllocator, bits, blockArray, directory, appendPoint⟩ := mallocs
  have code : (-ENOMEM : Int) ≠ 0 := by decide
  cases stor with
  | false => exact .inr ⟨by simp [InitMallocs.Deliver], .inl ⟨-ENOMEM, code, rfl⟩⟩
  | true =>
    cases blockAllocator with
    | false => exact .inr ⟨by simp [InitMallocs.Deliver], .inl ⟨-ENOMEM, code, rfl⟩⟩
    | true =>
      cases bits with
      -- The result of this allocation is used unchecked.
      | false => exact .inr ⟨by simp [InitMallocs.Deliver], .inr ⟨rfl, rfl⟩⟩
      | true =>
        cases blockArray with
        | false => exact .inr ⟨by simp [InitMallocs.Deliver], .inl ⟨-ENOMEM, code, rfl⟩⟩
        | true =>
          cases directory with
          | false => exact .inr ⟨by simp [InitMallocs.Deliver], .inl ⟨-ENOMEM, code, rfl⟩⟩
          | true =>
            cases appendPoint with
            | false => exact .inr ⟨by simp [InitMallocs.Deliver], .inl ⟨-ENOMEM, code, rfl⟩⟩
            | true => exact .inl ⟨rfl, rfl⟩

/-! ## `kv_open` -/

theorem openStore_apply (create : Bool) (argc : Nat) (env : OpenEnv) (m : Machine) :
    openStore create argc env m =
      match kvOpen create argc env m with
      | .ok ret next => .ok ⟨ret, none⟩ { next with opened := decide (ret = 0) }
      | .error fault next => .error fault next := by
  simp only [openStore, bind_apply]
  cases kvOpen create argc env m <;> rfl

/-- The part of `kv_open` before replay. -/
theorem kvOpen_apply (create : Bool) (argc : Nat) (env : OpenEnv) (m : Machine) :
    kvOpen create argc env m =
      if argc < 2 then .ok (-EINVAL) m
      else match kvStoreInit env.mallocs with
        | .error fault => .error fault m
        | .ok (.error ret) => .ok ret m
        | .ok (.ok stor) =>
          match env.open with
          | .failed errno =>
            .ok errno.code { m with stor := { stor with
              blockArray := { stor.blockArray with fd := none } } }
          | .opened fd =>
            let stor := { stor with blockArray := { stor.blockArray with fd := some fd } }
            if create then .ok 0 { m with file := [], stor := stor }
            else match kvStoreReplayLog env m.file stor with
              | .error fault => .error fault { m with stor := stor }
              | .ok (ret, replayed) => .ok ret { m with stor := replayed } := by
  rw [kvOpen]
  by_cases few : argc < 2
  · simp only [if_pos few, pure_apply]
  · simp only [if_neg few]
    cases delivered : kvStoreInit env.mallocs with
    | error fault => simp
    | ok made =>
      cases made with
      | error ret => simp
      | ok stor =>
        cases result : env.open with
        | failed errno => simp [KvBlockArray.open, errno.code_ne_zero]
        | opened fd =>
          cases create with
          | true => simp [KvBlockArray.open]
          | false =>
            simp only [KvBlockArray.open, onFile_set, setStor_apply, bind_apply, getFile_apply,
              pure_apply, lift_ok, ne_eq, not_true_eq_false, Bool.false_eq_true, if_false]
            cases kvStoreReplayLog env m.file
              { stor with blockArray := { stor.blockArray with fd := some fd } } <;> rfl

/-- A new store has an empty file and nothing in memory. -/
theorem created_iff {m : Machine} : Created m ↔ ∃ fd, m = .fresh fd := by
  constructor
  · rintro ⟨argc, env, before, opened⟩
    rw [openStore_apply, kvOpen_apply] at opened
    by_cases few : argc < 2
    · rw [if_pos few] at opened
      cases opened
    · rw [if_neg few] at opened
      rcases kvStoreInit_cases env.mallocs with
        ⟨_, made⟩ | ⟨_, ⟨ret, failed, made⟩ | ⟨made, _⟩⟩
      · rw [made] at opened
        cases result : env.open with
        | failed errno =>
          simp only [result, EStateM.Result.ok.injEq, Response.mk.injEq] at opened
          exact absurd opened.1.1 errno.code_ne_zero
        | opened fd =>
          simp only [result, if_true, EStateM.Result.ok.injEq] at opened
          exact ⟨fd, opened.2.symm⟩
      · simp only [made, EStateM.Result.ok.injEq, Response.mk.injEq] at opened
        exact absurd opened.1.1 failed
      · rw [made] at opened
        cases opened
  · rintro ⟨fd, rfl⟩
    refine ⟨2, ⟨⟨true, true, true, true, true, true⟩, .opened fd, .ok (), fun _ => .full,
      fun _ => .inserted⟩, ⟨[], .initial none, false⟩, ?_⟩
    rw [openStore_apply, kvOpen_apply]
    rfl

/-! ## The start of a scan -/

theorem owns_initial (fd : Option Nat) :
    Owns (KvStor.initial fd).directory (KvStor.initial fd).blockAllocator where
  size := rfl
  owned := by
    intro b
    simp [KvStor.initial, KvBlockAllocator.allocated_empty, KvDirectory.findEntryForKey]
  injective := by
    intro key key' entry entry' found
    simp [KvStor.initial, KvDirectory.findEntryForKey] at found

theorem sound_initial (fd : Nat) : Sound (KvStor.initial (some fd)) where
  opened := by simp [KvStor.initial]
  raw := rfl
  owns := owns_initial _
  inRange := .inl (Nat.zero_le _)

theorem index_initial (fd : Option Nat) : (KvStor.initial fd).directory.index = fun _ => none := by
  funext key
  simp [KvDirectory.index, KvStor.initial, KvDirectory.findEntryForKey]

theorem replayed_initial (file : Bytes) (fd : Nat) :
    Replayed file 0 (.initial (some fd)) where
  sound := sound_initial fd
  indexes := by
    rw [index_initial, below_zero]
    exact Indexes.empty
  holds := by
    intro key entry found
    simp [KvStor.initial, KvDirectory.findEntryForKey] at found
  follows := .inl ⟨fun b => by simp, rfl⟩
  counted := by
    intro _ b key seq scanned
    simp at scanned
  bounded := fun bound _ => Nat.zero_le bound

/-! ## `kv_close`, then `kv_open` -/

/-- The blocks that replay looks at: the count is a `uint32_t`. -/
def replayedBlocks (file : Bytes) : Nat := blockCount file % 2 ^ 32

/-- `kv_open` gets as far as replay. -/
structure Starts (argc : Nat) (env : OpenEnv) : Prop where
  argc : 2 ≤ argc
  mallocs : env.mallocs.Deliver
  opened : ∃ fd, env.open = .opened fd
  seekEnd : env.seekEnd = .ok ()

inductive ReopenOutcome (m : Machine) (argc : Nat) (env : OpenEnv) :
    EStateM.Result Fault Machine Response → Prop where
  | refused {ret : Int} {next : Machine} : ¬ Starts argc env → ret ≠ 0 → next.file = m.file →
    next.opened = false →
    (Owns m.stor.directory m.stor.blockAllocator →
      Owns next.stor.directory next.stor.blockAllocator) →
    ReopenOutcome m argc env (.ok ⟨ret, none⟩ next)
  | crashed {next : Machine} : ¬ Starts argc env → env.mallocs.bits = false →
    ReopenOutcome m argc env (.error .nullPointer next)
  | returned {ret : Int} {stor : KvStor} : Starts argc env →
    ReplayOutcome env m.file (replayedBlocks m.file) (.ok (ret, stor)) →
    ReopenOutcome m argc env (.ok ⟨ret, none⟩ ⟨m.file, stor, decide (ret = 0)⟩)
  | faulted {fault : Fault} {next : Machine} : Starts argc env →
    ReplayOutcome env m.file (replayedBlocks m.file) (.error fault) →
    ReopenOutcome m argc env (.error fault next)

/-- Once the file is open, `kv_open` is replay. -/
theorem openStore_replays {argc fd : Nat} {env : OpenEnv} (enough : ¬ argc < 2)
    (made : kvStoreInit env.mallocs = .ok (.ok (.initial none)))
    (opened : env.open = .opened fd) (m : Machine) :
    openStore false argc env m =
      match kvStoreReplayLog env m.file (.initial (some fd)) with
      | .error fault => .error fault { m with stor := .initial (some fd) }
      | .ok (ret, stor) => .ok ⟨ret, none⟩ ⟨m.file, stor, decide (ret = 0)⟩ := by
  rw [openStore_apply, kvOpen_apply, if_neg enough, made, opened]
  show (match (match kvStoreReplayLog env m.file (.initial (some fd)) with
    | .error fault => EStateM.Result.error fault _
    | .ok (ret, stor) => EStateM.Result.ok ret _ : EStateM.Result Fault Machine Int) with
    | .ok ret next => EStateM.Result.ok _ _
    | .error fault next => EStateM.Result.error _ _) = _
  cases kvStoreReplayLog env m.file (.initial (some fd)) <;> rfl

theorem kvStoreReplayLog_initial (env : OpenEnv) (file : Bytes) (fd : Nat) :
    kvStoreReplayLog env file (.initial (some fd)) =
      match env.seekEnd with
      | .error errno => .ok (errno.code, .initial (some fd))
      | .ok () => replayFrom env file (replayedBlocks file) 0 (.initial (some fd)) := by
  cases seek : env.seekEnd <;>
    simp [kvStoreReplayLog, KvBlockArray.getFileBlockCount, KvStor.initial, seek,
      replayedBlocks, blockCount]

/-- The machine after `kv_close`. -/
def Machine.closed (m : Machine) : Machine :=
  { m with
    stor := { m.stor with blockArray := { m.stor.blockArray with fd := none } }
    opened := false }

theorem exec_reopen_closed (m : Machine) (argc : Nat) (env : OpenEnv) :
    exec m (.reopen argc env) = openStore false argc env m.closed := by
  simp only [exec, perform, bind_apply, kvClose, Machine.closed]

theorem exec_reopen (m : Machine) (argc : Nat) (env : OpenEnv) :
    ReopenOutcome m argc env (exec m (.reopen argc env)) := by
  rw [exec_reopen_closed]
  by_cases few : argc < 2
  · rw [openStore_apply, kvOpen_apply, if_pos few]
    exact .refused (fun starts => absurd starts.argc (by omega)) (by decide) rfl rfl id
  · rcases kvStoreInit_cases env.mallocs with
      ⟨deliver, made⟩ | ⟨fails, ⟨ret, failed, made⟩ | ⟨made, bits⟩⟩
    · cases opened : env.open with
      | failed errno =>
        rw [openStore_apply, kvOpen_apply, if_neg few, made, opened]
        refine .refused ?_ errno.code_ne_zero rfl ?_ (fun _ => owns_initial none)
        · rintro ⟨_, _, ⟨fd, impossible⟩, _⟩
          rw [opened] at impossible
          cases impossible
        · exact decide_eq_false errno.code_ne_zero
      | opened fd =>
        rw [openStore_replays few made opened, kvStoreReplayLog_initial]
        cases seek : env.seekEnd with
        | error errno =>
          refine .refused ?_ errno.code_ne_zero rfl ?_ (fun _ => owns_initial _)
          · rintro ⟨_, _, _, impossible⟩
            rw [seek] at impossible
            cases impossible
          · exact decide_eq_false errno.code_ne_zero
        | ok _ =>
          -- Replay starts from the initial store, whatever the machine held before.
          have starts : Starts argc env := ⟨by omega, deliver, ⟨fd, opened⟩, seek⟩
          have below : replayedBlocks m.file ≤ blockCount m.file := Nat.mod_le _ _
          have small : replayedBlocks m.file ≤ 2 ^ 32 :=
            Nat.le_of_lt (Nat.mod_lt _ (by decide))
          have outcome := @replayFrom_outcome env _ _ _ _ _ (replayed_initial m.file fd)
            (fun b impossible => absurd impossible (Nat.not_lt_zero b)) (Nat.zero_add _)
            below small
          simp only [Machine.closed]
          generalize replayFrom env m.file (replayedBlocks m.file) 0 (.initial (some fd)) = result
            at outcome
          cases result with
          | error fault => exact .faulted starts outcome
          | ok scanned => exact .returned starts outcome
    · rw [openStore_apply, kvOpen_apply, if_neg few, made]
      exact .refused (fun starts => fails starts.mallocs) failed rfl (decide_eq_false failed) id
    · rw [openStore_apply, kvOpen_apply, if_neg few, made]
      exact .crashed (fun starts => fails starts.mallocs) bits

/-- A store that was opened has replayed all of its file. -/
theorem reopen_returned {m opened : Machine} {argc : Nat} {env : OpenEnv}
    (returned : exec m (.reopen argc env) = .ok ⟨0, none⟩ opened) :
    opened.file = m.file ∧ Replayed m.file (replayedBlocks m.file) opened.stor := by
  have outcome := exec_reopen m argc env
  rw [returned] at outcome
  cases outcome with
  | refused _ failed _ _ _ => exact absurd rfl failed
  | returned _ replay =>
    cases replay with
    | finished _ replayed => exact ⟨rfl, replayed⟩
    | gaveUp _ _ _ _ failed _ => exact absurd rfl failed

/-- Replay that starts comes back with 0 exactly when every block passes. -/
theorem reopen_returns_iff {m : Machine} {argc : Nat} {env : OpenEnv} (starts : Starts argc env) :
    (∃ opened, exec m (.reopen argc env) = .ok ⟨0, none⟩ opened) ↔
      ∀ b, b < replayedBlocks m.file → Passes env m.file b := by
  have outcome := exec_reopen m argc env
  generalize exec m (.reopen argc env) = result at outcome
  cases outcome with
  | refused notStarted _ _ _ _ => exact absurd starts notStarted
  | crashed notStarted _ => exact absurd starts notStarted
  | returned _ replay =>
    cases replay with
    | finished passed _ => exact iff_of_true ⟨_, rfl⟩ passed
    | gaveUp inside _ stops _ failed _ =>
      refine iff_of_false ?_ (fun passed => stops (passed _ inside))
      rintro ⟨_, ⟨⟩⟩
      exact failed rfl
  | faulted _ replay =>
    refine iff_of_false ?_ ?_
    · rintro ⟨_, ⟨⟩⟩
    · intro passed
      cases replay with
      | crashed inside _ stops _ _ => exact stops (passed _ inside)
      | tripped inside _ trips => exact (passed _ inside).not_trips trips

end KeyValueStore
