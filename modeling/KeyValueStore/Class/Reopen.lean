import KeyValueStore.Class.Scan

/-! # Opening the class store

`created_iff` says what a new store is, `Scanned` what one is that was opened on a file,
and `reopen_returns_iff` when a file can be opened, if nothing else fails: when the scan
meets no version that is the newest of its key once more. -/

namespace KeyValueStore.KvStore

open Runs VersionLog

/-- What the constructor makes, once the file is open. -/
def initial (fd : Option Nat) : KvStor where
  blockArray := ⟨sizeofKvBlock, fd⟩
  directory := ⟨∅⟩
  blockAllocator := .empty capacity
  appendPoint := ⟨0, 0⟩
  currentSequenceNumber := 0

/-- A store that has just been created. -/
def fresh (fd : Nat) : Machine := ⟨[], initial (some fd), true⟩

/-- The store is made. -/
structure Made (port : Port) (env : OpenEnv) : Prop where
  mallocs : env.mallocs.Deliver
  arrayRet : port = .c → env.arrayRet = 0

theorem init_cases (port : Port) (env : OpenEnv) :
    Made port env ∧ init port env = .ok (.ok (initial none)) ∨
      ¬ Made port env ∧ ((∃ ret, ret ≠ 0 ∧ init port env = .ok (.error ret)) ∨
        init port env = .error .nullPointer) := by
  obtain ⟨⟨⟨stor, blockAllocator, bits, blockArray, directory, appendPoint⟩, _, _, _, _⟩, arrayRet⟩ :=
    env
  have code : (-ENOMEM : Int) ≠ 0 := by decide
  cases port with
  | cpp =>
    by_cases deliver : stor ∧ blockAllocator ∧ bits ∧ blockArray ∧ directory ∧ appendPoint
    · obtain ⟨rfl, rfl, rfl, rfl, rfl, rfl⟩ := deliver
      exact .inl ⟨⟨rfl, by rintro ⟨⟩⟩, rfl⟩
    · refine .inr ⟨?_, .inr (if_neg deliver)⟩
      rintro ⟨all, _⟩
      cases all
      exact deliver ⟨rfl, rfl, rfl, rfl, rfl, rfl⟩
  | c =>
    have unmade : ¬ InitMallocs.Deliver ⟨stor, blockAllocator, bits, blockArray, directory,
        appendPoint⟩ → ∀ rest, ¬ Made .c ⟨⟨⟨stor, blockAllocator, bits, blockArray, directory,
          appendPoint⟩, rest, ‹_›, ‹_›, ‹_›⟩, arrayRet⟩ :=
      fun fails _ made => fails made.mallocs
    cases stor with
    | false => exact .inr ⟨unmade (by simp [InitMallocs.Deliver]) _, .inl ⟨_, code, rfl⟩⟩
    | true =>
      cases blockAllocator with
      | false => exact .inr ⟨unmade (by simp [InitMallocs.Deliver]) _, .inl ⟨_, code, rfl⟩⟩
      | true =>
        cases bits with
        -- The result of this allocation is used unchecked.
        | false => exact .inr ⟨unmade (by simp [InitMallocs.Deliver]) _, .inr rfl⟩
        | true =>
          cases blockArray with
          | false => exact .inr ⟨unmade (by simp [InitMallocs.Deliver]) _, .inl ⟨_, code, rfl⟩⟩
          | true =>
            by_cases garbage : arrayRet = 0
            · subst garbage
              cases directory with
              | false => exact .inr ⟨unmade (by simp [InitMallocs.Deliver]) _, .inl ⟨_, code, rfl⟩⟩
              | true =>
                cases appendPoint with
                | false =>
                  exact .inr ⟨unmade (by simp [InitMallocs.Deliver]) _, .inl ⟨_, code, rfl⟩⟩
                | true => exact .inl ⟨⟨rfl, fun _ => rfl⟩, rfl⟩
            · refine .inr ⟨fun made => garbage (made.arrayRet rfl), .inl ⟨arrayRet, garbage, ?_⟩⟩
              simp [init, KvBlockAllocator.init, KvBlockArray.init, garbage, bind, Except.bind,
                pure, Except.pure]

theorem openStore_apply (port : Port) (create : Bool) (argc : Nat) (env : OpenEnv) (m : Machine) :
    openStore port create argc env m =
      match KvStore.open port create argc env m with
      | .ok ret next => .ok ⟨ret, none⟩ { next with opened := decide (ret = 0) }
      | .error fault next => .error fault next := by
  simp only [openStore, bind_apply]
  cases KvStore.open port create argc env m <;> rfl

/-- `open`, up to the scan. -/
theorem open_apply (port : Port) (create : Bool) (argc : Nat) (env : OpenEnv) (m : Machine) :
    KvStore.open port create argc env m =
      if port = .c ∧ argc < 2 then .ok (-EINVAL) m
      else match init port env with
        | .error fault => .error fault m
        | .ok (.error ret) => .ok ret m
        | .ok (.ok stor) =>
          match env.open with
          | .failed errno =>
            .ok errno.code { m with stor := { stor with
              blockArray := { stor.blockArray with fd := none } } }
          | .opened fd =>
            let stor := { stor with blockArray := { stor.blockArray with fd := some fd } }
            if create then .ok 0 { m with file := [], stor := stor }
            else match scan env m.file stor with
              | .error fault => .error fault { m with stor := stor }
              | .ok (ret, scanned) => .ok ret { m with stor := scanned } := by
  rw [KvStore.open]
  by_cases few : port = .c ∧ argc < 2
  · simp only [if_pos few, pure_apply]
  · simp only [if_neg few]
    cases delivered : init port env with
    | error fault => simp
    | ok made =>
      cases made with
      | error ret => simp
      | ok stor =>
        cases result : env.open with
        | failed errno => simp [KvBlockArray.open, errno.code_ne_zero]
        | opened fd =>
          cases create with
          | true => simp [KvBlockArray.open]
          | false =>
            simp only [KvBlockArray.open, onFile_set, setStor_apply, bind_apply, getFile_apply,
              lift_ok, ne_eq, not_true_eq_false, Bool.false_eq_true, not_false_eq_true, if_false,
              if_true]
            cases scan env m.file
              { stor with blockArray := { stor.blockArray with fd := some fd } } <;> rfl

/-- A new store has an empty file and nothing in memory. -/
theorem created_iff {port : Port} {m : Machine} : Created port m ↔ ∃ fd, m = fresh fd := by
  constructor
  · rintro ⟨argc, env, before, opened⟩
    rw [openStore_apply, open_apply] at opened
    by_cases few : port = .c ∧ argc < 2
    · rw [if_pos few] at opened
      cases opened
    · rw [if_neg few] at opened
      rcases init_cases port env with ⟨_, made⟩ | ⟨_, ⟨ret, failed, made⟩ | made⟩
      · rw [made] at opened
        cases result : env.open with
        | failed errno =>
          simp only [result, EStateM.Result.ok.injEq, Response.mk.injEq] at opened
          exact absurd opened.1.1 errno.code_ne_zero
        | opened fd =>
          simp only [result, if_true, EStateM.Result.ok.injEq] at opened
          exact ⟨fd, opened.2.symm⟩
      · simp only [made, EStateM.Result.ok.injEq, Response.mk.injEq] at opened
        exact absurd opened.1.1 failed
      · rw [made] at opened
        cases opened
  · rintro ⟨fd, rfl⟩
    refine ⟨2, { OpenEnv.quiet with «open» := .opened fd }, ⟨[], initial none, false⟩, ?_⟩
    rw [openStore_apply, open_apply]
    cases port <;> rfl

/-! ## `close`, then `open` -/

/-- `open` gets as far as the scan. -/
structure Starts (port : Port) (argc : Nat) (env : OpenEnv) : Prop where
  argc : port = .c → 2 ≤ argc
  made : Made port env
  opened : ∃ fd, env.open = .opened fd
  seekEnd : env.seekEnd = .ok ()

inductive ReopenOutcome (port : Port) (m : Machine) (argc : Nat) (env : OpenEnv) :
    EStateM.Result Fault Machine Response → Prop where
  | refused {ret : Int} {next : Machine} : ¬ Starts port argc env → ret ≠ 0 → next.file = m.file →
    next.opened = false → ReopenOutcome port m argc env (.ok ⟨ret, none⟩ next)
  | crashed {next : Machine} : ¬ Starts port argc env → next.file = m.file →
    ReopenOutcome port m argc env (.error .nullPointer next)
  | returned {fd : Nat} {ret : Int} {stor : KvStor} : Starts port argc env →
    scanFrom env m.file (replayedBlocks m.file) 0 (initial (some fd)) = .ok (ret, stor) →
    ReopenOutcome port m argc env (.ok ⟨ret, none⟩ ⟨m.file, stor, decide (ret = 0)⟩)
  | faulted {fd : Nat} {fault : Fault} {next : Machine} : Starts port argc env →
    next.file = m.file →
    scanFrom env m.file (replayedBlocks m.file) 0 (initial (some fd)) = .error fault →
    ReopenOutcome port m argc env (.error fault next)

theorem scan_initial (env : OpenEnv) (file : Bytes) (fd : Nat) :
    scan env file (initial (some fd)) =
      match env.seekEnd with
      | .error errno => .ok (errno.code, initial (some fd))
      | .ok () => scanFrom env file (replayedBlocks file) 0 (initial (some fd)) := by
  cases seek : env.seekEnd <;>
    simp [scan, KvBlockArray.getFileBlockCount, initial, seek, replayedBlocks, blockCount]

theorem exec_reopen (port : Port) (m : Machine) (argc : Nat) (env : OpenEnv) :
    ReopenOutcome port m argc env (exec port m (.reopen argc env)) := by
  have closed : exec port m (.reopen argc env) = openStore port false argc env m.closed := by
    simp only [exec, perform, bind_apply, kvClose, Machine.closed]
  rw [closed, openStore_apply, open_apply]
  by_cases few : port = .c ∧ argc < 2
  · rw [if_pos few]
    refine .refused (fun starts => ?_) (by decide) rfl rfl
    have enough := starts.argc few.1
    omega
  · rw [if_neg few]
    rcases init_cases port env with ⟨made, init⟩ | ⟨unmade, ⟨ret, failed, init⟩ | init⟩
    · rw [init]
      cases opened : env.open with
      | failed errno =>
        refine .refused ?_ errno.code_ne_zero rfl (decide_eq_false errno.code_ne_zero)
        rintro ⟨_, _, ⟨fd, impossible⟩, _⟩
        rw [opened] at impossible
        cases impossible
      | opened fd =>
        have start : ({ initial none with blockArray :=
            { (initial none).blockArray with fd := some fd } } : KvStor) = initial (some fd) := rfl
        simp only [start, scan_initial, Bool.false_eq_true, if_false]
        cases seek : env.seekEnd with
        | error errno =>
          refine .refused ?_ errno.code_ne_zero rfl (decide_eq_false errno.code_ne_zero)
          rintro ⟨_, _, _, impossible⟩
          rw [seek] at impossible
          cases impossible
        | ok _ =>
          have starts : Starts port argc env := by
            refine ⟨fun c => ?_, made, ⟨fd, opened⟩, seek⟩
            by_contra small
            exact few ⟨c, by omega⟩
          show ReopenOutcome port m argc env
            (match (match scanFrom env m.file (replayedBlocks m.file) 0 (initial (some fd)) with
              | .error fault => EStateM.Result.error fault _
              | .ok (ret, scanned) => EStateM.Result.ok ret _ :
                EStateM.Result Fault Machine Int) with
            | .ok ret next => EStateM.Result.ok _ _
            | .error fault next => EStateM.Result.error _ _)
          cases scanned : scanFrom env m.file (replayedBlocks m.file) 0 (initial (some fd)) with
          | error fault => exact .faulted starts rfl scanned
          | ok result => exact .returned starts scanned
    · rw [init]
      exact .refused (fun starts => unmade starts.made) failed rfl (decide_eq_false failed)
    · rw [init]
      exact .crashed (fun starts => unmade starts.made) rfl

/-! ## The scan of a whole file -/

/-- A store that was opened on `file`. -/
structure Scanned (file : Bytes) (stor : KvStor) : Prop where
  opened : stor.blockArray.fd ≠ none
  raw : stor.blockArray.rawBlockBytes = sizeofKvBlock
  size : stor.blockAllocator.numberOfBlocks = capacity
  indexes : Indexes stor.directory.index (fileLog file)
  holds : ∀ {key entry}, stor.directory.findEntryForKey key = some entry →
    ∃ block, validBlock file entry.dataBlock = some block ∧ HoldsEntry block entry
  follows : stor.appendPoint.Follows (fileLog file)
  marked : ∀ b, b ∈ stor.blockAllocator.allocated ↔ ∃ key entry,
    stor.directory.findEntryForKey key = some entry ∧ entry.dataBytes ≠ 0 ∧ entry.dataBlock = b
  counter : stor.currentSequenceNumber = 0

theorem mirrors_initial (fd : Option Nat) : Mirrors (.initial fd) (initial fd) where
  blockArray := rfl
  directory := rfl
  appendPoint := rfl
  size := rfl
  marked := by
    intro b
    simp [initial, KvBlockAllocator.allocated_empty, KvDirectory.findEntryForKey]
  counter := rfl

theorem Mirrors.scanned {file : Bytes} {replayed stor : KvStor} (mirrors : Mirrors replayed stor)
    (state : Replayed file (blockCount file) replayed) : Scanned file stor := by
  have indexes := state.indexes
  have follows := state.follows
  rw [below_blockCount] at indexes follows
  exact ⟨mirrors.blockArray ▸ state.sound.opened, mirrors.blockArray ▸ state.sound.raw,
    mirrors.size, mirrors.directory ▸ indexes, mirrors.directory ▸ state.holds,
    mirrors.appendPoint ▸ follows, mirrors.marked, mirrors.counter⟩

section Reopen

variable {port : Port} {m opened : Machine} {argc : Nat} {env : OpenEnv}

theorem capacity_le : capacity ≤ KeyValueStore.capacity := by
  rw [capacity, KeyValueStore.capacity]
  omega

/-- How the scan of a whole file can end. -/
inductive ScanOutcome (env : OpenEnv) (file : Bytes) : Except Fault (Int × KvStor) → Prop where
  | finished {stor : KvStor} : (∀ b, b < blockCount file → Passes env.toOpenEnv file b) →
    Scanned file stor → ScanOutcome env file (.ok (0, stor))
  | gaveUp {b : Nat} {ret : Int} {stor : KvStor} : ¬ Passes env.toOpenEnv file b →
    ¬ Trips env.toOpenEnv file b → ret ≠ 0 → ScanOutcome env file (.ok (ret, stor))
  | crashed {b : Nat} : env.insert b = .mallocNull → ScanOutcome env file (.error .nullPointer)
  | tripped {b : Nat} {which : Assertion} : b < blockCount file → Trips env.toOpenEnv file b →
    ScanOutcome env file (.error (.assertion which))

/-- The scan of a file ends as the replay of it does. -/
theorem scanFrom_outcome {file : Bytes} (count : blockCount file ≤ capacity) (fd : Nat) :
    ScanOutcome env file (scanFrom env file (replayedBlocks file) 0 (initial (some fd))) := by
  have small : blockCount file ≤ 2 ^ 32 := by
    rw [capacity_eq] at count
    omega
  have mirrored := @scanFrom_mirrors env file (blockCount file) 0 _ _ (mirrors_initial (some fd))
    (replayed_initial file fd) (by omega) count
  have replayed : ReplayOutcome env.toOpenEnv file (blockCount file)
      (replayFrom env.toOpenEnv file (blockCount file) 0 (.initial (some fd))) :=
    replayFrom_outcome (replayed_initial file fd)
      (fun b impossible => absurd impossible (Nat.not_lt_zero b)) (Nat.zero_add _) (Nat.le_refl _)
      small
  rw [replayedBlocks_eq (Nat.le_trans count capacity_le)]
  generalize replayFrom env.toOpenEnv file (blockCount file) 0 (.initial (some fd)) = result
    at mirrored replayed
  generalize scanFrom env file (blockCount file) 0 (initial (some fd)) = result' at mirrored
  cases mirrored with
  | failed =>
    cases replayed with
    | crashed _ _ _ _ insert => exact .crashed insert
    | tripped inside _ trips => exact .tripped inside trips
  | returned mirrors =>
    cases replayed with
    | finished passed state => exact .finished passed ((mirrors rfl).scanned state)
    | gaveUp _ _ stops notTrips failed _ => exact .gaveUp stops notTrips failed

/-- A store that was opened has scanned all of its file. -/
theorem reopen_returned (count : blockCount m.file ≤ capacity)
    (returned : exec port m (.reopen argc env) = .ok ⟨0, none⟩ opened) :
    opened.file = m.file ∧ opened.opened = true ∧ Scanned m.file opened.stor := by
  have outcome := exec_reopen port m argc env
  rw [returned] at outcome
  cases outcome with
  | refused _ failed _ _ => exact absurd rfl failed
  | @returned fd _ stor _ ended =>
    have scan := @scanFrom_outcome env m.file count fd
    rw [ended] at scan
    cases scan with
    | finished _ scanned => exact ⟨rfl, rfl, scanned⟩
    | gaveUp _ _ failed => exact absurd rfl failed

/-- Nothing but an assertion can come between a file and its store. -/
structure OpenEnv.Succeeds (port : Port) (argc : Nat) (env : OpenEnv) : Prop where
  starts : Starts port argc env
  read : ∀ b, env.read b = .full
  insert : ∀ b, env.insert b = .inserted

theorem OpenEnv.quiet_succeeds (port : Port) : OpenEnv.quiet.Succeeds port 2 :=
  ⟨⟨fun _ => Nat.le_refl 2, ⟨rfl, fun _ => rfl⟩, ⟨3, rfl⟩, rfl⟩, fun _ => rfl, fun _ => rfl⟩

theorem reopen_returns_iff (count : blockCount m.file ≤ capacity) (succeeds : env.Succeeds port argc) :
    ((∃ opened, exec port m (.reopen argc env) = .ok ⟨0, none⟩ opened) ↔
      NoRepeats (fileLog m.file)) ∧
    (¬ NoRepeats (fileLog m.file) →
      ∃ which next, exec port m (.reopen argc env) = .error (.assertion which) next) := by
  have succeeds' : env.toOpenEnv.Succeeds :=
    ⟨succeeds.starts.made.mallocs, succeeds.starts.opened, succeeds.starts.seekEnd, succeeds.read,
      succeeds.insert⟩
  have passes := fun b => @OpenEnv.Succeeds.passes_iff m.file env.toOpenEnv b succeeds'
    (Nat.le_trans count capacity_le)
  have noRepeats : NoRepeats (fileLog m.file) ↔ ∀ b, b < blockCount m.file →
      Passes env.toOpenEnv m.file b := by
    constructor
    · intro once b _
      exact (passes b).mpr (once b)
    · intro passed b key seq stored
      exact (passes b).mp (passed b (fileLog_lt stored)) key seq stored
  have outcome := exec_reopen port m argc env
  rw [noRepeats]
  generalize exec port m (.reopen argc env) = result at outcome
  cases outcome with
  | refused unstarted _ _ _ => exact absurd succeeds.starts unstarted
  | crashed unstarted _ => exact absurd succeeds.starts unstarted
  | @returned fd ret stor _ ended =>
    have scan := @scanFrom_outcome env m.file count fd
    rw [ended] at scan
    cases scan with
    | finished passed _ =>
      exact ⟨iff_of_true ⟨_, rfl⟩ passed, fun impossible => absurd passed impossible⟩
    | gaveUp stops notTrips _ =>
      -- With nothing else in the way a block that does not pass repeats a version.
      rw [passes] at stops
      push Not at stops
      obtain ⟨key, seq, stored, repeats⟩ := stops
      exact absurd ⟨by rw [succeeds.read]; trivial, key, seq, stored, .inl repeats⟩ notTrips
  | @faulted fd fault next _ _ ended =>
    have scan := @scanFrom_outcome env m.file count fd
    rw [ended] at scan
    cases scan with
    | crashed insert =>
      rw [succeeds.insert] at insert
      cases insert
    | tripped inside trips =>
      refine ⟨iff_of_false ?_ ?_, fun _ => ⟨_, _, rfl⟩⟩
      · rintro ⟨_, ⟨⟩⟩
      · intro passed
        exact (passed _ inside).not_trips trips

/-- In a file without repeats no assertion fails, whatever else does. -/
theorem reopen_no_assertion (count : blockCount m.file ≤ capacity)
    (noRepeats : NoRepeats (fileLog m.file)) (which : Assertion) (next : Machine) :
    exec port m (.reopen argc env) ≠ .error (.assertion which) next := by
  intro ended
  have outcome := exec_reopen port m argc env
  rw [ended] at outcome
  cases outcome with
  | @faulted fd _ _ _ _ ended =>
    have scan := @scanFrom_outcome env m.file count fd
    rw [ended] at scan
    cases scan with
    | tripped inside trips =>
      obtain ⟨_, key, seq, stored, repeats | ⟨_, beyond, _⟩⟩ := trips
      · exact noRepeats _ key seq stored repeats
      · have small := capacity_le
        omega

/-- Opening a file does not write to it, and an open store has scanned it. -/
theorem reopen_scanned (count : blockCount m.file ≤ capacity) {response : Response}
    (returned : exec port m (.reopen argc env) = .ok response opened) :
    opened.file = m.file ∧ (opened.opened = true → Scanned opened.file opened.stor) := by
  have outcome := exec_reopen port m argc env
  rw [returned] at outcome
  cases outcome with
  | refused _ _ file closed =>
    refine ⟨file, fun impossible => ?_⟩
    rw [closed] at impossible
    cases impossible
  | returned _ _ =>
    refine ⟨rfl, fun zero => ?_⟩
    obtain rfl := of_decide_eq_true zero
    exact (reopen_returned count returned).2.2

end Reopen

/-! ## Runs with opens in them -/

theorem steady_fresh (fd : Nat) : Steady (fresh fd) where
  usable := by
    refine ⟨by simp [fresh, initial], rfl, ⟨?_, ?_⟩, .inl (Nat.zero_le _)⟩
    · show capacity ≤ UINT32_MAX - 7
      rw [capacity_eq]
      decide
    · intro key entry found
      simp [fresh, initial, KvDirectory.findEntryForKey] at found
  size := rfl
  start_le := Nat.zero_le _
  marked_lt := by
    intro b marked
    simp [fresh, initial, KvBlockAllocator.allocated_empty] at marked
  count_le := by simp [fresh, blockCount]

theorem absent_fresh (fd : Nat) (key : UInt64) :
    (fresh fd).stor.directory.findEntryForKey key = none := rfl

theorem destination_fresh (fd : Nat) : (fresh fd).destination = some 0 := by
  refine (steady_fresh fd).destination_start ?_ ?_
  · show 0 < capacity
    rw [capacity_eq]
    decide
  · show 0 ∉ (KvBlockAllocator.empty capacity).allocated
    simp [KvBlockAllocator.allocated_empty]

theorem Scanned.steady {m : Machine} (scanned : Scanned m.file m.stor)
    (count : blockCount m.file ≤ capacity) : Steady m := by
  have inside : ∀ {key entry}, m.stor.directory.findEntryForKey key = some entry →
      entry.dataBlock < blockCount m.file := by
    intro key entry found
    obtain ⟨block, valid, _⟩ := scanned.holds found
    exact blockAt_isSome (validBlock_eq_some.mp valid).1
  have point : m.stor.appendPoint.currentAppendPoint ≤ blockCount m.file := by
    rcases scanned.follows with ⟨_, empty⟩ | ⟨⟨key, stored⟩, _⟩
    · rw [empty]
      exact Nat.zero_le _
    · exact Nat.le_of_lt (fileLog_lt stored)
  refine ⟨⟨scanned.opened, scanned.raw, ⟨?_, ?_⟩, .inl ?_⟩, scanned.size, ?_, ?_, count⟩
  · rw [KvBlockAllocator.Fits, scanned.size, capacity_eq]
    decide
  · intro key entry found
    have before := inside found
    rw [scanned.size]
    omega
  · rw [scanned.size]
    omega
  · rw [KvAppendPoint.start]
    split
    · exact Nat.zero_le _
    · exact point
  · intro b marked
    obtain ⟨key, entry, found, _, rfl⟩ := (scanned.marked b).mp marked
    exact inside found

/-- An open store is steady, and no file has more blocks than the bitmap. -/
structure Standing (m : Machine) : Prop where
  count_le : blockCount m.file ≤ capacity
  steady : m.opened = true → Steady m

theorem standing_fresh (fd : Nat) : Standing (fresh fd) :=
  ⟨(steady_fresh fd).count_le, fun _ => steady_fresh fd⟩

/-- An open store may be used in any way. -/
theorem legal_of_opened {m : Machine} (opened : m.opened = true) (call : Call) : Legal m call := by
  cases call with
  | set _ _ _ | del _ _ | get _ _ _ _ => exact opened
  | reopen _ _ => trivial

theorem Legal.opened {m : Machine} {call : Call} (legal : Legal m call)
    (inProcess : call.InProcess) : m.opened = true := by
  cases call with
  | set _ _ _ | del _ _ | get _ _ _ _ => exact legal
  | reopen _ _ => exact absurd inProcess id

theorem Standing.step {port : Port} {m next : Machine} (standing : Standing m) {call : Call}
    (legal : Legal m call) {response : Response}
    (returned : exec port m call = .ok response next) : Standing next := by
  by_cases inProcess : call.InProcess
  · have steady := (standing.steady (legal.opened inProcess)).step inProcess returned
    exact ⟨steady.count_le, fun _ => steady⟩
  · cases call with
    | set _ _ _ | del _ _ | get _ _ _ _ => exact absurd trivial inProcess
    | reopen argc env =>
      obtain ⟨file, scanned⟩ := reopen_scanned standing.count_le returned
      have count : blockCount next.file ≤ capacity := by
        rw [file]
        exact standing.count_le
      exact ⟨count, fun opened => (scanned opened).steady count⟩

/-! ## A key that is set before the file is opened again -/

/-- Key 1 was set in a new store, and then the file was opened again. -/
structure SetReopened (port : Port) (block : KvBlock) (m₁ m₂ : Machine) : Prop where
  set : exec port (fresh 3) (.set .quiet 1 (some .one)) = .ok ⟨0, none⟩ m₁
  stored : Stored (fresh 3) 1 .one 0 block m₁
  reopened : exec port m₁ (.reopen 2 .quiet) = .ok ⟨0, none⟩ m₂
  opened : m₂.opened = true
  file : m₂.file = m₁.file
  scanned : Scanned m₂.file m₂.stor
  steady : Steady m₂

theorem set_reopened (port : Port) : ∃ block m₁ m₂, SetReopened port block m₁ m₂ := by
  obtain ⟨block, m₁, set, stored, _⟩ :=
    exec_set_new port (steady_fresh 3) (destination_fresh 3) (absent_fresh 3 1)
  have distinct : DistinctVersions (fileLog m₁.file) := by
    have only : ∀ {b version}, fileLog m₁.file b = some version → b = 0 := by
      intro b version there
      obtain ⟨held, valid, _⟩ := fileLog_eq_some.mp there
      rcases stored.appended.held valid with ⟨here, _⟩ | ⟨_, old⟩
      · exact here
      · simp [fresh, validBlock] at old
    intro b b' version there there'
    rw [only there, only there']
  have count := stored.steady.count_le
  obtain ⟨m₂, reopened⟩ :=
    (reopen_returns_iff count (OpenEnv.quiet_succeeds port)).1.mpr distinct.noRepeats
  obtain ⟨file, opened, scanned⟩ := reopen_returned count reopened
  rw [← file] at scanned count
  exact ⟨block, m₁, m₂, set, stored, reopened, opened, file, scanned, scanned.steady count⟩

namespace SetReopened

variable {port : Port} {block : KvBlock} {m₁ m₂ : Machine}

theorem held (run : SetReopened port block m₁ m₂) : validBlock m₂.file 0 = some block := by
  rw [run.file, run.stored.appended.file, Function.update_self]

theorem only (run : SetReopened port block m₁ m₂) {b : Nat} {held : KvBlock}
    (valid : validBlock m₂.file b = some held) : b = 0 ∧ held = block := by
  rw [run.file] at valid
  rcases run.stored.appended.held valid with first | ⟨_, old⟩
  · exact first
  · simp [fresh, validBlock] at old

theorem room (run : SetReopened port block m₁ m₂) : ∃ d, m₂.destination = some d := by
  rw [← Option.ne_none_iff_exists', Ne, run.steady.destination_eq_none]
  have few : m₂.stor.blockAllocator.allocated ⊆ {0} := by
    intro b marked
    obtain ⟨key, entry, found, _, rfl⟩ := (run.scanned.marked b).mp marked
    obtain ⟨held, valid, _⟩ := run.scanned.holds found
    exact Finset.mem_singleton.mpr (run.only valid).1
  have card := Finset.card_le_card few
  rw [Finset.card_singleton] at card
  rw [capacity_eq]
  omega

/-- Key 1 is found with its value, and no other. -/
theorem live (run : SetReopened port block m₁ m₂) : m₂.stor.directory.Live 1 := by
  have stored : fileLog m₂.file 0 = some (1, block.header.sequence.toNat) :=
    run.stored.carries.keyId ▸ fileLog_of_valid run.held
  obtain ⟨⟨slot, seq⟩, index⟩ := run.scanned.indexes.complete stored
  obtain ⟨entry, found, _, _⟩ := KvDirectory.index_eq_some.mp index
  obtain ⟨held, valid, holds⟩ := run.scanned.holds found
  refine ⟨entry, found, ?_⟩
  rw [← holds.dataBytes, (run.only valid).2]
  exact one_valid.data run.stored.carries

theorem absent (run : SetReopened port block m₁ m₂) {key : UInt64} (other : key ≠ 1) :
    m₂.stor.directory.findEntryForKey key = none := by
  rw [← KvDirectory.index_eq_none, run.scanned.indexes.absent_iff]
  intro b seq stored
  obtain ⟨held, valid, version⟩ := fileLog_eq_some.mp stored
  rw [(run.only valid).2, KvBlock.version, run.stored.carries.keyId] at version
  exact other (Prod.mk.inj version).1.symm

/-- The deletion of key 1 in the store that has been opened again. -/
theorem deletes (run : SetReopened port block m₁ m₂) : ∃ d block' m₃,
    exec port m₂ (.del .quiet 1) = .ok ⟨0, none⟩ m₃ ∧ Deleted m₂ 1 d block' m₃ := by
  obtain ⟨d, found⟩ := run.room
  obtain ⟨block', m₃, del, deleted⟩ :=
    @exec_del_deleted m₂ d port run.steady .quiet 1 run.live rfl found rfl
  exact ⟨d, block', m₃, del, deleted⟩

end SetReopened

end KeyValueStore.KvStore
