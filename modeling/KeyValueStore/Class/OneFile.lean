import KeyValueStore.Class.Reopen
import KeyValueStore.Submission.AnyFile

/-! # One file

The stores have one format.  Whatever a file contains, and whatever the system does to its
reads, a program that opens it and reads from it gets the same from the store of `submission`
and from the class store in either text (`readers_agree`), as far as the bitmap of the class
store goes. -/

namespace KeyValueStore.KvStore

/-- What a program gets from a call. -/
def outcome {Result : Type} : EStateM.Result Fault Machine Result → Except Fault Result
  | .ok result _ => .ok result
  | .error fault _ => .error fault

structure Get where
  read : ReadResult
  key : UInt64
  v : Value

def Get.submission (get : Get) : StoreM Response :=
  KeyValueStore.perform (.get get.read get.key get.v)

def Get.class (port : Port) (get : Get) : StoreM Response :=
  KvStore.perform port (.get true get.read get.key get.v)

/-- A program that opens a store and reads from it, with all that it is told. -/
def reader (openStore : StoreM Response) (get : Get → StoreM Response) (gets : List Get) :
    StoreM (List Response) := do
  let opened ← openStore
  if opened.ret ≠ 0 then return [opened]
  return opened :: (← gets.mapM get)

/-- Two stores that read alike. -/
structure ReadsAlike (m m' : Machine) : Prop where
  file : m'.file = m.file
  blockArray : m'.stor.blockArray = m.stor.blockArray
  directory : m'.stor.directory = m.stor.directory

theorem ReadsAlike.get {m m' : Machine} (alike : ReadsAlike m m') (port : Port) (get : Get) :
    (∃ response, get.submission m = .ok response m ∧ get.class port m' = .ok response m') ∨
      ∃ fault, get.submission m = .error fault m ∧ get.class port m' = .error fault m' := by
  have class_ : get.class port m' = get.submission m' := exec_get port m' get.read get.key get.v
  have same : kvGet get.read m'.stor m'.file get.key get.v =
      kvGet get.read m.stor m.file get.key get.v := by
    simp only [kvGet, alike.file, alike.blockArray, alike.directory]
  rw [class_]
  simp only [Get.submission, KeyValueStore.perform, bind_apply, getStor_apply, getFile_apply, same]
  cases kvGet get.read m.stor m.file get.key get.v with
  | error fault => exact .inr ⟨fault, rfl, rfl⟩
  | ok got => exact .inl ⟨_, rfl, rfl⟩

theorem ReadsAlike.gets {m m' : Machine} (alike : ReadsAlike m m') (port : Port) (gets : List Get) :
    (∃ responses, gets.mapM Get.submission m = .ok responses m ∧
      gets.mapM (Get.class port) m' = .ok responses m') ∨
      ∃ fault, gets.mapM Get.submission m = .error fault m ∧
        gets.mapM (Get.class port) m' = .error fault m' := by
  induction gets with
  | nil => exact .inl ⟨[], rfl, rfl⟩
  | cons get gets ih =>
    simp only [List.mapM_cons, bind_apply]
    rcases alike.get port get with ⟨response, first, first'⟩ | ⟨fault, first, first'⟩
    · rw [first, first']
      dsimp only
      rcases ih with ⟨responses, rest, rest'⟩ | ⟨fault, rest, rest'⟩
      · rw [rest, rest']
        exact .inl ⟨response :: responses, rfl, rfl⟩
      · rw [rest, rest']
        exact .inr ⟨fault, rfl, rfl⟩
    · rw [first, first']
      exact .inr ⟨fault, rfl, rfl⟩

/-- Once the file is open, `open` is the scan. -/
theorem openStore_scans {port : Port} {argc fd : Nat} {env : OpenEnv} (enough : ¬ argc < 2)
    (made : init port env = .ok (.ok (initial none))) (opened : env.open = .opened fd) (m : Machine) :
    (∀ fault, scan env m.file (initial (some fd)) = .error fault →
      ∃ next, openStore port false argc env m = .error fault next) ∧
    ∀ ret stor, scan env m.file (initial (some fd)) = .ok (ret, stor) →
      openStore port false argc env m = .ok ⟨ret, none⟩ ⟨m.file, stor, decide (ret = 0)⟩ := by
  have start : ({ initial none with blockArray := { (initial none).blockArray with
      fd := some fd } } : KvStor) = initial (some fd) := rfl
  rw [openStore_apply, open_apply, if_neg fun refused => enough refused.2, made, opened]
  simp only [start, Bool.false_eq_true, if_false]
  constructor
  · intro fault scanned
    simp only [scanned]
    exact ⟨_, rfl⟩
  · intro ret stor scanned
    simp only [scanned]

/-- The replay and the scan of a file that the bitmaps of both cover. -/
theorem scan_endsAlike (env : OpenEnv) {file : Bytes} (few : blockCount file ≤ capacity) (fd : Nat) :
    EndsAlike (kvStoreReplayLog env.toOpenEnv file (.initial (some fd)))
      (scan env file (initial (some fd))) := by
  rw [kvStoreReplayLog_initial, scan_initial]
  cases env.seekEnd with
  | error errno => exact .returned fun zero => absurd zero errno.code_ne_zero
  | ok _ =>
    have inside : 0 + replayedBlocks file ≤ blockCount file := by
      rw [Nat.zero_add]
      exact Nat.mod_le _ _
    exact scanFrom_mirrors (mirrors_initial _) (replayed_initial file fd) inside few

theorem opens_alike {port : Port} {argc : Nat} {env : OpenEnv} (enough : 2 ≤ argc)
    (made : Made port env) {m m' : Machine} (same : m'.file = m.file)
    (few : blockCount m.file ≤ capacity) :
    (∃ ret next next', KeyValueStore.openStore false argc env.toOpenEnv m = .ok ⟨ret, none⟩ next ∧
      openStore port false argc env m' = .ok ⟨ret, none⟩ next' ∧
      (ret = 0 → ReadsAlike next next')) ∨
      ∃ fault next next', KeyValueStore.openStore false argc env.toOpenEnv m = .error fault next ∧
        openStore port false argc env m' = .error fault next' := by
  have enough' : ¬ argc < 2 := by omega
  have inits : kvStoreInit env.mallocs = .ok (.ok (.initial none)) := by
    rw [made.mallocs]
    rfl
  have inits' : init port env = .ok (.ok (initial none)) := by
    rcases init_cases port env with ⟨_, inits'⟩ | ⟨unmade, _⟩
    · exact inits'
    · exact absurd made unmade
  cases opened : env.open with
  | failed errno =>
    rw [KeyValueStore.openStore_apply, kvOpen_apply, if_neg enough', inits, openStore_apply,
      open_apply, if_neg fun refused => enough' refused.2, inits', opened]
    exact .inl ⟨errno.code, _, _, rfl, rfl, fun zero => absurd zero errno.code_ne_zero⟩
  | opened fd =>
    rw [openStore_replays enough' inits opened]
    obtain ⟨faults, returns⟩ := openStore_scans enough' inits' opened m'
    rw [same] at faults returns
    have alike := scan_endsAlike env few fd
    generalize kvStoreReplayLog env.toOpenEnv m.file (.initial (some fd)) = replay at alike ⊢
    generalize scanned : scan env m.file (initial (some fd)) = ended at alike
    cases alike with
    | failed =>
      obtain ⟨next', opens'⟩ := faults _ scanned
      exact .inr ⟨_, _, next', rfl, opens'⟩
    | returned mirrors =>
      refine .inl ⟨_, _, _, rfl, returns _ _ scanned, fun zero => ?_⟩
      exact ⟨rfl, (mirrors zero).blockArray, (mirrors zero).directory⟩

/-- A program that only reads cannot tell which store has the file. -/
theorem readers_agree {port : Port} {argc : Nat} {env : OpenEnv} (enough : 2 ≤ argc)
    (made : Made port env) {m m' : Machine} (same : m'.file = m.file)
    (few : blockCount m.file ≤ capacity) (gets : List Get) :
    outcome (reader (KeyValueStore.openStore false argc env.toOpenEnv) Get.submission gets m) =
      outcome (reader (openStore port false argc env) (Get.class port) gets m') := by
  simp only [reader, bind_apply]
  rcases opens_alike enough made same few with
    ⟨ret, next, next', opens, opens', alike⟩ | ⟨fault, next, next', opens, opens'⟩
  · rw [opens, opens']
    dsimp only
    split
    · rfl
    · rename_i zero
      rw [bind_apply, bind_apply]
      rcases (alike (not_not.mp zero)).gets port gets with
        ⟨responses, reads, reads'⟩ | ⟨fault, reads, reads'⟩
      · rw [reads, reads']
        rfl
      · rw [reads, reads']
        rfl
  · rw [opens, opens']
    rfl

/-- The value that the file of one block has for key 1. -/
theorem readers_agree_one_block : ∃ out : Value, out.bytes = [0] ∧
    outcome (reader (KeyValueStore.openStore false 2 .quiet) Get.submission
      [⟨.full, 1, .one⟩] .sample) = .ok [⟨0, none⟩, ⟨0, some out⟩] ∧
    outcome (reader (openStore .c false 2 .quiet) (Get.class .c)
      [⟨.full, 1, .one⟩] .sample) = .ok [⟨0, none⟩, ⟨0, some out⟩] := by
  have valid : KvBlock.sample.validate = true := by decide
  have blocks : blockCount Machine.sample.file = 1 := blockCount_one .sample
  have made : Made .c .quiet := ⟨rfl, fun _ => rfl⟩
  have few : blockCount Machine.sample.file ≤ capacity := by
    rw [blocks]
    decide
  have agree := @readers_agree .c 2 .quiet (Nat.le_refl 2) made .sample .sample rfl few
    [⟨.full, 1, .one⟩]
  obtain ⟨opened, returned⟩ := one_block_opens .sample (.initial none)
  obtain ⟨file, replayed⟩ := @KeyValueStore.reopen_returned .sample _ _ _ returned
  have total : replayedBlocks Machine.sample.file = 1 := by
    rw [replayedBlocks, blocks]
    rfl
  rw [total] at replayed
  obtain ⟨entry, found, zero, size⟩ := one_block_entry valid replayed
  have first : validBlock opened.file entry.dataBlock = some .sample := by
    rw [file, zero]
    exact (validBlock_one valid).mpr ⟨rfl, rfl⟩
  have one : entry.dataBytes = 1 := size
  have read := @kvGet_live opened.stor opened.file 1 entry .sample replayed.sound.opened
    replayed.sound.raw .full .one found (by rw [zero]; decide) first (by rw [one]; decide)
    (by rw [one]; decide) (by rw [one]; decide)
  obtain ⟨out, got, _, value⟩ | ⟨_, _, undelivered, _⟩ := read
  · have told : outcome (reader (KeyValueStore.openStore false 2 .quiet) Get.submission
        [⟨.full, 1, .one⟩] .sample) = .ok [⟨0, none⟩, ⟨0, some out⟩] := by
      have opens : KeyValueStore.openStore false 2 .quiet .sample = .ok ⟨0, none⟩ opened :=
        (exec_reopen_closed .sample 2 .quiet).symm.trans returned
      have gets : [(⟨.full, 1, .one⟩ : Get)].mapM Get.submission opened =
          .ok [⟨0, some out⟩] opened := by
        simp only [List.mapM_cons, bind_apply, Get.submission, KeyValueStore.perform,
          getStor_apply, getFile_apply, got]
        rfl
      simp only [reader, bind_apply, opens]
      rw [if_neg (by decide), bind_apply, gets]
      rfl
    refine ⟨out, ?_, told, agree.symm.trans told⟩
    have stored := (validBlock_eq_some.mp first).1
    rw [entryValue, one, stored] at value
    exact (Option.some.inj value).symm
  · exact absurd trivial undelivered

end KeyValueStore.KvStore
