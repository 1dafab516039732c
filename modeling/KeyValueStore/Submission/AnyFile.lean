import KeyValueStore.Submission.Recovery

/-! # Opening a file with any content

Replay checks the signature of a block and nothing else, so a file that the store did
not write can bring it to an assertion: while it is replayed, or later, when an update
meets an entry with a sequence that the counter has not reached.
`any_file_safe_iff` says exactly when it does not. -/

namespace KeyValueStore

open ByteFile Runs VersionLog

/-- An assertion fails, or the bitmap is indexed outside its bytes. -/
def Fault.Violation : Fault → Prop
  | .assertion _ | .bitmapOutOfBounds => True
  | .outOfBounds | .nullPointer | .stopped => False

/-! ## Replay -/

/-- No block that replay gets to fails an assertion. -/
def ReplaySafe (env : OpenEnv) (file : Bytes) (total : Nat) : Prop :=
  ∀ b, b < total → (∀ b', b' < b → Passes env file b') → ¬ Trips env file b

/-- Replay that stopped at block `b` without tripping there does not trip at all. -/
theorem replaySafe_of_stop {env : OpenEnv} {file : Bytes} {total b : Nat}
    (passed : ∀ b', b' < b → Passes env file b') (stops : ¬ Passes env file b)
    (notTrips : ¬ Trips env file b) : ReplaySafe env file total := by
  intro b' _ reached
  rcases Nat.lt_trichotomy b' b with before | rfl | after
  · exact (passed b' before).not_trips
  · exact notTrips
  · exact absurd (reached b after) stops

theorem ReplayOutcome.safe_iff {env : OpenEnv} {file : Bytes} {total : Nat}
    {result : Except Fault (Int × KvStor)} (outcome : ReplayOutcome env file total result) :
    (∀ fault, result = .error fault → ¬ fault.Violation) ↔ ReplaySafe env file total := by
  cases outcome with
  | finished passed _ =>
    refine iff_of_true (fun _ impossible => by cases impossible) ?_
    intro b inside _
    exact (passed b inside).not_trips
  | gaveUp _ passed stops notTrips _ _ =>
    exact iff_of_true (fun _ impossible => by cases impossible)
      (replaySafe_of_stop passed stops notTrips)
  | crashed _ passed stops notTrips _ =>
    refine iff_of_true ?_ (replaySafe_of_stop passed stops notTrips)
    rintro _ ⟨⟩
    exact id
  | tripped inside passed trips =>
    refine iff_of_false ?_ ?_
    · intro harmless
      exact harmless _ rfl trivial
    · intro safe
      exact safe _ inside passed trips

/-- `kv_open` fails no assertion: it does not get as far as replay, or no block that
replay gets to trips. -/
def OpenSafe (argc : Nat) (env : OpenEnv) (file : Bytes) : Prop :=
  Starts argc env → ReplaySafe env file (replayedBlocks file)

theorem reopen_safe_iff (m : Machine) (argc : Nat) (env : OpenEnv) :
    (∀ fault next, exec m (.reopen argc env) = .error fault next → ¬ fault.Violation) ↔
      OpenSafe argc env m.file := by
  have outcome := exec_reopen m argc env
  generalize exec m (.reopen argc env) = result at outcome
  cases outcome with
  | refused notStarted _ _ _ _ =>
    exact iff_of_true (fun _ _ impossible => by cases impossible)
      (fun starts => absurd starts notStarted)
  | crashed notStarted _ =>
    refine iff_of_true ?_ (fun starts => absurd starts notStarted)
    rintro _ _ ⟨⟩
    exact id
  | returned starts replay =>
    have safe := replay.safe_iff.mp (fun _ impossible => by cases impossible)
    exact iff_of_true (fun _ _ impossible => by cases impossible) (fun _ => safe)
  | faulted starts replay =>
    have iff := replay.safe_iff
    constructor
    · intro harmless _
      refine iff.mp ?_
      rintro _ ⟨⟩
      exact harmless _ _ rfl
    · rintro safe _ _ ⟨⟩
      exact iff.mpr (safe starts) _ rfl

/-! ## Later calls -/

/-- `kv_set`, `kv_del` and `kv_get`. -/
def Call.InProcess : Call → Prop
  | .set .. | .del .. | .get .. => True
  | .reopen .. => False

/-- An update that reaches the directory brings a version newer than the entry there. -/
def UpdateSafe (m : Machine) (call : Call) : Prop :=
  ∀ env key size valueData, call.Appends env key size valueData → call.Accepted m →
    m.destination ≠ none → env.write.code = some 0 →
    ∀ entry, m.stor.directory.findEntryForKey key = some entry →
      entry.sequence.toNat < m.nextSequence.toNat

theorem memcpy_cases (target source : Bytes) (count : Nat) :
    (∃ copied, memcpy target source count = .ok copied) ∨
      memcpy target source count = .error .outOfBounds := by
  by_cases fits : count ≤ source.length ∧ count ≤ target.length
  · exact .inl ⟨_, memcpy_eq fits.1 fits.2⟩
  · exact .inr (dif_neg fits)

/-- All that a get can fail with is a copy past the block. -/
theorem kvGet_cases (read : ReadResult) (stor : KvStor) (file : Bytes) (key : UInt64) (v : Value) :
    (∃ out, kvGet read stor file key v = .ok out) ∨
      kvGet read stor file key v = .error .outOfBounds := by
  unfold kvGet
  cases stor.directory.lookupKey key with
  | error ret => exact .inl ⟨_, rfl⟩
  | ok found =>
    obtain ⟨block, size⟩ := found
    simp only
    split
    · exact .inl ⟨_, rfl⟩
    · split
      · exact .inl ⟨_, rfl⟩
      · cases stor.blockArray.readBlock read file block with
        | error ret => exact .inl ⟨_, rfl⟩
        | ok bytes =>
          simp only
          split
          · exact .inl ⟨_, rfl⟩
          · rcases memcpy_cases v.data (KvBlock.ofBytes bytes).data size.toNat with
              ⟨copied, success⟩ | failure
            · rw [success]
              exact .inl ⟨_, rfl⟩
            · rw [failure]
              exact .inr rfl

theorem exec_get (m : Machine) (read : ReadResult) (key : UInt64) (v : Value) :
    (∃ response, exec m (.get read key v) = .ok response m) ∨
      exec m (.get read key v) = .error .outOfBounds m := by
  rcases kvGet_cases read m.stor m.file key v with ⟨out, returned⟩ | failed
  · exact .inl ⟨⟨out.1, some out.2⟩, exec_get_of_kvGet returned⟩
  · refine .inr ?_
    simp only [exec, perform, bind_apply, getStor_apply, getFile_apply, failed, lift_error]

theorem Call.Appends.unique {call : Call} {env env' : BlockWrite} {key key' size size' : UInt64}
    {valueData valueData' : Option Bytes} (first : call.Appends env key size valueData)
    (second : call.Appends env' key' size' valueData') : env' = env ∧ key' = key := by
  cases first <;> cases second <;> exact ⟨rfl, rfl⟩

theorem updateSafe_iff {m : Machine} {call : Call} {env : BlockWrite} {key size : UInt64}
    {valueData : Option Bytes} (appends : call.Appends env key size valueData) :
    UpdateSafe m call ↔ (call.Accepted m → m.destination ≠ none → env.write.code = some 0 →
      ∀ entry, m.stor.directory.findEntryForKey key = some entry →
        entry.sequence.toNat < m.nextSequence.toNat) := by
  constructor
  · intro safe
    exact safe env key size valueData appends
  · intro newer env' key' _ _ appends'
    obtain ⟨rfl, rfl⟩ := appends.unique appends'
    exact newer

section Update

variable {m : Machine} {call : Call} {env : BlockWrite} {key size : UInt64}
  {valueData : Option Bytes}

/-- An update that returns leaves a consistent memory. -/
theorem Sound.update (sound : Sound m.stor) (appends : call.Appends env key size valueData)
    {response : Response} {next : Machine} (returned : exec m call = .ok response next) :
    Sound next.stor := by
  have outcome := exec_update sound appends
  rw [returned] at outcome
  generalize ended : EStateM.Result.ok response next = result at outcome
  cases outcome with
  | rejected _ =>
    cases ended
    exact sound
  | appended _ _ _ outcome =>
    cases outcome with
    | full _ | failed _ _ _ | tsearchNull _ _ _ _ =>
      cases ended
      exact sound.searched
    | done found _ _ _ marks =>
      cases ended
      exact sound.committed found marks _ _ _
    | _ => cases ended

/-- An update fails an assertion exactly if it meets an entry that is not older. -/
theorem Sound.update_harmless_iff (sound : Sound m.stor)
    (appends : call.Appends env key size valueData) :
    (∀ fault next, exec m call = .error fault next → ¬ fault.Violation) ↔ UpdateSafe m call := by
  rw [updateSafe_iff appends]
  have returns : ∀ {response : Response} {last : Machine} (fault : Fault) (next : Machine),
      (EStateM.Result.ok response last : EStateM.Result Fault Machine Response) =
        .error fault next → ¬ fault.Violation :=
    fun _ _ impossible => by cases impossible
  have outcome := exec_update sound appends
  generalize exec m call = result at outcome
  cases outcome with
  | rejected refused => exact iff_of_true returns (fun accepted => absurd accepted refused)
  | appended accepted payload carries outcome =>
    cases outcome with
    | full none_ => exact iff_of_true returns (fun _ room => absurd none_ room)
    | failed _ code nonzero =>
      refine iff_of_true returns (fun _ _ zero => ?_)
      rw [code, Option.some.injEq] at zero
      exact absurd zero nonzero
    | stopped _ code =>
      refine iff_of_true ?_ (fun _ _ zero => ?_)
      · rintro _ _ ⟨⟩
        exact id
      · rw [code] at zero
        cases zero
    -- These two are the assertions.
    | reused found code lookup same =>
      refine iff_of_false (fun harmless => harmless _ _ rfl trivial) ?_
      intro newer
      have ahead := newer accepted (by rw [found]; simp) code _ lookup
      rw [same] at ahead
      exact Nat.lt_irrefl _ ahead
    | stale found code lookup older =>
      refine iff_of_false (fun harmless => harmless _ _ rfl trivial) ?_
      intro newer
      have ahead := newer accepted (by rw [found]; simp) code _ lookup
      omega
    | mallocNull _ _ absent _ =>
      refine iff_of_true ?_ (fun _ _ _ entry lookup => ?_)
      · rintro _ _ ⟨⟩
        exact id
      · rw [absent] at lookup
        cases lookup
    | tsearchNull _ _ absent _ =>
      refine iff_of_true returns (fun _ _ _ entry lookup => ?_)
      rw [absent] at lookup
      cases lookup
    | done _ _ newest _ _ => exact iff_of_true returns (fun _ _ _ => newest)

end Update

/-- One call of a process, and when it fails no assertion. -/
theorem Sound.inProcess {m : Machine} (sound : Sound m.stor) {call : Call}
    (inProcess : call.InProcess) :
    (∀ response next, exec m call = .ok response next → Sound next.stor) ∧
      ((∀ fault next, exec m call = .error fault next → ¬ fault.Violation) ↔
        UpdateSafe m call) := by
  cases call with
  | set env key v =>
    exact ⟨fun _ _ returned => sound.update (.set env key v) returned,
      sound.update_harmless_iff (.set env key v)⟩
  | del env key =>
    exact ⟨fun _ _ returned => sound.update (.del env key) returned,
      sound.update_harmless_iff (.del env key)⟩
  | get read key v =>
    have vacuous : UpdateSafe m (.get read key v) := by
      intro env key size valueData appends
      cases appends
    rcases exec_get m read key v with ⟨response, returned⟩ | failed
    · rw [returned]
      refine ⟨?_, iff_of_true (fun _ _ impossible => by cases impossible) vacuous⟩
      rintro _ _ ⟨⟩
      exact sound
    · rw [failed]
      refine ⟨fun _ _ impossible => (by cases impossible), iff_of_true ?_ vacuous⟩
      rintro _ _ ⟨⟩
      exact id
  | reopen _ _ => exact absurd inProcess id

/-! ### Without a wrap -/

/-- A store whose counter has reached all its entries. -/
structure Ahead (m : Machine) : Prop where
  sound : Sound m.stor
  counted : m.Counted

/-- Unless the counter wraps, the next version is newer than any entry. -/
theorem Ahead.updateSafe {m : Machine} (ahead : Ahead m) {call : Call} (noWrap : NoWrap m call) :
    UpdateSafe m call := by
  intro env key size valueData appends accepted room code entry found
  exact ahead.counted.fresh (noWrap.1 accepted) found

theorem Ahead.update {m : Machine} (ahead : Ahead m) {call : Call} {env : BlockWrite}
    {key size : UInt64} {valueData : Option Bytes} (appends : call.Appends env key size valueData)
    (noWrap : NoWrap m call) {response : Response} {next : Machine}
    (returned : exec m call = .ok response next) : Ahead next := by
  refine ⟨ahead.sound.update appends returned, ?_⟩
  have outcome := exec_update ahead.sound appends
  rw [returned] at outcome
  generalize ended : EStateM.Result.ok response next = result at outcome
  cases outcome with
  | rejected _ =>
    cases ended
    exact ahead.counted
  | appended accepted _ _ outcome =>
    have small := noWrap.1 accepted
    cases outcome with
    | full _ | failed _ _ _ | tsearchNull _ _ _ _ =>
      cases ended
      exact ahead.counted.searched small
    | done _ _ _ _ _ =>
      cases ended
      exact ahead.counted.committed small _ _ _ _ _ _
    | _ => cases ended

theorem Ahead.step {m : Machine} {call : Call} {response : Response} {next : Machine}
    (ahead : Ahead m) (now : call.InProcess ∧ NoWrap m call)
    (returned : exec m call = .ok response next) : Ahead next := by
  cases call with
  | set env key v => exact ahead.update (.set env key v) now.2 returned
  | del env key => exact ahead.update (.del env key) now.2 returned
  | get read key v =>
    rcases exec_get m read key v with ⟨_, got⟩ | failed
    · rw [returned, EStateM.Result.ok.injEq] at got
      exact got.2 ▸ ahead
    · rw [returned] at failed
      cases failed
  | reopen _ _ => exact absurd now.1 id

/-- Replay leaves the counter ahead of the versions it has read. -/
theorem ahead_of_opened {m opened : Machine} {argc : Nat} {env : OpenEnv}
    (noWrap : NoWrap m (.reopen argc env))
    (returned : exec m (.reopen argc env) = .ok ⟨0, none⟩ opened) : Ahead opened := by
  obtain ⟨_, replayed⟩ := reopen_returned returned
  refine ⟨replayed.sound, ?_⟩
  intro key entry found
  have stored := (replayed.indexes.latest (KvDirectory.index_of_found found)).1
  exact Nat.le_of_lt (replayed.counted (noWrap.2 argc env rfl) _ _ _ stored)

/-! ### After a wrap

Replay that meets sequence 2^64-1 puts the counter at 0 again.  An update then brings a
version newer than the entry exactly if the counter has reached what the file held of the
key, or the key has had an update since. -/

/-- The keys of the updates that have returned 0. -/
def updatedKeys (updated : Finset UInt64) (_ : Machine) (call : Call) (response : Response) :
    Finset UInt64 :=
  match call with
  | .set _ key _ | .del _ key => if response.ret = 0 then insert key updated else updated
  | .get .. | .reopen .. => updated

/-- An update that reaches the directory, of a key not updated since `file` was opened,
comes when the counter has reached every version of the key in `file`. -/
def CatchesUp (file : Bytes) (m : Machine) (updated : Finset UInt64) (call : Call) : Prop :=
  ∀ env key size valueData, call.Appends env key size valueData → call.Accepted m →
    m.destination ≠ none → env.write.code = some 0 → key ∉ updated →
    ∀ b block, b < replayedBlocks file → validBlock file b = some block →
      block.header.keyId = key →
      block.header.sequence.toNat ≤ m.stor.currentSequenceNumber.toNat

/-- What a store still has of the entries that it was opened with. -/
structure Inherits (opened m : Machine) (updated : Finset UInt64) : Prop where
  sound : Sound m.stor
  untouched : ∀ {key}, key ∉ updated →
    m.stor.directory.findEntryForKey key = opened.stor.directory.findEntryForKey key
  reached : ∀ {key}, key ∈ updated → ∀ entry,
    m.stor.directory.findEntryForKey key = some entry →
    entry.sequence.toNat ≤ m.stor.currentSequenceNumber.toNat

section Inherits

variable {file : Bytes} {opened m next : Machine} {updated : Finset UInt64} {call : Call}
  {env : BlockWrite} {key size : UInt64} {valueData : Option Bytes} {response : Response}

theorem Inherits.updateSafe_iff (inherits : Inherits opened m updated)
    (replayed : Replayed file (replayedBlocks file) opened.stor) (noWrap : NoWrap m call) :
    UpdateSafe m call ↔ CatchesUp file m updated call := by
  refine forall₄_congr fun env key size valueData => ?_
  refine forall_congr' fun appends => forall_congr' fun accepted => ?_
  refine forall₂_congr fun room code => ?_
  simp only [← Nat.lt_succ_iff]
  rw [Machine.nextSequence_toNat (noWrap.1 accepted), ← newer_below_fileLog,
    ← KvDirectory.older_iff replayed.indexes]
  by_cases touched : key ∈ updated
  · refine iff_of_true (fun entry found => ?_) fun untouched => absurd touched untouched
    exact Nat.lt_succ_of_le (inherits.reached touched entry found)
  · rw [inherits.untouched touched]
    exact ⟨fun older _ => older, fun older => older touched⟩

/-- A call that has left the directory alone. -/
theorem Inherits.kept (inherits : Inherits opened m updated) (sound : Sound next.stor)
    (directory : next.stor.directory = m.stor.directory)
    (counter : m.stor.currentSequenceNumber.toNat ≤ next.stor.currentSequenceNumber.toNat) :
    Inherits opened next updated := by
  refine ⟨sound, fun untouched => ?_, fun touched entry found => ?_⟩
  · rw [directory]
    exact inherits.untouched untouched
  · rw [directory] at found
    exact (inherits.reached touched entry found).trans counter

/-- The version of the key is the counter's last. -/
theorem Inherits.committed (inherits : Inherits opened m updated) (sound : Sound next.stor)
    {entry : DirectoryEntry} (keyed : entry.keyId = key)
    (directory : next.stor.directory = m.stor.directory.withEntry entry)
    (newest : entry.sequence = next.stor.currentSequenceNumber)
    (counter : m.stor.currentSequenceNumber.toNat ≤ next.stor.currentSequenceNumber.toNat) :
    Inherits opened next (insert key updated) := by
  refine ⟨sound, fun {key'} untouched => ?_, fun {key'} touched held found => ?_⟩
  · rw [Finset.mem_insert, not_or] at untouched
    rw [directory, KvDirectory.find_withEntry, keyed, if_neg untouched.1]
    exact inherits.untouched untouched.2
  · rw [directory, KvDirectory.find_withEntry, keyed] at found
    split at found
    · cases found
      exact Nat.le_of_eq (congrArg UInt64.toNat newest)
    · rename_i other
      have earlier := (Finset.mem_insert.mp touched).resolve_left other
      exact (inherits.reached earlier held found).trans counter

theorem Inherits.update (inherits : Inherits opened m updated)
    (appends : call.Appends env key size valueData) (noWrap : NoWrap m call)
    (returned : exec m call = .ok response next) :
    Inherits opened next (if response.ret = 0 then insert key updated else updated) := by
  have sound := inherits.sound.update appends returned
  have outcome := exec_update inherits.sound appends
  rw [returned] at outcome
  generalize ended : EStateM.Result.ok response next = result at outcome
  cases outcome with
  | rejected _ =>
    cases ended
    rw [if_neg call.rejection_ne_zero]
    exact inherits
  | appended accepted _ _ outcome =>
    have counter : m.stor.currentSequenceNumber.toNat ≤ m.nextSequence.toNat := by
      rw [Machine.nextSequence_toNat (noWrap.1 accepted)]
      exact Nat.le_succ _
    cases outcome with
    | full _ | tsearchNull _ _ _ _ =>
      cases ended
      rw [if_neg (by decide)]
      exact inherits.kept sound rfl counter
    | failed _ _ nonzero =>
      cases ended
      rw [if_neg nonzero]
      exact inherits.kept sound rfl counter
    | done _ _ _ _ _ =>
      cases ended
      rw [if_pos rfl]
      exact inherits.committed sound rfl rfl rfl counter
    | _ => cases ended

theorem Inherits.step (inherits : Inherits opened m updated)
    (now : call.InProcess ∧ NoWrap m call) (returned : exec m call = .ok response next) :
    Inherits opened next (updatedKeys updated m call response) := by
  cases call with
  | set env key v => exact inherits.update (.set env key v) now.2 returned
  | del env key => exact inherits.update (.del env key) now.2 returned
  | get read key v =>
    rcases exec_get m read key v with ⟨_, got⟩ | failed
    · rw [returned, EStateM.Result.ok.injEq] at got
      exact got.2 ▸ inherits
    · rw [returned] at failed
      cases failed
  | reopen _ _ => exact absurd now.1 id

end Inherits

/-- A run whose calls do not wrap the counter, on a store whose opening may have. -/
theorem updatesSafe_iff {m opened : Machine} {argc : Nat} {env : OpenEnv}
    (returned : exec m (.reopen argc env) = .ok ⟨0, none⟩ opened) {calls : List Call}
    (permitted : Allowed exec (fun m call => call.InProcess ∧ NoWrap m call) opened calls) :
    Allowed exec UpdateSafe opened calls ↔
      Allowed (noting exec updatedKeys)
        (fun noted call => CatchesUp m.file noted.1 noted.2 call) (opened, ∅) calls := by
  have replayed := (reopen_returned returned).2
  have start : Inherits opened opened ∅ :=
    ⟨replayed.sound, fun _ => rfl, fun touched => absurd touched (Finset.notMem_empty _)⟩
  rw [← @allowed_noting _ _ _ _ _ _ _ updatedKeys _ (opened, ∅)]
  have permitted' : Allowed (noting exec updatedKeys)
      (fun noted call => call.InProcess ∧ NoWrap noted.1 call) (opened, ∅) calls :=
    (@allowed_noting _ _ _ _ exec (fun m call => call.InProcess ∧ NoWrap m call) _ updatedKeys
      _ _).mpr permitted
  refine @allowed_congr _ _ _ _ _ _ (fun noted => Inherits opened noted.1 noted.2) _ _ ?_ ?_ _ _
    start permitted'
  · intro noted call response last holds now stepped
    obtain ⟨next, stepped', rfl⟩ := noting_eq_ok.mp stepped
    exact holds.step now stepped'
  · exact fun holds now => holds.updateSafe_iff replayed now.2

/-! ### Whole runs -/

/-- Opening the file of `m`, and then these calls, fails no assertion and stays inside
the bitmap. -/
def RunsSafely (m : Machine) (argc : Nat) (env : OpenEnv) (calls : List Call) : Prop :=
  (∀ fault next, exec m (.reopen argc env) = .error fault next → ¬ fault.Violation) ∧
    ∀ opened, exec m (.reopen argc env) = .ok ⟨0, none⟩ opened →
      ∀ fault last, run exec opened calls = .error fault last → ¬ fault.Violation

/-- For any file and any environment: opening the file and using the store is safe exactly
if replay trips over no block and every update that reaches the directory is newer than
the entry it meets.  Where the calls do not wrap the counter, the second is a matter of what
the file holds of the key; where replay does not either, it is always so. -/
theorem any_file_safe_iff (m : Machine) (argc : Nat) (env : OpenEnv) {calls : List Call}
    (inProcess : ∀ call ∈ calls, call.InProcess) :
    (RunsSafely m argc env calls ↔
      OpenSafe argc env m.file ∧ ∀ opened, exec m (.reopen argc env) = .ok ⟨0, none⟩ opened →
        Allowed exec UpdateSafe opened calls) ∧
    (NoWrap m (.reopen argc env) → (∀ opened, exec m (.reopen argc env) = .ok ⟨0, none⟩ opened →
        Allowed exec NoWrap opened calls) →
      (RunsSafely m argc env calls ↔ OpenSafe argc env m.file)) ∧
    ((∀ opened, exec m (.reopen argc env) = .ok ⟨0, none⟩ opened →
        Allowed exec NoWrap opened calls) →
      (RunsSafely m argc env calls ↔
        OpenSafe argc env m.file ∧ ∀ opened, exec m (.reopen argc env) = .ok ⟨0, none⟩ opened →
          Allowed (noting exec updatedKeys)
            (fun noted call => CatchesUp m.file noted.1 noted.2 call) (opened, ∅) calls)) := by
  have local_ : ∀ opened, Allowed exec (fun _ call => call.InProcess) opened calls :=
    fun opened => Allowed.of_mem calls opened fun _ call member => inProcess call member
  have exact_ : RunsSafely m argc env calls ↔
      OpenSafe argc env m.file ∧ ∀ opened, exec m (.reopen argc env) = .ok ⟨0, none⟩ opened →
        Allowed exec UpdateSafe opened calls := by
    refine and_congr (reopen_safe_iff m argc env) ?_
    refine forall_congr' fun opened => imp_congr_right fun returned => ?_
    have keeps : ∀ {m : Machine} {call : Call} {response : Response} {next : Machine},
        Sound m.stor → call.InProcess → exec m call = .ok response next → Sound next.stor :=
      fun sound inProcess => (sound.inProcess inProcess).1 _ _
    have safe : ∀ {m : Machine} {call : Call}, Sound m.stor → call.InProcess →
        ((∀ fault next, exec m call = .error fault next → ¬ fault.Violation) ↔
          UpdateSafe m call) :=
      fun sound inProcess => (sound.inProcess inProcess).2
    exact run_harmless_iff keeps safe (reopen_returned returned).2.sound (local_ opened)
  refine ⟨exact_, fun opening later => ?_, fun later => ?_⟩
  · rw [exact_, and_iff_left_iff_imp]
    intro _ opened returned
    have ahead := ahead_of_opened opening returned
    exact Allowed.of_invariant Ahead.step (fun ahead now => ahead.updateSafe now.2) ahead
      ((local_ opened).and (later opened returned))
  · rw [exact_]
    refine and_congr_right fun _ => forall_congr' fun opened => imp_congr_right fun returned => ?_
    exact updatesSafe_iff returned ((local_ opened).and (later opened returned))

/-- Version 5 of key 1, with one byte of data. -/
def KvBlock.sample : KvBlock :=
  { BlockWrite.quiet.memory with header := ⟨kvBlockSignature, 1, 5, 1, 0, 0⟩ }

def Machine.sample : Machine :=
  ⟨overwritten [] 0 .sample sizeofKvBlock, .initial none, false⟩

/-- The counter is opened at 6, so the set of key 1 is safe. -/
theorem any_file_safe_iff_sample :
    RunsSafely .sample 2 .quiet [.set .quiet 1 .one] ∧
      ∀ opened, exec .sample (.reopen 2 .quiet) = .ok ⟨0, none⟩ opened →
        Allowed (noting exec updatedKeys)
          (fun noted call => CatchesUp Machine.sample.file noted.1 noted.2 call) (opened, ∅)
          [.set .quiet 1 .one] := by
  have valid : KvBlock.sample.validate = true := by decide
  have opening : NoWrap .sample (.reopen 2 .quiet) := by
    refine ⟨fun impossible => absurd impossible id, fun _ _ _ b block held => ?_⟩
    rw [((validBlock_one valid).mp held).2]
    decide
  have later : ∀ opened, exec .sample (.reopen 2 .quiet) = .ok ⟨0, none⟩ opened →
      Allowed exec NoWrap opened [.set .quiet 1 .one] := by
    intro opened returned
    have counter : opened.stor.currentSequenceNumber.toNat ≤ 6 := by
      refine (reopen_returned returned).2.bounded 6 fun b key seq stored => ?_
      obtain ⟨block, held, version⟩ := fileLog_eq_some.mp (below_eq_some.mp stored).2
      rw [((validBlock_one valid).mp held).2] at version
      cases version
      decide
    exact ⟨⟨fun _ => by omega, fun _ _ impossible => by cases impossible⟩, fun _ _ _ => trivial⟩
  have exact_ := any_file_safe_iff .sample 2 .quiet
    (show ∀ call ∈ [Call.set .quiet 1 .one], call.InProcess by simp [Call.InProcess])
  have safe : RunsSafely .sample 2 .quiet [.set .quiet 1 .one] :=
    (exact_.2.1 opening later).mpr fun _ b _ _ => (passes_one .sample b).not_trips
  exact ⟨safe, ((exact_.2.2 later).mp safe).2⟩

/-! ## A file with a version twice -/

theorem blockCount_twice (block : KvBlock) : blockCount (block.toBytes ++ block.toBytes) = 2 := by
  rw [blockCount, List.length_append, KvBlock.length_toBytes, sizeofKvBlock]

theorem blockAt_twice (block : KvBlock) {b : Nat} (inside : b < 2) :
    blockAt (block.toBytes ++ block.toBytes) b = some block := by
  have length := KvBlock.length_toBytes block
  have front : readAt (block.toBytes ++ block.toBytes) 0 sizeofKvBlock = block.toBytes :=
    readAt_append_front block.toBytes length
  have back : readAt (block.toBytes ++ block.toBytes) sizeofKvBlock sizeofKvBlock =
      block.toBytes := by
    rw [readAt_append_of_le _ _ (Nat.le_of_eq length), length, Nat.sub_self]
    simpa using readAt_append_front [] length
  rw [blockAt, if_pos (by rw [blockCount_twice]; exact inside)]
  rcases Nat.lt_or_ge b 1 with first | second
  · obtain rfl : b = 0 := by omega
    rw [Nat.zero_mul, front, KvBlock.ofBytes_toBytes]
  · obtain rfl : b = 1 := by omega
    rw [Nat.one_mul, back, KvBlock.ofBytes_toBytes]

/-- Opening a file that holds the same valid block twice fails an assertion. -/
theorem twice_not_safe {block : KvBlock} (valid : block.validate = true) (stor : KvStor) :
    ¬ RunsSafely ⟨block.toBytes ++ block.toBytes, stor, false⟩ 2 .quiet [] := by
  have stored : ∀ {b}, b < 2 → fileLog (block.toBytes ++ block.toBytes) b =
      some (block.header.keyId, block.header.sequence.toNat) :=
    fun inside => fileLog_of_valid (validBlock_eq_some.mpr ⟨blockAt_twice block inside, valid⟩)
  have total : replayedBlocks (block.toBytes ++ block.toBytes) = 2 := by
    rw [replayedBlocks, blockCount_twice]
    rfl
  rintro ⟨opens, _⟩
  have safe := (reopen_safe_iff _ 2 .quiet).mp opens
    ⟨Nat.le_refl 2, rfl, ⟨3, rfl⟩, rfl⟩
  rw [total] at safe
  refine safe 1 (by decide) ?_ ⟨trivial, _, _, stored (by decide), .inl ⟨⟨0, ?_⟩, ?_⟩⟩
  · intro b first
    obtain rfl : b = 0 := by omega
    refine ⟨trivial, fun key seq _ => ⟨?_, fun _ => by decide, fun _ => rfl⟩⟩
    rintro ⟨⟨slot, again⟩, _⟩
    simp at again
  · exact below_eq_some.mpr ⟨by decide, stored (by decide)⟩
  · intro slot seq scanned
    obtain ⟨before, held⟩ := below_eq_some.mp scanned
    rw [stored (by omega), Option.some.injEq, Prod.mk.injEq] at held
    exact Nat.le_of_eq held.2.symm

theorem any_file_not_safe :
    ¬ RunsSafely ⟨KvBlock.sample.toBytes ++ KvBlock.sample.toBytes, .initial none, false⟩ 2 .quiet
      [] :=
  twice_not_safe (by decide) (.initial none)

end KeyValueStore
