import KeyValueStore.Submission.Crash

/-! # Failed updates and the next open

An update writes its block before it touches memory, and nothing takes the block back
when a later step fails, so replay decides what a failed update has done.
`failed_update_reopened` says for every way to fail which map the file opens with.

What replay finds in a block that was written over in part depends on the bytes that
are left of the old one: `TornHarmless` is the exact condition for the map to stay. -/

namespace KeyValueStore

open Runs VersionLog

/-- `kv_close`, then a `kv_open` that returns 0 and serves this map. -/
def Reopens (m : Machine) (argc : Nat) (env : OpenEnv) (mapping : Mapping) : Prop :=
  ∃ reopened, exec m (.reopen argc env) = .ok ⟨0, none⟩ reopened ∧ Reads reopened mapping

/-! ## What gets tell of the map -/

/-- A buffer that the value of every key fits in. -/
def Value.room : Value where
  size := 4096
  data := List.replicate 4096 0
  size_le := by rw [List.length_replicate]; decide

theorem Value.room_size : Value.room.size.toNat = MAXBLOB := rfl

/-- The answer of a get with a large buffer tells the value. -/
theorem Answers.mapping_eq {mapping mapping' : Mapping} {read : ReadResult} {key : UInt64}
    {v : Value} {response : Response} (answers : Answers mapping (.get read key v) response)
    (answers' : Answers mapping' (.get read key v) response)
    (small : ∀ bytes, mapping key = some bytes → bytes.length ≤ v.size.toNat)
    (small' : ∀ bytes, mapping' key = some bytes → bytes.length ≤ v.size.toNat) :
    mapping key = mapping' key := by
  simp only [Answers] at answers answers'
  cases value : mapping key with
  | none =>
    cases value' : mapping' key with
    | none => rfl
    | some bytes' =>
      simp only [value, value', if_neg (Nat.not_lt.mpr (small' bytes' value'))] at answers answers'
      rw [answers] at answers'
      exact absurd answers'.1 (show (-ENOENT : Int) ≠ 0 by decide)
  | some bytes =>
    simp only [value, if_neg (Nat.not_lt.mpr (small bytes value))] at answers
    obtain ⟨zero, out, returned, _, same⟩ := answers
    cases value' : mapping' key with
    | none =>
      simp only [value'] at answers'
      rw [answers'] at zero
      exact absurd zero (show (-ENOENT : Int) ≠ 0 by decide)
    | some bytes' =>
      simp only [value', if_neg (Nat.not_lt.mpr (small' bytes' value'))] at answers'
      obtain ⟨_, out', returned', _, same'⟩ := answers'
      rw [returned, Option.some.injEq] at returned'
      rw [← same, ← same', returned']

theorem Machine.mapping_small (m : Machine) {key : UInt64} {bytes : Bytes}
    (value : m.mapping key = some bytes) : bytes.length ≤ MAXBLOB := by
  cases found : m.stor.directory.findEntryForKey key with
  | none =>
    rw [mapping_of_absent found] at value
    cases value
  | some entry =>
    rw [mapping_of_found found, entryValue] at value
    split at value
    · cases value
    · obtain ⟨block, _, rfl⟩ := Option.map_eq_some_iff.mp value
      rw [List.length_take, block.data_length, MAXBLOB]
      omega

section Readable

variable {m m' : Machine} {mapping : Mapping}

/-- The gets of a store tell a map of values that fit in a block exactly if all its
entries are of a valid size and this is its map. -/
theorem Readable.reads_iff (readable : Readable m)
    (small : ∀ {key bytes}, mapping key = some bytes → bytes.length ≤ MAXBLOB) :
    Reads m mapping ↔ (∀ key entry, m.stor.directory.findEntryForKey key = some entry →
      entry.dataBytes.toNat ≤ MAXBLOB) ∧ m.mapping = mapping := by
  constructor
  · intro reads
    have fits : ∀ key entry, m.stor.directory.findEntryForKey key = some entry →
        entry.dataBytes.toNat ≤ MAXBLOB := by
      intro key entry found
      by_contra large
      -- The entry refuses the buffer, which is large enough for any value of the map.
      have refused : exec m (.get .full key .room) = .ok ⟨-EINVAL, some .room⟩ m :=
        exec_get_of_kvGet (kvGet_small .full m.file found (by rw [Value.room_size]; omega))
      obtain ⟨response, returned, answers⟩ := reads key .room
      rw [refused, EStateM.Result.ok.injEq] at returned
      rw [← returned.1] at answers
      simp only [Answers] at answers
      split at answers
      · cases answers
      · rename_i bytes value
        rw [if_neg (by rw [Value.room_size]; exact Nat.not_lt.mpr (small value))] at answers
        exact absurd answers.1 (by decide)
    refine ⟨fits, ?_⟩
    funext key
    obtain ⟨response, returned, answers⟩ := reads key .room
    obtain ⟨_, returned', answers' | ⟨impossible, _⟩⟩ :=
      readable.legible.get .full key .room (fits key _)
    · rw [returned, EStateM.Result.ok.injEq] at returned'
      rw [← returned'.1] at answers'
      refine answers'.mapping_eq answers ?_ ?_
      · intro bytes value
        exact m.mapping_small value
      · intro bytes value
        exact small value
    · exact absurd trivial impossible
  · rintro ⟨fits, rfl⟩ key v
    obtain ⟨response, returned, answers | ⟨impossible, _⟩⟩ := readable.legible.get .full key v (fits key _)
    · exact ⟨response, returned, answers⟩
    · exact absurd trivial impossible

/-- A key that is named in the same block, with the same content, has the same value. -/
theorem Readable.kept (readable : Readable m) (readable' : Readable m') {key : UInt64}
    (index : m'.stor.directory.index key = m.stor.directory.index key)
    (blocks : ∀ b seq, m.stor.directory.index key = some (b, seq) →
      blockAt m'.file b = blockAt m.file b) :
    m'.stor.directory.findEntryForKey key = m.stor.directory.findEntryForKey key ∧
      m'.mapping key = m.mapping key := by
  have same : m'.stor.directory.findEntryForKey key = m.stor.directory.findEntryForKey key := by
    refine readable.find_eq readable' index ?_
    intro b seq named
    rw [validBlock, validBlock, blocks b seq named]
  refine ⟨same, ?_⟩
  cases found : m.stor.directory.findEntryForKey key with
  | none => rw [Machine.mapping_of_absent found, Machine.mapping_of_absent (same.trans found)]
  | some entry =>
    rw [Machine.mapping_of_found found, Machine.mapping_of_found (same.trans found)]
    exact entryValue_congr (blocks _ _ (KvDirectory.index_of_found found))

/-- The value that a version leaves for its key. -/
def KvBlock.value (block : KvBlock) : Option Bytes :=
  if block.header.dataBytes = 0 then none
  else some (block.data.take block.header.dataBytes.toNat)

/-- The entry of a key has the size and the value of the block it is named in. -/
theorem Readable.named (readable : Readable m) {key : UInt64} {b seq : Nat} {block : KvBlock}
    (index : m.stor.directory.index key = some (b, seq))
    (valid : validBlock m.file b = some block) :
    ∃ entry, m.stor.directory.findEntryForKey key = some entry ∧
      entry.dataBytes = block.header.dataBytes ∧ m.mapping key = block.value := by
  obtain ⟨entry, found, rfl, _⟩ := KvDirectory.index_eq_some.mp index
  obtain ⟨_, valid', holds⟩ := readable.holds found
  rw [valid, Option.some.injEq] at valid'
  subst valid'
  refine ⟨entry, found, holds.dataBytes.symm, ?_⟩
  rw [Machine.mapping_of_found found, entryValue, KvBlock.value, holds.dataBytes,
    (validBlock_eq_some.mp valid).1, Option.map_some]

end Readable

/-! ## Opening a file that is almost well-formed -/

/-- A file of at most the full size opens exactly if no version is repeated. -/
theorem reopens_iff {m : Machine} {argc : Nat} {env : OpenEnv} {mapping : Mapping} {Told : Prop}
    (count : blockCount m.file ≤ capacity) (enough : 2 ≤ argc) (succeeds : env.Succeeds)
    (told : NoRepeats (fileLog m.file) → ∀ reopened, reopened.file = m.file → Readable reopened →
      Indexes reopened.stor.directory.index (fileLog m.file) → (Reads reopened mapping ↔ Told)) :
    Reopens m argc env mapping ↔ NoRepeats (fileLog m.file) ∧ Told := by
  have total := replayedBlocks_eq count
  have passes : (∀ b, b < replayedBlocks m.file → Passes env m.file b) ↔
      NoRepeats (fileLog m.file) := by
    rw [total]
    constructor
    · intro passes b key seq stored
      exact (succeeds.passes_iff count).mp (passes b (fileLog_lt stored)) key seq stored
    · intro once b _
      exact (succeeds.passes_iff count).mpr (once b)
  have returns := @reopen_returns_iff m _ _ (succeeds.starts enough)
  have told' : NoRepeats (fileLog m.file) → ∀ reopened,
      exec m (.reopen argc env) = .ok ⟨0, none⟩ reopened → (Reads reopened mapping ↔ Told) := by
    intro once reopened returned
    obtain ⟨same, replayed⟩ := reopen_returned returned
    rw [total] at replayed
    refine told once reopened same ⟨replayed.sound, ?_⟩ ?_
    · rw [same]
      exact replayed.holds
    · have indexes := replayed.indexes
      rw [below_blockCount] at indexes
      exact indexes
  constructor
  · rintro ⟨reopened, returned, reads⟩
    have once := passes.mp (returns.mp ⟨reopened, returned⟩)
    exact ⟨once, (told' once reopened returned).mp reads⟩
  · rintro ⟨once, holds⟩
    obtain ⟨reopened, returned⟩ := returns.mpr (passes.mpr once)
    exact ⟨reopened, returned, (told' once reopened returned).mpr holds⟩

section Logged

variable {m m' : Machine} {argc : Nat} {env : OpenEnv}

/-- A store that names the blocks of `m`, with the content they have there, tells its map. -/
theorem Logged.reads_of_index (logged : Logged m) (readable : Readable m')
    (index : m'.stor.directory.index = m.stor.directory.index)
    (blocks : ∀ key b seq, m.stor.directory.index key = some (b, seq) →
      blockAt m'.file b = blockAt m.file b) : Reads m' m.mapping := by
  have kept : ∀ key, m'.stor.directory.findEntryForKey key =
      m.stor.directory.findEntryForKey key ∧ m'.mapping key = m.mapping key :=
    fun key => logged.backed.toReadable.kept readable (congrFun index key) (blocks key)
  refine (readable.reads_iff m.mapping_small).mpr ⟨?_, ?_⟩
  · intro key entry found
    exact logged.backed.fits ((kept key).1 ▸ found)
  · funext key
    exact (kept key).2

/-- A file with the same whole blocks opens with the same map. -/
theorem Logged.reopens (log : WellFormedLog m.file) (logged : Logged m) (enough : 2 ≤ argc)
    (succeeds : env.Succeeds) (same : blockAt m'.file = blockAt m.file)
    (count : blockCount m'.file = blockCount m.file) : Reopens m' argc env m.mapping := by
  have logs : fileLog m'.file = fileLog m.file := by
    funext b
    exact fileLog_congr (congrFun same b)
  have fits : blockCount m'.file ≤ capacity := by
    rw [count]
    exact log.count
  have once : NoRepeats (fileLog m'.file) := by
    rw [logs]
    exact log.distinct.noRepeats
  refine (reopens_iff fits enough succeeds ?_).mpr ⟨once, trivial⟩
  intro _ reopened file readable indexes
  rw [logs] at indexes
  refine iff_true_intro (logged.reads_of_index readable (indexes.unique logged.indexes) ?_)
  intro key b seq _
  rw [file, same]

/-- What is in block `d` of the file changes nothing for the map: no version is repeated,
and the block, if it is a version at all, is out of date or says what the map says. -/
def TornHarmless (m : Machine) (mapping : Mapping) (file : Bytes) (d : Nat) : Prop :=
  NoRepeats (fileLog file) ∧ ∀ torn, validBlock file d = some torn →
    (∃ entry, m.stor.directory.findEntryForKey torn.header.keyId = some entry ∧
        torn.header.sequence < entry.sequence) ∨
      torn.header.dataBytes.toNat ≤ MAXBLOB ∧ torn.value = mapping torn.header.keyId

/-- Replay has taken `torn` for the newest version of its key. -/
theorem Logged.reads_torn_iff (logged : Logged m) (readable : Readable m') {d : Nat}
    {torn : KvBlock} (valid : validBlock m'.file d = some torn)
    (index : m'.stor.directory.index = Function.update m.stor.directory.index torn.header.keyId
      (some (d, torn.header.sequence.toNat)))
    (blocks : ∀ key b seq, m.stor.directory.index key = some (b, seq) →
      blockAt m'.file b = blockAt m.file b) :
    Reads m' m.mapping ↔ torn.header.dataBytes.toNat ≤ MAXBLOB ∧
      torn.value = m.mapping torn.header.keyId := by
  have taken : m'.stor.directory.index torn.header.keyId =
      some (d, torn.header.sequence.toNat) := by rw [index, Function.update_self]
  obtain ⟨entry, found, size, value⟩ := readable.named taken valid
  have kept : ∀ key, key ≠ torn.header.keyId →
      m'.stor.directory.findEntryForKey key = m.stor.directory.findEntryForKey key ∧
        m'.mapping key = m.mapping key := by
    intro key other
    refine logged.backed.toReadable.kept readable ?_ (blocks key)
    rw [index, Function.update_of_ne other]
  rw [readable.reads_iff m.mapping_small]
  constructor
  · rintro ⟨fits, same⟩
    exact ⟨size ▸ fits _ _ found, by rw [← value, same]⟩
  · rintro ⟨fits, same⟩
    constructor
    · intro key entry' found'
      by_cases other : key = torn.header.keyId
      · rw [other, found, Option.some.injEq] at found'
        rw [← found', size]
        exact fits
      · exact logged.backed.fits ((kept key other).1 ▸ found')
    · funext key
      by_cases other : key = torn.header.keyId
      · rw [other, value, same]
      · exact (kept key other).2

/-- A file in which one block has changed that no entry names. -/
theorem Logged.reopens_torn_iff (log : WellFormedLog m.file) (logged : Logged m) {d : Nat}
    (unnamed : Unnamed m.stor.directory.index d)
    (others : ∀ b, b ≠ d → blockAt m'.file b = blockAt m.file b)
    (count : blockCount m'.file = blockCount m.file) (enough : 2 ≤ argc)
    (succeeds : env.Succeeds) :
    Reopens m' argc env m.mapping ↔ TornHarmless m m.mapping m'.file d := by
  have fits : blockCount m'.file ≤ capacity := by
    rw [count]
    exact log.count
  have changed : fileLog m'.file =
      Function.update (fileLog m.file) d (fileLog m'.file d) := by
    funext b
    by_cases same : b = d
    · rw [same, Function.update_self]
    · rw [Function.update_of_ne same]
      exact fileLog_congr (others b same)
  have apart : ∀ key b seq, m.stor.directory.index key = some (b, seq) →
      blockAt m'.file b = blockAt m.file b :=
    fun key b seq named => others b (unnamed key b seq named)
  refine reopens_iff fits enough succeeds ?_
  intro once reopened file readable indexes
  rw [← file] at apart
  cases valid : validBlock m'.file d with
  | none =>
    have erased : fileLog m'.file d = none := by rw [fileLog, valid, Option.map_none]
    rw [changed, erased] at indexes
    -- Replay skips the block: no entry named it before.
    have index := indexes.unique (logged.indexes.erase unnamed)
    exact iff_of_true (logged.reads_of_index readable index apart) (by simp)
  | some torn =>
    have stored := fileLog_of_valid valid
    rw [changed, stored] at indexes
    simp only [Option.some.injEq, forall_eq']
    by_cases older : ∃ entry, m.stor.directory.findEntryForKey torn.header.keyId = some entry ∧
        torn.header.sequence < entry.sequence
    · obtain ⟨entry, found, behind⟩ := older
      have index := indexes.unique (logged.indexes.ignore unnamed
        (KvDirectory.index_of_found found) (UInt64.lt_iff_toNat_lt.mp behind))
      exact iff_of_true (logged.reads_of_index readable index apart)
        (.inl ⟨entry, found, behind⟩)
    · have newer : ∀ slot seq, m.stor.directory.index torn.header.keyId = some (slot, seq) →
          seq < torn.header.sequence.toNat := by
        intro slot seq named
        rw [changed, stored] at once
        refine logged.indexes.newer_of_noRepeats unnamed once named ?_
        intro behind
        obtain ⟨entry, found, _, rfl⟩ := KvDirectory.index_eq_some.mp named
        exact older ⟨entry, found, UInt64.lt_iff_toNat_lt.mpr behind⟩
      have index := indexes.unique (logged.indexes.record unnamed newer)
      rw [logged.reads_torn_iff readable (file ▸ valid) index apart]
      exact ⟨.inr, fun harmless => harmless.resolve_left older⟩

end Logged

/-! ## After a failed update -/

/-- How many bytes of its block an update brings to the file. -/
def Call.changed : Call → Nat
  | .set env _ _ | .del env _ => env.write.changed
  | .get .. | .reopen .. => 0

theorem Call.Appends.changed_eq {call : Call} {env : BlockWrite} {key size : UInt64}
    {valueData : Option Bytes} (appends : call.Appends env key size valueData) :
    call.changed = env.write.changed := by
  cases appends <;> rfl

/-- What `kv_close` and `kv_open` find right after an update of `m` that returned `ret`;
`mapping` is the map of before the call. -/
structure AfterFailure (m : Machine) (mapping : Mapping) (call : Call) (ret : Int) (next : Machine)
    (argc : Nat) (env : OpenEnv) : Prop where
  refused : ret = -EINVAL ∨ ret = -ENOENT ∨ ret = -ENOSPC → Reopens next argc env mapping
  untouched : call.changed = 0 → Reopens next argc env mapping
  /-- All of the block is in the file, so the update is done after all. -/
  complete : ret = -ENOMEM ∨ call.Accepted m ∧ m.destination ≠ none ∧
    sizeofKvBlock ≤ call.changed → Reopens next argc env (mapping.record call ⟨0, none⟩)
  /-- Part of the block is behind the last whole one, and does not count. -/
  tail : ∀ d, m.destination = some d → blockCount m.file ≤ d → call.changed < sizeofKvBlock →
    Reopens next argc env mapping
  /-- A block of the file was written over. -/
  torn : ∀ d, call.Accepted m → m.destination = some d → d < blockCount m.file →
    (Reopens next argc env mapping ↔ TornHarmless m mapping next.file d)

/-- The codes of a failed write. -/
theorem WriteResult.code_failed {write : WriteResult} {ret : Int} (code : write.code = some ret)
    (nonzero : ret ≠ 0) : ret = - EIO ∨ 0 < ret := by
  cases write with
  | full => exact absurd (Option.some.inj code).symm nonzero
  | short count =>
    have outcome := Option.some.inj code
    split at outcome
    · exact absurd outcome.symm nonzero
    · exact .inl outcome.symm
  | failed errno _ | seekFailed errno =>
    have positive : 0 < (errno : Nat) := errno.2
    rw [← Option.some.inj code, Errno.code]
    exact .inr (by omega)
  | stopped _ => cases code

section Serves

variable {m m' : Machine} {mapping : Mapping} {argc : Nat} {env : OpenEnv}

/-- The file of a store in service opens with its map. -/
theorem Serves.reopens (serves : Serves m mapping) (file : m'.file = m.file) (enough : 2 ≤ argc)
    (succeeds : env.Succeeds) : Reopens m' argc env mapping := by
  obtain ⟨serving, rfl⟩ := serves
  exact serving.logged.reopens serving.log enough succeeds (by rw [file]) (by rw [file])

/-- An update that did not get as far as its write. -/
theorem Serves.afterRefusal (serves : Serves m mapping) {call : Call} {ret : Int}
    (code : ret ≠ -ENOMEM) (refused : ¬ (call.Accepted m ∧ m.destination ≠ none))
    (file : m'.file = m.file) (enough : 2 ≤ argc) (succeeds : env.Succeeds) :
    AfterFailure m mapping call ret m' argc env := by
  have same := serves.reopens file enough succeeds
  refine ⟨fun _ => same, fun _ => same, ?_, fun _ _ _ _ => same, ?_⟩
  · rintro (noMemory | ⟨accepted, room, _⟩)
    · exact absurd noMemory code
    · exact absurd ⟨accepted, room⟩ refused
  · intro d accepted found _
    exact absurd ⟨accepted, by rw [found]; simp⟩ refused

/-- Whatever part of its block an update has written, and whatever it returned. -/
theorem Serves.afterFailure (serves : Serves m mapping) {call : Call} {write : BlockWrite}
    {key size : UInt64} {valueData : Option Bytes}
    (appends : call.Appends write key size valueData) (accepted : call.Accepted m)
    (noWrap : NoWrap m call) (payload : Payload size valueData) {block : KvBlock}
    (carries : Carries block key size valueData m.nextSequence) {d : Nat}
    (found : m.destination = some d) {ret : Int} (unrefused : ret = -ENOMEM ∨ ret = - EIO ∨ 0 < ret)
    (written : ret = -ENOMEM → sizeofKvBlock ≤ call.changed)
    (file : m'.file = overwritten m.file d block call.changed) (enough : 2 ≤ argc)
    (succeeds : env.Succeeds) : AfterFailure m mapping call ret m' argc env := by
  have known : ∀ {d'}, m.destination = some d' → d' = d :=
    fun found' => Option.some.inj (found'.symm.trans found)
  refine ⟨?_, ?_, ?_, ?_, ?_⟩
  · simp only [EINVAL, ENOENT, ENOSPC, ENOMEM, EIO] at *
    omega
  · intro nothing
    refine serves.reopens ?_ enough succeeds
    rw [file, nothing, overwritten_zero]
  · intro complete
    have full : sizeofKvBlock ≤ call.changed := by
      rcases complete with noMemory | ⟨_, _, full⟩
      · exact written noMemory
      · exact full
    obtain ⟨final, same, serves'⟩ :=
      serves.written accepted appends noWrap payload carries found full
    exact serves'.reopens (file.trans same.symm) enough succeeds
  · intro d' found' behind short
    rw [known found'] at behind
    have dense := (serves.serving.logged.destination_dense serves.serving.log found).1
    have tail : d = blockCount m.file := Nat.le_antisymm dense behind
    obtain ⟨final, same, serves'⟩ := serves.torn_tail short block
    rw [tail, ← same] at file
    exact serves'.reopens file enough succeeds
  · intro d' _ found' inside
    rw [known found'] at inside ⊢
    obtain ⟨serving, rfl⟩ := serves
    obtain ⟨count, others⟩ := @blockAt_overwritten_inside m.file d block call.changed inside
    rw [← file] at count others
    exact serving.logged.reopens_torn_iff serving.log (serving.logged.backed.sound.unnamed found)
      others count enough succeeds

end Serves

/-! ## Failed updates that are there after the next open -/

/-- Maps that a file opens with agree where their values fit in a block. -/
theorem Reopens.agree {m : Machine} {argc : Nat} {env : OpenEnv} {mapping mapping' : Mapping}
    (first : Reopens m argc env mapping) (second : Reopens m argc env mapping') {key : UInt64}
    (small : ∀ bytes, mapping key = some bytes → bytes.length ≤ MAXBLOB)
    (small' : ∀ bytes, mapping' key = some bytes → bytes.length ≤ MAXBLOB) :
    mapping key = mapping' key := by
  obtain ⟨reopened, returned, reads⟩ := first
  obtain ⟨_, returned', reads'⟩ := second
  rw [returned, EStateM.Result.ok.injEq] at returned'
  obtain ⟨_, rfl⟩ := returned'
  obtain ⟨response, got, answers⟩ := reads key .room
  obtain ⟨_, got', answers'⟩ := reads' key .room
  rw [got, EStateM.Result.ok.injEq] at got'
  rw [← got'.1] at answers'
  exact answers.mapping_eq answers' small small'

section Serving

variable {m : Machine} {key : UInt64} {env : BlockWrite} {v : Value}

/-- Sets of one key again and again fill up the file. -/
theorem Serving.fills (succeeds : env.Succeeds)
    (valid : v.size.toNat ≠ 0 ∧ v.size.toNat ≤ MAXBLOB) :
    ∀ (count : Nat) {m : Machine}, Serving m → m.stor.directory.keys ⊆ {key} →
      m.stor.currentSequenceNumber.toNat + count < 2 ^ 64 →
      ∃ responses last, run exec m (List.replicate count (.set env key v)) = .ok responses last ∧
        Serving last ∧ last.stor.directory.keys ⊆ {key} ∧
        min (blockCount m.file + count) capacity ≤ blockCount last.file ∧
        last.stor.currentSequenceNumber.toNat = m.stor.currentSequenceNumber.toNat + count
  | 0, m, serving, only, _ =>
    ⟨[], m, rfl, serving, only, Nat.min_le_left .., rfl⟩
  | count + 1, m, serving, only, short => by
    have noWrap := serving.noWrap (.set env key v) (by omega)
    obtain ⟨next, returned, serving', only', grown, counter⟩ :=
      serving.set_grows only succeeds valid noWrap
    obtain ⟨responses, last, ran, serving'', only'', filled, final⟩ :=
      Serving.fills succeeds valid count serving' only' (by omega)
    refine ⟨⟨0, none⟩ :: responses, last, ?_, serving'', only'', ?_, by omega⟩
    · simp only [List.replicate_succ, run, returned, ran]
    · generalize capacity = full at grown filled ⊢
      omega

/-- A new key whose header has reached a block of the file is there after the next open,
with what follows the header for its value. -/
theorem Serving.torn_header_shows {size : UInt64} {valueData : Option Bytes} (serving : Serving m)
    {d : Nat} (found : m.destination = some d) (inside : d < blockCount m.file) {block : KvBlock}
    {m' : Machine} (carries : Carries block key size valueData m.nextSequence)
    (nonempty : size.toNat ≠ 0) (absent : m.stor.directory.findEntryForKey key = none)
    {count : Nat} (header : 32 ≤ count) (file : m'.file = overwritten m.file d block count)
    {argc : Nat} {reopening : OpenEnv} (enough : 2 ≤ argc) (succeeds : reopening.Succeeds) :
    ¬ Reopens m' argc reopening m.mapping := by
  obtain ⟨torn, stored, copied⟩ := @blockAt_overwritten_header m.file d block count inside header
  obtain ⟨kept, others⟩ := @blockAt_overwritten_inside m.file d block count inside
  rw [← file] at stored kept others
  have written : validBlock m'.file d = some torn := by
    refine validBlock_eq_some.mpr ⟨stored, ?_⟩
    rw [KvBlock.validate, copied]
    exact carries.valid
  have named : torn.header.keyId = key := by rw [copied, carries.keyId]
  have live : torn.header.dataBytes ≠ 0 := by
    intro deleted
    have same := carries.dataBytes
    rw [← copied, deleted] at same
    exact nonempty same.symm
  intro unchanged
  have harmless := (serving.logged.reopens_torn_iff serving.log
    (serving.logged.backed.sound.unnamed found) others kept enough succeeds).mp unchanged
  rcases harmless.2 torn written with ⟨entry, lookup, _⟩ | ⟨_, value⟩
  · rw [named, absent] at lookup
    cases lookup
  · rw [named, Machine.mapping_of_absent absent, KvBlock.value, if_neg live] at value
    cases value

end Serving

/-- The first set of a new store, without memory for its entry. -/
theorem unindexed_set_persists : ∃ next,
    exec (.fresh 3) (.set { BlockWrite.quiet with insert := .tsearchNull } 1 .one) =
      .ok ⟨-ENOMEM, none⟩ next ∧ ¬ Reopens next 2 .quiet Mapping.empty := by
  have serves := serves_created (created_iff.mpr ⟨3, rfl⟩)
  have sound := serves.serving.logged.backed.sound
  have found := fresh_destination 3
  have appends := Call.Appends.set { BlockWrite.quiet with insert := .tsearchNull } 1 .one
  have accepted : (Call.set { BlockWrite.quiet with insert := .tsearchNull } 1 .one).Accepted
      (.fresh 3) := by simp [Call.Accepted, Value.one, MAXBLOB]
  have noWrap := noWrap_fresh 3 (.set { BlockWrite.quiet with insert := .tsearchNull } 1 .one)
  obtain ⟨block, payload, carries, _, _, unindexed⟩ := exec_update_stops sound appends accepted found
  have absent : (Machine.fresh 3).stor.directory.findEntryForKey 1 = none := by
    simp [Machine.fresh, KvStor.initial, KvDirectory.findEntryForKey]
  refine ⟨_, unindexed rfl absent rfl, ?_⟩
  intro unchanged
  have after := @Serves.afterFailure _ ((Machine.fresh 3).wrote 0 block .full) _ 2 .quiet serves _ _
    _ _ _ appends accepted noWrap payload _ carries _ found (-ENOMEM) (.inl rfl)
    (fun _ => Nat.le_refl _) rfl (Nat.le_refl 2) OpenEnv.quiet_succeeds
  have stored : Mapping.empty.record (.set { BlockWrite.quiet with insert := .tsearchNull } 1 .one)
      ⟨0, none⟩ 1 = some [7] := by decide
  have same := unchanged.agree (after.complete (.inl rfl)) (fun bytes impossible => by cases impossible)
    (fun bytes value => by rw [stored] at value; cases value; decide)
  rw [stored] at same
  cases same

/-- A set of a second key, cut short behind its header, when the file has its full size. -/
theorem torn_set_persists : ∃ responses last next,
    run exec (.fresh 3) (List.replicate capacity (.set .quiet 1 .one)) = .ok responses last ∧
      exec last (.set { BlockWrite.quiet with write := .short 32 } 2 .one) =
        .ok ⟨- EIO, none⟩ next ∧ Reads last last.mapping ∧ ¬ Reopens next 2 .quiet last.mapping := by
  obtain ⟨start, _, empty, counter⟩ := serving_created (created_iff.mpr ⟨3, rfl⟩)
  have valid : Value.one.size.toNat ≠ 0 ∧ Value.one.size.toNat ≤ MAXBLOB := by decide
  obtain ⟨responses, last, ran, serving, only, filled, counted⟩ :=
    @Serving.fills 1 .quiet .one BlockWrite.quiet_succeeds valid capacity (.fresh 3) start
      (by rw [empty]; exact Finset.empty_subset _) (by rw [counter]; decide)
  have sound := serving.logged.backed.sound
  obtain ⟨d, found⟩ := sound.room (card_lt_capacity only)
  have appends := Call.Appends.set { BlockWrite.quiet with write := .short 32 } 2 .one
  obtain ⟨block, payload, carries, _, failed, _⟩ := exec_update_stops sound appends valid found
  have code : WriteResult.code (.short 32) = some (- EIO) := by decide
  refine ⟨responses, last, _, ran, failed _ code (by decide), ?_, ?_⟩
  · exact Serves.reads ⟨serving, rfl⟩
  · have inside : d < blockCount last.file := by
      have bound := (sound.destination_free found).1
      rw [sound.owns.size] at bound
      omega
    have absent : last.stor.directory.findEntryForKey 2 = none := by
      cases lookup : last.stor.directory.findEntryForKey 2 with
      | none => rfl
      | some entry =>
        have other := Finset.mem_singleton.mp (only (KvDirectory.mem_keys.mpr ⟨entry, lookup⟩))
        exact absurd other (by decide)
    exact @Serving.torn_header_shows last 2 Value.one.size (some Value.one.data) serving d found inside
      block (last.wrote d block (.short 32)) carries valid.1 absent 32 (by decide) rfl 2 .quiet
      (Nat.le_refl 2) OpenEnv.quiet_succeeds

/-! ## All failures -/

/-- What a failed update leaves behind, for every way to fail: the map of before the call,
that of the completed call, or what the torn block makes of it. -/
theorem failed_update_reopened {m : Machine} (created : Created m) {calls : List Call}
    (undisturbed : Allowed exec Undisturbed m calls) :
    ∃ responses last, run exec m calls = .ok responses last ∧
      ∀ call, call.IsUpdate → NoWrap last call → ∀ ret next,
        exec last call = .ok ⟨ret, none⟩ next → ret ≠ 0 →
        ∀ argc env, 2 ≤ argc → env.Succeeds →
          AfterFailure last (track Mapping.record Mapping.empty calls responses) call ret next
            argc env := by
  obtain ⟨responses, last, returned, _, serves⟩ := (serves_created created).run undisturbed
  refine ⟨responses, last, returned, ?_⟩
  intro call update noWrap ret next ended nonzero argc env enough succeeds
  obtain ⟨write, key, size, valueData, appends⟩ := Call.Appends.isUpdate_iff.mp update
  have outcome := exec_update serves.serving.logged.backed.sound appends
  rw [ended] at outcome
  generalize resulted : EStateM.Result.ok (⟨ret, none⟩ : Response) next = result at outcome
  have changed := appends.changed_eq
  cases outcome with
  | rejected refused =>
    cases resulted
    refine serves.afterRefusal ?_ (fun both => refused both.1) rfl enough succeeds
    cases call <;> simp [Call.rejection, EINVAL, ENOENT, ENOMEM]
  | appended accepted payload carries outcome =>
    cases outcome with
    | full none_ =>
      cases resulted
      exact serves.afterRefusal (by decide) (fun both => both.2 none_) rfl enough succeeds
    | failed found code _ =>
      cases resulted
      have failed := WriteResult.code_failed code nonzero
      refine serves.afterFailure appends accepted noWrap payload carries found (.inr failed) ?_
        (by rw [changed]; rfl) enough succeeds
      simp only [ENOMEM, EIO] at *
      omega
    | tsearchNull found code _ _ =>
      cases resulted
      refine serves.afterFailure appends accepted noWrap payload carries found (.inl rfl) ?_
        (by rw [changed]; rfl) enough succeeds
      intro _
      rw [changed]
      exact WriteResult.changed_of_code_zero code
    | done =>
      cases resulted
      exact absurd rfl nonzero
    | _ => cases resulted

theorem failed_update_reopened_unindexed : ∃ next,
    exec (.fresh 3) (.set { BlockWrite.quiet with insert := .tsearchNull } 1 .one) =
        .ok ⟨-ENOMEM, none⟩ next ∧
      Reopens next 2 .quiet (Mapping.empty.record
        (.set { BlockWrite.quiet with insert := .tsearchNull } 1 .one) ⟨0, none⟩) := by
  obtain ⟨next, ended, _⟩ := unindexed_set_persists
  obtain ⟨responses, last, returned, after⟩ :=
    @failed_update_reopened (.fresh 3) (created_iff.mpr ⟨3, rfl⟩) [] trivial
  cases returned
  have left := after (.set { BlockWrite.quiet with insert := .tsearchNull } 1 .one) trivial
    (noWrap_fresh 3 _) _ next ended (by decide) 2 .quiet (Nat.le_refl 2) OpenEnv.quiet_succeeds
  exact ⟨next, ended, left.complete (.inl rfl)⟩

/-- A failed update can be there after the next open: one whose entry could not be made,
and one that was cut short over a block of the file. -/
theorem failed_update_persists :
    Created (.fresh 3) ∧
    (∃ next, exec (.fresh 3) (.set { BlockWrite.quiet with insert := .tsearchNull } 1 .one) =
        .ok ⟨-ENOMEM, none⟩ next ∧
      Reads (.fresh 3) Mapping.empty ∧ ¬ Reopens next 2 .quiet Mapping.empty) ∧
    Allowed exec Undisturbed (.fresh 3) (List.replicate capacity (.set .quiet 1 .one)) ∧
    ∃ responses last next,
      run exec (.fresh 3) (List.replicate capacity (.set .quiet 1 .one)) = .ok responses last ∧
        exec last (.set { BlockWrite.quiet with write := .short 32 } 2 .one) =
          .ok ⟨- EIO, none⟩ next ∧
        Reads last last.mapping ∧ ¬ Reopens next 2 .quiet last.mapping := by
  have created : Created (.fresh 3) := created_iff.mpr ⟨3, rfl⟩
  obtain ⟨next, ended, persists⟩ := unindexed_set_persists
  refine ⟨created, ⟨next, ended, (serves_created created).reads, persists⟩, ?_, torn_set_persists⟩
  refine allowed_fresh 3 ?_ (by rw [List.length_replicate]; decide)
  intro call member
  rw [List.eq_of_mem_replicate member]
  exact BlockWrite.quiet_succeeds

end KeyValueStore
