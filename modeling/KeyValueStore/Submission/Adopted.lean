import Mathlib.Data.List.MinMax
import KeyValueStore.Submission.AnyLog
import KeyValueStore.Submission.FailedUpdate
import KeyValueStore.Submission.Refinement

/-! # A store on a file it did not write

`fileReference` reads a map off a file: the value of the newest valid block of each key.
A file that can be adopted, whoever wrote it, opens with this map, and the store keeps
the two together in all that may happen to it from there: calls, failing ones among
them, and crashes (`adopted_file_serves_map`).  `Adopted` is the invariant; it is tied
to the file and not to the memory, so that a crash is no special case. -/

namespace KeyValueStore

open Runs VersionLog

/-! ## The map of a file -/

/-- The valid blocks of the file, in order. -/
def fileBlocks (file : Bytes) : List KvBlock :=
  (List.range (blockCount file)).filterMap (validBlock file)

/-- The block of the key with the greatest sequence. -/
def newestBlock (file : Bytes) (key : UInt64) : Option KvBlock :=
  ((fileBlocks file).filter fun block => block.header.keyId = key).argmax
    fun block => block.header.sequence.toNat

def fileMapping (file : Bytes) : Mapping := fun key => (newestBlock file key).bind KvBlock.value

def fileKeys (file : Bytes) : Finset UInt64 :=
  ((fileBlocks file).map fun block => block.header.keyId).toFinset

def fileReference (file : Bytes) : Reference := ⟨fileMapping file, fileKeys file⟩

theorem mem_fileBlocks {file : Bytes} {block : KvBlock} :
    block ∈ fileBlocks file ↔ ∃ b, validBlock file b = some block := by
  rw [fileBlocks, List.mem_filterMap]
  constructor
  · rintro ⟨b, _, valid⟩
    exact ⟨b, valid⟩
  · rintro ⟨b, valid⟩
    have inside := blockAt_isSome (validBlock_eq_some.mp valid).1
    exact ⟨b, List.mem_range.mpr inside, valid⟩

theorem mem_fileKeys {file : Bytes} {key : UInt64} :
    key ∈ fileKeys file ↔ ∃ b seq, fileLog file b = some (key, seq) := by
  simp only [fileKeys, List.mem_toFinset, List.mem_map, mem_fileBlocks]
  constructor
  · rintro ⟨block, ⟨b, valid⟩, rfl⟩
    exact ⟨b, _, fileLog_of_valid valid⟩
  · rintro ⟨b, seq, stored⟩
    obtain ⟨block, valid, version⟩ := fileLog_eq_some.mp stored
    exact ⟨block, ⟨b, valid⟩, congrArg Prod.fst version⟩

theorem newestBlock_of_absent {file : Bytes} {key : UInt64} (absent : Absent (fileLog file) key) :
    newestBlock file key = none := by
  rw [newestBlock, List.argmax_eq_none, List.filter_eq_nil_iff]
  intro block member
  obtain ⟨b, valid⟩ := mem_fileBlocks.mp member
  have stored := fileLog_of_valid valid
  simp only [decide_eq_true_eq]
  rintro rfl
  exact absent b _ stored

/-- The latest version of a key is its newest block: no other block ties with it. -/
theorem newestBlock_of_latest {file : Bytes} {key : UInt64} {b seq : Nat} {block : KvBlock}
    (latest : Latest (fileLog file) key b seq) (valid : validBlock file b = some block) :
    newestBlock file key = some block := by
  obtain ⟨stored, greatest⟩ := latest
  have version := fileLog_of_valid valid
  rw [stored, Option.some.injEq, Prod.mk.injEq] at version
  have member : block ∈ (fileBlocks file).filter fun block => block.header.keyId = key := by
    rw [List.mem_filter, mem_fileBlocks]
    exact ⟨⟨b, valid⟩, decide_eq_true version.1.symm⟩
  cases found : newestBlock file key with
  | none =>
    rw [newestBlock, List.argmax_eq_none] at found
    rw [found] at member
    exact absurd member List.not_mem_nil
  | some newest =>
    have best := List.le_of_mem_argmax member (Option.mem_def.mpr found)
    obtain ⟨held, same⟩ := List.mem_filter.mp (List.argmax_mem (Option.mem_def.mpr found))
    obtain ⟨b', valid'⟩ := mem_fileBlocks.mp held
    have stored' := fileLog_of_valid valid'
    rw [of_decide_eq_true same] at stored'
    by_cases other : b' = b
    · rw [other, valid] at valid'
      exact valid'.symm
    · have behind := greatest b' _ stored' other
      omega

/-- A logged store holds the map of its file. -/
theorem Logged.fileMapping_eq {m : Machine} (logged : Logged m) :
    fileMapping m.file = m.mapping := by
  funext key
  cases named : m.stor.directory.index key with
  | none =>
    have absent := newestBlock_of_absent (logged.indexes.absent_iff.mp named)
    rw [fileMapping, absent, Option.bind_none,
      Machine.mapping_of_absent (KvDirectory.index_eq_none.mp named)]
  | some version =>
    obtain ⟨b, seq⟩ := version
    have latest := logged.indexes.latest named
    obtain ⟨block, valid, _⟩ := fileLog_eq_some.mp latest.1
    obtain ⟨_, _, _, value⟩ := logged.backed.toReadable.named named valid
    rw [fileMapping, newestBlock_of_latest latest valid, Option.bind_some, value]

theorem Logged.fileKeys_eq {m : Machine} (logged : Logged m) :
    fileKeys m.file = m.stor.directory.keys := by
  ext key
  rw [mem_fileKeys, KvDirectory.mem_keys]
  constructor
  · rintro ⟨b, seq, stored⟩
    obtain ⟨⟨slot, latest⟩, named⟩ := logged.indexes.complete stored
    obtain ⟨entry, found, _⟩ := KvDirectory.index_eq_some.mp named
    exact ⟨entry, found⟩
  · rintro ⟨entry, found⟩
    exact ⟨_, _, (logged.indexes.latest (KvDirectory.index_of_found found)).1⟩

theorem Logged.fileReference_eq {m : Machine} (logged : Logged m) :
    fileReference m.file = ⟨m.mapping, m.stor.directory.keys⟩ := by
  rw [fileReference, logged.fileMapping_eq, logged.fileKeys_eq]

/-! ## Files with the same whole blocks -/

section Same

variable {file file' : Bytes} (same : blockAt file' = blockAt file)
  (count : blockCount file' = blockCount file)

include same

theorem validBlock_congr : validBlock file' = validBlock file := by
  funext b
  rw [validBlock, validBlock, same]

include count

theorem fileReference_congr : fileReference file' = fileReference file := by
  have blocks : fileBlocks file' = fileBlocks file := by
    rw [fileBlocks, fileBlocks, count, validBlock_congr same]
  have newest : newestBlock file' = newestBlock file := by
    funext key
    rw [newestBlock, newestBlock, blocks]
  rw [fileReference, fileReference, fileKeys, fileKeys, blocks]
  simp only [Reference.mk.injEq, and_true]
  funext key
  rw [fileMapping, fileMapping, newest]

theorem AdoptableLog.congr (log : AdoptableLog file) : AdoptableLog file' where
  count := count ▸ log.count
  fits := by
    intro b block valid
    rw [validBlock_congr same] at valid
    exact log.fits valid
  distinct := by
    intro slot slot' version stored stored'
    rw [fileLog_congr (congrFun same slot)] at stored
    rw [fileLog_congr (congrFun same slot')] at stored'
    exact log.distinct slot slot' version stored stored'

end Same

/-! ## What may happen to a store -/

/-- A call, or the death of the process during one: `count` bytes of its block, if it gets
to write one, are in the file when the next process opens it. -/
inductive Event where
  | call (call : Call)
  | crash (call : Call) (count argc : Nat) (env : OpenEnv)

def execEvent (m : Machine) : Event → EStateM.Result Fault Machine Response
  | .call call => exec m call
  | .crash call count argc env =>
    -- An update that its checks refuse, or that finds no room, dies after it.
    match exec m (call.stoppedAt count) with
    | .ok _ next | .error _ next => exec next (.reopen argc env)

/-- A block write changes its whole block or nothing, and the entry is added; any read may
fail, but those of an open. -/
def Call.Tolerable : Call → Prop
  | .set env _ _ | .del env _ => env.write.AllOrNothing ∧ env.insert = .inserted
  | .get .. => True
  | .reopen argc env => 2 ≤ argc ∧ env.Succeeds

/-- A crash leaves no half of a block but behind the last whole one, and the next open is
let through. -/
def Survivable (m : Machine) : Event → Prop
  | .call call => call.Tolerable ∧ NoWrap m call
  | .crash call count argc env => call.IsUpdate ∧ (2 ≤ argc ∧ env.Succeeds) ∧
      m.stor.currentSequenceNumber.toNat + 2 < 2 ^ 64 ∧
      (count = 0 ∨ sizeofKvBlock ≤ count ∨ m.destination = some (blockCount m.file))

/-! ## The events of the map -/

instance (mapping : Mapping) (call : Call) : Decidable (NeedsRoom mapping call) :=
  match call with
  | .set _ _ v => inferInstanceAs (Decidable (v.size.toNat ≠ 0 ∧ v.size.toNat ≤ MAXBLOB))
  | .del _ key => inferInstanceAs (Decidable (mapping key ≠ none))
  | .get .. | .reopen .. => inferInstanceAs (Decidable False)

/-- An update that a crash cuts short counts exactly if all of its block is in the file. -/
def Reference.recordEvent (reference : Reference) : Event → Response → Reference
  | .call call, response => reference.record call response
  | .crash call count _ _, _ =>
    if sizeofKvBlock ≤ count ∧ NeedsRoom reference.mapping call ∧
        reference.everSet.card < capacity then
      reference.record call ⟨0, none⟩
    else reference

/-- The call fails with the code of its write, or because its read does not deliver. -/
def FailsCleanly : Call → Response → Prop
  | .set env _ _, response | .del env _, response =>
    env.write.code = some response.ret ∧ response.ret ≠ 0
  | .get read _ v, response => ¬ read.Delivers ∧ response.ret ≠ 0 ∧ response.value = some v
  | .reopen .., _ => False

def AnswersEvent (reference : Reference) : Event → Response → Prop
  | .call call, response =>
    Answers reference.mapping call response ∧ AnswersRoom reference call response ∨
      FailsCleanly call response
  | .crash .., response => response.ret = 0

/-! ## The invariant -/

/-- The store agrees with its file, and the file holds this map. -/
structure Adopted (m : Machine) (reference : Reference) : Prop where
  opened : m.opened = true
  log : AdoptableLog m.file
  logged : Logged m
  reads : fileReference m.file = reference

/-- The next block leaves no gap in the file. -/
theorem Logged.destination_le {m : Machine} (logged : Logged m) {d : Nat}
    (found : m.destination = some d) : d ≤ blockCount m.file := by
  have inside := (logged.backed.sound.destination_free found).1
  obtain ⟨point, after, next⟩ := logged.follows
  rw [found] at next
  by_cases small : blockCount m.file < m.stor.blockAllocator.numberOfBlocks
  · have free : blockCount m.file ∉ m.stor.blockAllocator.allocated := by
      intro held
      exact absurd (logged.allocated_lt held) (Nat.lt_irrefl _)
    refine KvBlockAllocator.nextFree_le ?_ small free next.symm
    rcases after with ⟨_, rfl⟩ | ⟨seq, ⟨key, stored⟩, _⟩
    · exact Nat.zero_le _
    · exact Nat.le_of_lt (fileLog_lt stored)
  · omega

/-- With nothing in the way a file that can be adopted opens with its map. -/
theorem adopt {m : Machine} (log : AdoptableLog m.file) {argc : Nat} {env : OpenEnv}
    (undisturbed : Undisturbed m (.reopen argc env)) :
    ∃ opened, exec m (.reopen argc env) = .ok ⟨0, none⟩ opened ∧
      Adopted opened (fileReference m.file) := by
  obtain ⟨stor, returned, logged, _⟩ := exec_reopen_undisturbed log undisturbed
  exact ⟨_, returned, rfl, log, logged, rfl⟩

namespace Adopted

variable {m : Machine} {reference : Reference}

theorem mapping (adopted : Adopted m reference) : m.mapping = reference.mapping := by
  rw [← adopted.reads, adopted.logged.fileReference_eq]

theorem keys (adopted : Adopted m reference) : m.stor.directory.keys = reference.everSet := by
  rw [← adopted.reads, adopted.logged.fileReference_eq]

theorem accepted_iff (adopted : Adopted m reference) (call : Call) :
    call.Accepted m ↔ NeedsRoom reference.mapping call := by
  rw [← adopted.mapping]
  cases call with
  | set _ _ _ | get _ _ _ | reopen _ _ => exact Iff.rfl
  | del env key =>
    simp only [Call.Accepted, NeedsRoom, ne_eq, adopted.logged.backed.legible.mapping_eq_none,
      not_not]

/-- There is a block to write to exactly if some block has no key. -/
theorem room_iff (adopted : Adopted m reference) :
    m.destination = none ↔ reference.everSet.card = capacity := by
  rw [← adopted.keys]
  exact adopted.logged.backed.sound.destination_eq_none

theorem searched (adopted : Adopted m reference) (searched : Logged m.searched) :
    Adopted m.searched reference :=
  ⟨adopted.opened, adopted.log, searched, adopted.reads⟩

/-- A block that is written completely makes the update last. -/
theorem committed (adopted : Adopted m reference) {call : Call} {env : BlockWrite}
    {key size : UInt64} {valueData : Option Bytes} {block : KvBlock} {d : Nat}
    {write : WriteResult} {allocator : KvBlockAllocator} (accepted : call.Accepted m)
    (appends : call.Appends env key size valueData)
    (noWrap : m.stor.currentSequenceNumber.toNat + 1 < 2 ^ 64) (found : m.destination = some d)
    (payload : Payload size valueData) (carries : Carries block key size valueData m.nextSequence)
    (full : sizeofKvBlock ≤ write.changed)
    (marks : Marks m.stor.directory m.stor.blockAllocator key d allocator) :
    Adopted (m.committed d block write ⟨key, m.nextSequence, d, size.toUInt16⟩ allocator)
      (reference.record call ⟨0, none⟩) := by
  have logged := adopted.logged
  have dense := logged.destination_le found
  have committed := logged.committed_of_le noWrap found dense full carries payload marks
  have inside := (logged.backed.sound.destination_free found).1
  rw [logged.backed.sound.owns.size] at inside
  refine ⟨adopted.opened, ⟨?_, ?_, ?_⟩, committed, ?_⟩
  · have counted := adopted.log.count
    show blockCount (overwritten m.file d block write.changed) ≤ capacity
    rw [blockCount_overwritten_full full]
    omega
  · intro b held valid
    have changed := validBlock_overwritten full dense carries.valid
    by_cases same : b = d
    · have fits := payload.fits
      simp only [Machine.committed, Machine.wrote, changed, same, Function.update_self,
        Option.some.injEq] at valid
      rw [← valid, carries.dataBytes, MAXBLOB]
      omega
    · simp only [Machine.committed, Machine.wrote, changed, Function.update_of_ne same] at valid
      exact adopted.log.fits valid
  · show DistinctVersions (fileLog (overwritten m.file d block write.changed))
    rw [fileLog_overwritten full dense carries.valid]
    refine adopted.log.distinct.record ?_
    intro b stored
    have below := logged.fresh noWrap b _ _ stored
    rw [carries.sequence_eq] at below
    exact absurd below (Nat.lt_irrefl _)
  · rw [committed.fileReference_eq, Reference.record, ← adopted.mapping, ← adopted.keys]
    rw [logged.backed.mapping_committed accepted appends payload carries found full]
    rw [← Serving.recordKey_update appends accepted]
    exact congrArg _ (KvDirectory.keys_withEntry _ _)

end Adopted

/-! ## One event -/

theorem Reference.record_of_ne_zero {reference : Reference} {call : Call} {response : Response}
    (failed : response.ret ≠ 0) : reference.record call response = reference :=
  congrArg₂ Reference.mk (Mapping.record_of_ne_zero failed) (if_neg failed)

namespace Adopted

variable {m : Machine} {reference : Reference}

theorem update (adopted : Adopted m reference) {call : Call} {env : BlockWrite}
    {key size : UInt64} {valueData : Option Bytes} (appends : call.Appends env key size valueData)
    (all : env.write.AllOrNothing) (insert : env.insert = .inserted) (noWrap : NoWrap m call) :
    ∃ response next, exec m call = .ok response next ∧
      AnswersEvent reference (.call call) response ∧
      Adopted next (reference.record call response) := by
  have answers {ret : Int} := @adopted.logged.backed.answers_update _ _ _ _ _ _ appends ret
  rw [adopted.mapping] at answers
  have accepts := adopted.accepted_iff call
  have room := adopted.room_iff
  have outcome := adopted.logged.update_outcome appends noWrap all (by rw [insert]; decide)
  generalize exec m call = result at outcome
  cases outcome with
  | rejected refused =>
    have code : call.rejection ≠ -ENOSPC := by
      cases call <;> simp [Call.rejection, EINVAL, ENOENT, ENOSPC]
    refine ⟨_, m, rfl, .inl ⟨answers (.inr ⟨refused, rfl⟩), ?_⟩, ?_⟩
    · exact iff_of_false code fun needs => refused (accepts.mpr needs.1)
    · rw [Reference.record_of_ne_zero call.rejection_ne_zero]
      exact adopted
  | full accepted none_ searched =>
    refine ⟨_, _, rfl, .inl ⟨answers (.inl ⟨accepted, .inr rfl⟩), ?_⟩, ?_⟩
    · exact iff_of_true rfl ⟨accepts.mp accepted, room.mp none_⟩
    · rw [Reference.record_of_ne_zero (by decide)]
      exact adopted.searched searched
  | failed _ _ code nonzero searched =>
    refine ⟨_, _, rfl, .inr ?_, ?_⟩
    · cases appends <;> exact ⟨code, nonzero⟩
    · rw [Reference.record_of_ne_zero nonzero]
      exact adopted.searched searched
  | crashed failed =>
    rw [insert] at failed
    cases failed
  | done accepted found payload carries full marks =>
    refine ⟨_, _, rfl, .inl ⟨answers (.inl ⟨accepted, .inl rfl⟩), ?_⟩, ?_⟩
    · refine iff_of_false enospc_ne.2.2.1 fun needs => ?_
      rw [room.mpr needs.2] at found
      cases found
    · exact adopted.committed accepted appends (noWrap.1 accepted) found payload carries full marks

theorem get (adopted : Adopted m reference) (read : ReadResult) (key : UInt64) (v : Value) :
    ∃ response, exec m (.get read key v) = .ok response m ∧
      AnswersEvent reference (.call (.get read key v)) response := by
  obtain ⟨response, returned, answers | failed⟩ := adopted.logged.backed.get read key v
  · rw [adopted.mapping] at answers
    refine ⟨response, returned, .inl ⟨answers, ?_⟩⟩
    exact iff_of_false answers.get_ne_enospc fun needs => needs.1
  · exact ⟨response, returned, .inr failed⟩

theorem call (adopted : Adopted m reference) {call : Call} (tolerable : call.Tolerable)
    (noWrap : NoWrap m call) :
    ∃ response next, exec m call = .ok response next ∧
      AnswersEvent reference (.call call) response ∧
      Adopted next (reference.record call response) := by
  cases call with
  | set env key v => exact adopted.update (.set env key v) tolerable.1 tolerable.2 noWrap
  | del env key => exact adopted.update (.del env key) tolerable.1 tolerable.2 noWrap
  | get read key v =>
    obtain ⟨response, returned, answers⟩ := adopted.get read key v
    refine ⟨response, m, returned, answers, ?_⟩
    simp only [Reference.record, Mapping.record, recordKey, ite_self]
    exact adopted
  | reopen argc env =>
    obtain ⟨opened, returned, adopted'⟩ := adopt adopted.log ⟨tolerable, noWrap⟩
    refine ⟨_, opened, returned, .inl ⟨rfl, ?_⟩, adopted.reads ▸ adopted'⟩
    exact iff_of_false enospc_ne.2.2.1 fun needs => needs.1

end Adopted

/-! ## Crashes -/

/-- The file opens with this map, and the sequences in it go up to `bound` at most. -/
structure Leaves (file : Bytes) (reference : Reference) (bound : Nat) : Prop where
  log : AdoptableLog file
  reads : fileReference file = reference
  bounded : ∀ b key seq, fileLog file b = some (key, seq) → seq ≤ bound

theorem Leaves.congr {file file' : Bytes} {reference : Reference} {bound : Nat}
    (leaves : Leaves file reference bound) (same : blockAt file' = blockAt file)
    (count : blockCount file' = blockCount file) : Leaves file' reference bound where
  log := leaves.log.congr same count
  reads := (fileReference_congr same count).trans leaves.reads
  bounded := by
    intro b key seq stored
    rw [fileLog_congr (congrFun same b)] at stored
    exact leaves.bounded b key seq stored

/-- The memory of the process that left the file does not matter. -/
theorem Leaves.opens {m : Machine} {reference : Reference} {bound : Nat}
    (leaves : Leaves m.file reference bound) (small : bound + 1 < 2 ^ 64) {argc : Nat}
    {env : OpenEnv} (succeeds : 2 ≤ argc ∧ env.Succeeds) :
    ∃ opened, exec m (.reopen argc env) = .ok ⟨0, none⟩ opened ∧ Adopted opened reference := by
  rw [← leaves.reads]
  refine adopt leaves.log ⟨succeeds, fun impossible => absurd impossible id, ?_⟩
  intro _ _ _ b block valid
  have below := leaves.bounded b _ _ (fileLog_of_valid valid)
  omega

namespace Adopted

variable {m : Machine} {reference : Reference}

theorem leaves (adopted : Adopted m reference) :
    Leaves m.file reference m.stor.currentSequenceNumber.toNat :=
  ⟨adopted.log, adopted.reads, adopted.logged.counted⟩

/-- The file that a process leaves which dies during an update. -/
theorem crashed (adopted : Adopted m reference) {call : Call} {env : BlockWrite}
    {key size : UInt64} {valueData : Option Bytes} (appends : call.Appends env key size valueData)
    {count argc : Nat} {openEnv : OpenEnv}
    (survivable : Survivable m (.crash call count argc openEnv)) :
    ∃ next, execEvent m (.crash call count argc openEnv) = exec next (.reopen argc openEnv) ∧
      Leaves next.file (reference.recordEvent (.crash call count argc openEnv) ⟨0, none⟩)
        (m.stor.currentSequenceNumber.toNat + 1) := by
  obtain ⟨_, _, small, whole⟩ := survivable
  have sound := adopted.logged.backed.sound
  have accepts : (call.stoppedAt count).Accepted m ↔ NeedsRoom reference.mapping call := by
    rw [← adopted.accepted_iff call]
    cases appends <;> exact Iff.rfl
  have unchanged : Leaves m.file reference (m.stor.currentSequenceNumber.toNat + 1) :=
    ⟨adopted.log, adopted.reads, fun b key seq stored =>
      Nat.le_succ_of_le (adopted.logged.counted b key seq stored)⟩
  have outcome := exec_update sound (appends.stoppedAt count)
  simp only [execEvent, Reference.recordEvent]
  generalize exec m (call.stoppedAt count) = result at outcome
  cases outcome with
  | rejected refused =>
    rw [if_neg fun counts => refused (accepts.mpr counts.2.1)]
    exact ⟨m, rfl, unchanged⟩
  | @appended block _ accepted payload carries outcome =>
    cases outcome with
    | full none_ =>
      rw [if_neg fun counts => Nat.ne_of_lt counts.2.2 (adopted.room_iff.mp none_)]
      exact ⟨m.searched, rfl, unchanged⟩
    | @stopped d found _ =>
      refine ⟨m.wrote d block (.stopped count), rfl, ?_⟩
      have room : reference.everSet.card < capacity := by
        refine lt_of_le_of_ne ?_ ?_
        · rw [← adopted.keys]
          exact sound.owns.card_le
        · rw [ne_eq, ← adopted.room_iff, found]
          simp
      by_cases full : sizeofKvBlock ≤ count
      · rw [if_pos ⟨full, accepts.mp accepted, room⟩]
        have inside := (sound.destination_free found).1
        obtain ⟨_, marked, _, _, marks⟩ := freeReplaced_mark sound.owns.covers key inside rfl
        have needs := (adopted.accepted_iff call).mpr (accepts.mp accepted)
        have changed : sizeofKvBlock ≤ (WriteResult.stopped count).changed := full
        have committed :=
          adopted.committed needs appends (by omega) found payload carries changed marks
        have next := @Machine.nextSequence_toNat m (by omega)
        obtain ⟨log, reads, bounded⟩ := committed.leaves
        exact ⟨log, reads, fun b key seq stored => next ▸ bounded b key seq stored⟩
      · rw [if_neg fun counts => full counts.1]
        rcases whole with rfl | impossible | tail
        · rw [Machine.wrote_nothing rfl]
          exact unchanged
        · exact absurd impossible full
        · rw [tail, Option.some.injEq] at found
          obtain ⟨kept, same⟩ :=
            @blockAt_overwritten_short m.file d block count (Nat.not_le.mp full) found.symm
          exact unchanged.congr same kept
    -- A process that is stopped gets no code from its write.
    | failed _ code | reused _ code | stale _ code | mallocNull _ code | tsearchNull _ code
    | done _ code => cases code

theorem step {event : Event} (adopted : Adopted m reference) (survivable : Survivable m event) :
    ∃ response next, execEvent m event = .ok response next ∧
      AnswersEvent reference event response ∧
      Adopted next (reference.recordEvent event response) := by
  cases event with
  | call call => exact adopted.call survivable.1 survivable.2
  | crash call count argc env =>
    obtain ⟨update, succeeds, small, _⟩ := id survivable
    obtain ⟨_, _, _, _, appends⟩ := Call.Appends.isUpdate_iff.mp update
    obtain ⟨next, dies, leaves⟩ := adopted.crashed appends survivable
    obtain ⟨opened, returned, adopted'⟩ := leaves.opens (by omega) succeeds
    exact ⟨_, opened, dies.trans returned, rfl, adopted'⟩

end Adopted

/-! ## Whole runs -/

/-- A file that can be adopted opens, and from there every response is that of the map the
file held, through any number of calls that fail cleanly and of crashes; the file that is
left at the end can be adopted again and holds the map of the end. -/
theorem adopted_file_serves_map {m : Machine} (log : AdoptableLog m.file) {argc : Nat}
    {env : OpenEnv} (undisturbed : Undisturbed m (.reopen argc env)) :
    ∃ opened, exec m (.reopen argc env) = .ok ⟨0, none⟩ opened ∧
      ∀ events, Allowed execEvent Survivable opened events →
        ∃ responses last, run execEvent opened events = .ok responses last ∧
          Conforms Reference.recordEvent AnswersEvent (fileReference m.file) events responses ∧
          AdoptableLog last.file ∧
          fileReference last.file =
            track Reference.recordEvent (fileReference m.file) events responses := by
  obtain ⟨opened, returned, adopted⟩ := adopt log undisturbed
  refine ⟨opened, returned, ?_⟩
  intro events survivable
  obtain ⟨responses, last, ran, conforms, final⟩ := run_refines Adopted.step adopted survivable
  exact ⟨responses, last, ran, conforms, final.log, final.reads⟩

theorem adoptable_outOfOrder : AdoptableLog outOfOrder where
  count := by
    rw [blockCount_outOfOrder, capacity, MAXKEYS]
    decide
  fits := by
    intro b block valid
    rcases validBlock_outOfOrder valid with ⟨_, rfl⟩ | ⟨_, rfl⟩ <;> decide
  distinct := by
    intro b b' version stored stored'
    obtain ⟨block, valid, rfl⟩ := fileLog_eq_some.mp stored
    obtain ⟨block', valid', same⟩ := fileLog_eq_some.mp stored'
    have apart : KvBlock.sample.version ≠ KvBlock.outdated.version := by decide
    rcases validBlock_outOfOrder valid with ⟨rfl, rfl⟩ | ⟨rfl, rfl⟩ <;>
      rcases validBlock_outOfOrder valid' with ⟨rfl, rfl⟩ | ⟨rfl, rfl⟩
    · rfl
    · exact absurd same.symm apart
    · exact absurd same apart
    · rfl

/-- The process dies right after it has written a block over the outdated version. -/
theorem adopted_file_serves_map_out_of_order :
    ∃ opened responses last,
      run execEvent opened [.crash (.set .quiet 1 .one) sizeofKvBlock 2 .quiet,
        .call (.get .full 1 .one)] = .ok responses last ∧
      Conforms Reference.recordEvent AnswersEvent (fileReference outOfOrder)
        [.crash (.set .quiet 1 .one) sizeofKvBlock 2 .quiet, .call (.get .full 1 .one)]
        responses := by
  have small : ∀ b block, validBlock outOfOrder b = some block →
      block.header.sequence.toNat ≤ 5 := by
    intro b block valid
    rcases validBlock_outOfOrder valid with ⟨_, rfl⟩ | ⟨_, rfl⟩ <;> decide
  have undisturbed : Undisturbed ⟨outOfOrder, .initial none, false⟩ (.reopen 2 .quiet) := by
    refine ⟨⟨Nat.le_refl _, OpenEnv.quiet_succeeds⟩, fun impossible => absurd impossible id, ?_⟩
    intro _ _ _ b block valid
    have bound := small b block valid
    omega
  obtain ⟨opened, returned, serves⟩ := @adopted_file_serves_map ⟨outOfOrder, .initial none, false⟩
    adoptable_outOfOrder 2 .quiet undisturbed
  have counter : opened.stor.currentSequenceNumber.toNat ≤ 6 := by
    refine (reopen_returned returned).2.bounded 6 ?_
    intro b key seq stored
    obtain ⟨block, valid, version⟩ := fileLog_eq_some.mp (below_eq_some.mp stored).2
    have bound := small b block valid
    rw [KvBlock.version, Prod.mk.injEq] at version
    omega
  obtain ⟨responses, last, ran, conforms, _⟩ := serves
    [.crash (.set .quiet 1 .one) sizeofKvBlock 2 .quiet, .call (.get .full 1 .one)]
    ⟨⟨trivial, ⟨Nat.le_refl _, OpenEnv.quiet_succeeds⟩, by omega, .inr (.inl (Nat.le_refl _))⟩,
      fun _ _ _ => ⟨⟨trivial, fun impossible => absurd impossible id,
        fun _ _ impossible => by cases impossible⟩, fun _ _ _ => trivial⟩⟩
  exact ⟨opened, responses, last, ran, conforms⟩

end KeyValueStore
