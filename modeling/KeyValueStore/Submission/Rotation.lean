import Mathlib.Data.Set.Basic
import KeyValueStore.Submission.Consistency

/-! # Where the log grows

The successful block writes of a run, in order (`writes`).  `log_fills_densely` says
where each of them goes and what the file looks like after them;
`append_point_goes_round` that a block is not written again before every block that
was free when it was last written has had its turn.

Both come from `Logged.exec_writes`, which says what a call writes, and from the rule for
the events of a run. -/

namespace KeyValueStore

open CyclicSearch Runs VersionLog

instance KvDirectory.decidableLive (directory : KvDirectory) (key : UInt64) :
    Decidable (directory.Live key) :=
  match found : directory.findEntryForKey key with
  | none => isFalse (by rintro ⟨entry, impossible, _⟩; rw [found] at impossible; cases impossible)
  | some entry =>
    decidable_of_iff (entry.dataBytes ≠ 0) ⟨fun live => ⟨entry, found, live⟩, by
      rintro ⟨entry', found', live⟩
      rw [found, Option.some.injEq] at found'
      exact found' ▸ live⟩

instance Call.decidableAccepted (m : Machine) : (call : Call) → Decidable (call.Accepted m)
  | .set _ _ v => inferInstanceAs (Decidable (v.size.toNat ≠ 0 ∧ v.size.toNat ≤ MAXBLOB))
  | .del _ key => inferInstanceAs (Decidable (m.stor.directory.Live key))
  | .get .. | .reopen .. => inferInstanceAs (Decidable False)

/-- The block that the call writes in full, if it writes one. -/
def Machine.target (m : Machine) (call : Call) : Option Nat :=
  match call with
  | .set env _ _ | .del env _ =>
    if call.Accepted m ∧ env.write.code = some 0 then m.destination else none
  | .get .. | .reopen .. => none

/-- A block that has been written in full. -/
structure Written where
  block : Nat
  /-- The whole blocks of the file before the write. -/
  blocks : Nat
  /-- The bitmap right after the call that wrote the block. -/
  allocator : KvBlockAllocator

def seeWrite (m : Machine) (call : Call) (next : Machine) : Option Written :=
  (m.target call).map fun d => ⟨d, blockCount m.file, next.stor.blockAllocator⟩

/-- The successful block writes of a run. -/
def writes (m : Machine) (calls : List Call) : List Written := history exec seeWrite m calls

/-- The file that the call leaves: a valid block has gone in full to the block that the call
writes, and nothing else has changed. -/
def Machine.LeavesFile (m : Machine) (call : Call) (file : Bytes) : Prop :=
  match m.target call with
  | none => file = m.file
  | some d => ∃ block count, sizeofKvBlock ≤ count ∧ block.validate = true ∧
    file = overwritten m.file d block count

/-! ## One call -/

/-- The call has brought a newer version than any in the file to block `d`. -/
structure Wrote (m : Machine) (d : Nat) (next : Machine) : Prop where
  destination : m.destination = some d
  file : ∃ block count, sizeofKvBlock ≤ count ∧ block.validate = true ∧
    next.file = overwritten m.file d block count
  logged : Logged next
  newest : ∃ seq, Newest (fileLog next.file) d seq
  bits : ∀ b, b ∈ next.stor.blockAllocator.allocated → b = d ∨ b ∈ m.stor.blockAllocator.allocated

theorem target_update {m : Machine} {call : Call} {env : BlockWrite} {key size : UInt64}
    {valueData : Option Bytes} (appends : call.Appends env key size valueData) :
    m.target call = if call.Accepted m ∧ env.write.code = some 0 then m.destination else none := by
  cases appends <;> rfl

/-- A block that takes a version newer than all others is the newest block. -/
theorem newest_update {log : Nat → Option (UInt64 × Nat)} {d seq : Nat} {key : UInt64}
    (fresh : ∀ b key' seq', log b = some (key', seq') → seq' < seq) :
    Newest (Function.update log d (some (key, seq))) d seq := by
  refine ⟨⟨key, Function.update_self ..⟩, ?_⟩
  intro b key' seq' stored
  by_cases same : b = d
  · rw [same, Function.update_self, Option.some.injEq, Prod.mk.injEq] at stored
    exact Nat.le_of_eq stored.2.symm
  · rw [Function.update_of_ne same] at stored
    exact Nat.le_of_lt (fresh b key' seq' stored)

theorem Logged.exec_update {m : Machine} (log : WellFormedLog m.file) (logged : Logged m)
    {call : Call} {env : BlockWrite} {key size : UInt64} {valueData : Option Bytes}
    (appends : call.Appends env key size valueData) (noWrap : NoWrap m call)
    (all : env.write.AllOrNothing) (insert : env.insert ≠ .tsearchNull) {response : Response}
    {next : Machine} (returned : exec m call = .ok response next) :
    (m.target call = none ∧ next.file = m.file) ∨
      ∃ d, m.target call = some d ∧ Wrote m d next := by
  have target : m.target call =
      if call.Accepted m ∧ env.write.code = some 0 then m.destination else none :=
    target_update appends
  have outcome := KeyValueStore.exec_update logged.backed.sound appends
  rw [returned] at outcome
  generalize ended : EStateM.Result.ok response next = result at outcome
  cases outcome with
  | rejected refused =>
    cases ended
    exact .inl ⟨by rw [target, if_neg (fun both => refused both.1)], rfl⟩
  | appended accepted payload carries outcome =>
    cases outcome with
    | full none_ =>
      cases ended
      refine .inl ⟨?_, rfl⟩
      rw [target, none_, ite_self]
    | failed found code nonzero =>
      cases ended
      rcases all.cases with complete | ⟨_, _, _, nothing⟩
      · rw [code, Option.some.injEq] at complete
        exact absurd complete nonzero
      · refine .inl ⟨?_, by rw [Machine.wrote_nothing nothing]; rfl⟩
        rw [target, if_neg]
        rintro ⟨_, complete⟩
        rw [code, Option.some.injEq] at complete
        exact nonzero complete
    | tsearchNull _ _ _ failed => exact absurd failed insert
    | done found code newest _ marks =>
      cases ended
      have small := noWrap.1 accepted
      have full := WriteResult.changed_of_code_zero code
      have dense := (logged.destination_dense log found).1
      refine .inr ⟨_, by rw [target, if_pos ⟨accepted, code⟩, found], found,
        ⟨_, _, full, carries.valid, rfl⟩, (logged.committed log small found full carries payload
          marks).2, ⟨m.nextSequence.toNat, ?_⟩, ?_⟩
      · show Newest (fileLog (overwritten _ _ _ _)) _ _
        rw [fileLog_overwritten full dense carries.valid, KvBlock.version, carries.sequence_eq]
        exact newest_update (logged.fresh small)
      · intro b held
        exact ((marks.allocated b).mp held).imp_right And.left
    | stopped _ _ | reused _ _ _ _ | stale _ _ _ _ | mallocNull _ _ _ _ => cases ended

/-- What a call of a legitimate run writes. -/
theorem Good.exec_writes {m : Machine} (good : Good m) {call : Call}
    (undamaging : Undamaging m call) {response : Response} {next : Machine}
    (returned : exec m call = .ok response next) :
    Good next ∧ ((m.target call = none ∧ next.file = m.file) ∨
      ∃ d, m.target call = some d ∧ Logged m ∧ Wrote m d next) := by
  have good' : Good next := by
    rcases good.step undamaging with ⟨_, _, returned', good'⟩ | ⟨_, _, ended, _⟩
    · rw [returned, EStateM.Result.ok.injEq] at returned'
      exact returned'.2 ▸ good'
    · rw [returned] at ended
      cases ended
  refine ⟨good', ?_⟩
  obtain ⟨legal, noWrap, all⟩ := undamaging
  have update : ∀ {env key size valueData}, call.Appends env key size valueData →
      m.opened = true → env.write.AllOrNothing → env.insert ≠ .tsearchNull →
      (m.target call = none ∧ next.file = m.file) ∨
        ∃ d, m.target call = some d ∧ Logged m ∧ Wrote m d next := by
    intro env key size valueData appends opened all insert
    have logged := good.logged opened
    refine (logged.exec_update good.log appends noWrap all insert returned).imp_right ?_
    rintro ⟨d, target, wrote⟩
    exact ⟨d, target, logged, wrote⟩
  cases call with
  | set env key v => exact update (.set env key v) legal all.1 all.2
  | del env key => exact update (.del env key) legal all.1 all.2
  | get read key v =>
    obtain ⟨_, returned', _⟩ := (good.logged legal).backed.get read key v
    rw [returned, EStateM.Result.ok.injEq] at returned'
    exact .inl ⟨rfl, by rw [returned'.2]⟩
  | reopen argc env =>
    refine .inl ⟨rfl, ?_⟩
    have outcome := exec_reopen m argc env
    rw [returned] at outcome
    cases outcome with
    | refused _ _ file _ _ => exact file
    | returned _ _ => rfl

theorem Good.leavesFile {m : Machine} (good : Good m) {call : Call}
    (undamaging : Undamaging m call) {response : Response} {next : Machine}
    (returned : exec m call = .ok response next) : m.LeavesFile call next.file := by
  rcases (good.exec_writes undamaging returned).2 with ⟨target, same⟩ | ⟨d, target, _, wrote⟩
  · rw [Machine.LeavesFile, target]
    exact same
  · rw [Machine.LeavesFile, target]
    exact wrote.file

/-! ## Whole runs -/

/-- What the events say of the file is so of each call of the run. -/
theorem writes_leave_file {m : Machine} (created : Created m) {calls : List Call}
    (undamaging : Allowed exec Undamaging m calls) :
    Allowed exec (fun m call => ∀ response next, exec m call = .ok response next →
      m.LeavesFile call next.file) m calls := by
  refine Allowed.of_invariant ?_ ?_ (good_created created) undamaging
  · exact fun good now returned => (good.exec_writes now returned).1
  · exact fun good now _ _ returned => good.leavesFile now returned

theorem writes_admitted {m : Machine} {calls : List Call} {Abstract : Type}
    {note : Abstract → Written → Abstract} {admits : Abstract → Written → Prop}
    {Related : Bytes → Abstract → Prop}
    (seen : ∀ {m : Machine} {abstract : Abstract} {d : Nat} {next : Machine}, Good m → Good next →
      Logged m → Wrote m d next → Related m.file abstract →
      admits abstract ⟨d, blockCount m.file, next.stor.blockAllocator⟩ ∧
        Related next.file (note abstract ⟨d, blockCount m.file, next.stor.blockAllocator⟩))
    {abstract : Abstract} (created : Created m) (related : Related m.file abstract)
    (undamaging : Allowed exec Undamaging m calls) :
    Admits note admits abstract (writes m calls) ∧
      ∀ responses last, run exec m calls = .ok responses last →
        Related last.file ((writes m calls).foldl note abstract) := by
  have admitted := @history_admits _ _ _ _ _ _ exec Undamaging seeWrite note admits
    (fun m abstract => Good m ∧ Related m.file abstract) ?_ ?_ calls m abstract
    ⟨good_created created, related⟩ undamaging
  · exact ⟨admitted.1, fun responses last returned => (admitted.2 responses last returned).2⟩
  · -- A call that writes no block leaves the file alone.
    rintro m abstract call response next ⟨good, related⟩ undamaging returned unseen
    obtain ⟨good', ⟨_, same⟩ | ⟨d, target, _⟩⟩ := good.exec_writes undamaging returned
    · exact ⟨good', same ▸ related⟩
    · rw [seeWrite, target] at unseen
      cases unseen
  · rintro m abstract call response next event ⟨good, related⟩ undamaging returned saw
    obtain ⟨good', ⟨target, _⟩ | ⟨d, target, logged, wrote⟩⟩ := good.exec_writes undamaging returned
    · rw [seeWrite, target] at saw
      cases saw
    · rw [seeWrite, target] at saw
      cases saw
      obtain ⟨admitted, related'⟩ := seen good good' logged wrote related
      exact ⟨admitted, good', related'⟩

/-! ## The log fills densely -/

/-- The write with this number, counted from 0, goes to the block of that number, and from
the one with the number `capacity` on over a block of the file. -/
structure GoesTo (number : Nat) (written : Written) : Prop where
  blocks : written.blocks = min number capacity
  grows : number < capacity → written.block = number
  overwrites : capacity ≤ number → written.block < written.blocks

theorem Wrote.grows {m next : Machine} {d count : Nat} (good : Good m) (logged : Logged m)
    (wrote : Wrote m d next) (size : m.file.length = min count capacity * sizeofKvBlock) :
    GoesTo count ⟨d, blockCount m.file, next.stor.blockAllocator⟩ ∧
      next.file.length = min (count + 1) capacity * sizeofKvBlock := by
  obtain ⟨dense, end_⟩ := logged.destination_dense good.log wrote.destination
  have inside := (logged.backed.sound.destination_free wrote.destination).1
  rw [logged.backed.sound.owns.size] at inside
  have blocks : blockCount m.file = min count capacity := by
    rw [blockCount, size, Nat.mul_div_cancel _ (by decide)]
  obtain ⟨block, bytes, full, _, file⟩ := wrote.file
  have length : next.file.length = max m.file.length (d * sizeofKvBlock + sizeofKvBlock) := by
    have positive : 0 < sizeofKvBlock := by decide
    rw [file, length_overwritten (by omega), Nat.min_eq_right full]
  rw [← Nat.succ_mul, size, Nat.mul_max_mul_right] at length
  rw [length]
  rw [blocks] at dense end_
  refine ⟨⟨blocks, ?_, ?_⟩, ?_⟩
  · intro small
    show d = count
    generalize capacity = most at dense end_ inside small
    have here := end_ (by omega)
    omega
  · intro large
    show d < blockCount m.file
    rw [blocks]
    generalize capacity = most at inside large ⊢
    omega
  · congr 1
    generalize capacity = most at dense end_ inside ⊢
    by_cases small : count < most
    · have here := end_ (by omega)
      omega
    · omega

/-- Calls that the environment lets through damage nothing. -/
theorem undamaging_of_undisturbed {m : Machine} (created : Created m) {calls : List Call}
    (undisturbed : Allowed exec Undisturbed m calls) : Allowed exec Undamaging m calls := by
  refine @Allowed.of_invariant _ _ _ _ exec Undisturbed Serving Undamaging ?_ ?_ calls m
    (serving_created created).1 undisturbed
  · intro m call response next serving undisturbed returned
    obtain ⟨_, _, returned', served⟩ := serving.step undisturbed.1 undisturbed.2
    rw [returned, EStateM.Result.ok.injEq] at returned'
    exact returned'.2 ▸ served.serving
  · rintro m call serving ⟨succeeds, noWrap⟩
    exact serving.undamaging succeeds noWrap

theorem writes_go {m : Machine} (created : Created m) {calls : List Call}
    (undamaging : Allowed exec Undamaging m calls) :
    (∀ k written, (writes m calls)[k]? = some written → GoesTo k written) ∧
      ∀ responses last, run exec m calls = .ok responses last →
        last.file.length = min (writes m calls).length capacity * sizeofKvBlock := by
  have empty : m.file.length = min 0 capacity * sizeofKvBlock := by
    obtain ⟨fd, rfl⟩ := created_iff.mp created
    rw [Nat.zero_min, Nat.zero_mul]
    rfl
  obtain ⟨admitted, final⟩ := @writes_admitted m calls Nat (fun count _ => count + 1) GoesTo
    (fun file count => file.length = min count capacity * sizeofKvBlock)
    (fun good _ logged wrote size => wrote.grows good logged size) 0 created empty undamaging
  refine ⟨?_, ?_⟩
  · intro k written at_
    have goes := admitted.numbered at_
    rwa [Nat.zero_add] at goes
  · intro responses last returned
    have size := final responses last returned
    rwa [foldl_count, Nat.zero_add] at size

/-- In every legitimate run the log fills densely: the write with the number `k`, counted
from 0, goes to block `k` as long as the bitmap has that block, and after that over a block
of the file.  After `k` writes the file is its first `min k capacity` blocks, all valid. -/
theorem log_fills_densely {m : Machine} (created : Created m) {calls : List Call}
    (undamaging : Allowed exec Undamaging m calls) :
    (∀ k written, (writes m calls)[k]? = some written → GoesTo k written) ∧
      ((∃ responses last, run exec m calls = .ok responses last ∧
          last.file.length = min (writes m calls).length capacity * sizeofKvBlock ∧
          ∀ b, b < min (writes m calls).length capacity →
            ∃ block, validBlock last.file b = some block) ∨
        ∃ call ∈ calls, ¬ call.UncheckedMallocsDeliver ∧
          ∃ last, run exec m calls = .error .nullPointer last) := by
  obtain ⟨goes, final⟩ := writes_go created undamaging
  refine ⟨goes, ?_⟩
  rcases (good_created created).run undamaging with
    ⟨responses, last, returned, good⟩ | ⟨call, member, _, last, ended, rfl, failed⟩
  · have size := final responses last returned
    refine .inl ⟨responses, last, returned, size, ?_⟩
    intro b inside
    refine good.log.valid b ?_
    rw [blockCount, size, Nat.mul_div_cancel _ (by decide)]
    exact inside
  · exact .inr ⟨call, member, failed, last, ended⟩

/-- A run with an overwritten key and a reopen. -/
def overwritingRun : List Call :=
  [.set .quiet 1 .one, .set .quiet 1 .one, .reopen 2 .quiet, .set .quiet 2 .one]

theorem log_fills_densely_overwrite :
    (∀ k written, (writes (.fresh 3) overwritingRun)[k]? = some written → GoesTo k written) ∧
      ∃ responses last, run exec (.fresh 3) overwritingRun = .ok responses last ∧
        last.file.length =
          min (writes (.fresh 3) overwritingRun).length capacity * sizeofKvBlock := by
  have created : Created (.fresh 3) := created_iff.mpr ⟨3, rfl⟩
  have succeed : ∀ call ∈ overwritingRun, call.Succeeds := by
    simp [overwritingRun, Call.Succeeds, BlockWrite.quiet_succeeds, OpenEnv.quiet_succeeds]
  obtain ⟨goes, ⟨responses, last, returned, size, _⟩ | ⟨call, member, failed, _⟩⟩ :=
    log_fills_densely created
      (undamaging_of_undisturbed created (allowed_fresh 3 succeed (by decide)))
  · exact ⟨goes, responses, last, returned, size⟩
  · exact absurd (succeed call member).uncheckedMallocsDeliver failed

/-! ## The append point goes round -/

/-- For each block `f`, the blocks that were free when `f` was last written, and that have
not been written since. -/
abbrev Pending := Nat → Set Nat

def Pending.note (pending : Pending) (written : Written) : Pending := fun f =>
  if f = written.block then { b | written.allocator.isSet b = .ok false ∧ b ≠ written.block }
  else { b ∈ pending f | b ≠ written.block }

/-- Before a block is written again, all that was free at its last write has been. -/
def Pending.Admits (pending : Pending) (written : Written) : Prop := pending written.block = ∅

/-- The pending blocks hold no newest version of a key, and the newest block of the log has
not come past them since `f` was written. -/
def Pending.Ahead (file : Bytes) (pending : Pending) : Prop :=
  ∀ f b, b ∈ pending f → f < capacity ∧ b < capacity ∧
    (∀ key seq, ¬ Latest (fileLog file) key b seq) ∧
    ∃ point seq, Newest (fileLog file) point seq ∧
      distance capacity f point < distance capacity f b

/-- The allocated blocks are those that hold the newest version of their key. -/
theorem Logged.allocated_iff {m : Machine} (logged : Logged m) {b : Nat} :
    b ∈ m.stor.blockAllocator.allocated ↔ ∃ key seq, Latest (fileLog m.file) key b seq := by
  constructor
  · intro held
    obtain ⟨key, entry, found, rfl⟩ := (logged.backed.sound.owns.owned b).mp held
    exact ⟨key, _, logged.indexes.latest (KvDirectory.index_of_found found)⟩
  · rintro ⟨key, seq, latest⟩
    obtain ⟨⟨slot, seq'⟩, named⟩ := logged.indexes.complete latest.1
    obtain ⟨rfl, rfl⟩ := latest.unique (logged.indexes.latest named)
    obtain ⟨entry, found, same, _⟩ := KvDirectory.index_eq_some.mp named
    exact same ▸ logged.backed.sound.owns.mem_of_find found

/-- A block that the append point has still to come to stays ahead of it, or is the next one:
the search starts at the newest block, which is allocated. -/
theorem Logged.keeps_ahead {m : Machine} {d : Nat} {pending : Pending} (logged : Logged m)
    (good : Good m) (found : m.destination = some d) (ahead : pending.Ahead m.file) {f b : Nat}
    (member : b ∈ pending f) :
    d ≠ f ∧ (b ≠ d → distance capacity f d < distance capacity f b) := by
  have free := (logged.backed.sound.destination_free found).2
  obtain ⟨fInside, bInside, unnamed, point, seq, newest, isAhead⟩ := ahead f b member
  have held := logged.newest_allocated good.log newest
  have pointInside := (KvBlockAllocator.mem_allocated.mp held).1
  rw [logged.backed.sound.owns.size] at pointInside
  obtain ⟨point', after, next⟩ := logged.follows
  obtain rfl := after.unique good.log.distinct (.inr ⟨seq, newest⟩)
  rw [found, KvBlockAllocator.nextFree, logged.backed.sound.owns.size,
    if_neg (Nat.ne_of_lt pointInside)] at next
  refine search_keeps_ahead fInside pointInside next.symm ?_ bInside ?_ isAhead
  · rintro rfl
    exact free held
  · refine KvBlockAllocator.isAllocated_eq_false.mpr ?_
    intro held'
    obtain ⟨key, seq, latest⟩ := logged.allocated_iff.mp held'
    exact unnamed key seq latest

/-- A write takes the search from the newest block to the first free one, which passes no
pending block. -/
theorem Wrote.rotates {m next : Machine} {d : Nat} {pending : Pending} (good : Good m)
    (logged : Logged m) (wrote : Wrote m d next) (ahead : pending.Ahead m.file) :
    pending.Admits ⟨d, blockCount m.file, next.stor.blockAllocator⟩ ∧
      (pending.note ⟨d, blockCount m.file, next.stor.blockAllocator⟩).Ahead next.file := by
  have inside := (logged.backed.sound.destination_free wrote.destination).1
  rw [logged.backed.sound.owns.size] at inside
  have size := wrote.logged.backed.sound.owns.size
  have passes : ∀ {f b}, b ∈ pending f → d ≠ f ∧
      (b ≠ d → distance capacity f d < distance capacity f b) := fun member =>
    logged.keeps_ahead good wrote.destination ahead member
  refine ⟨?_, ?_⟩
  · rw [Pending.Admits, Set.eq_empty_iff_forall_notMem]
    intro b member
    exact (passes member).1 rfl
  · intro f b member
    obtain ⟨seq, newest⟩ := wrote.newest
    have unnamed : b ∉ next.stor.blockAllocator.allocated →
        ∀ key seq, ¬ Latest (fileLog next.file) key b seq :=
      fun clear key seq latest => clear (wrote.logged.allocated_iff.mpr ⟨key, seq, latest⟩)
    simp only [Pending.note] at member
    split at member
    · -- `f` is the block that has just been written.
      rename_i same
      obtain ⟨clear, apart⟩ := member
      obtain ⟨bInside, clear⟩ :=
        (KvBlockAllocator.isSet_eq_false wrote.logged.backed.sound.owns.fits).mp clear
      rw [size] at bInside
      refine ⟨same ▸ inside, bInside, unnamed clear, d, seq, newest, ?_⟩
      have toBlock := distance_spec inside bInside
      subst same
      simp only [distance, Nat.le_refl, if_true, Nat.sub_self] at toBlock ⊢
      split <;> omega
    · obtain ⟨member, apart⟩ := member
      obtain ⟨fInside, bInside, unnamed', _⟩ := ahead f b member
      refine ⟨fInside, bInside, unnamed ?_, d, seq, newest, (passes member).2 apart⟩
      intro held
      rcases wrote.bits b held with same | held'
      · exact apart same
      · obtain ⟨key, seq, latest⟩ := logged.allocated_iff.mp held'
        exact unnamed' key seq latest

/-- What is still pending for `f` after writes to other blocks. -/
theorem pending_foldl {f : Nat} : ∀ {between : List Written} {pending : Pending},
    (∀ written ∈ between, written.block ≠ f) →
    between.foldl Pending.note pending f = { b ∈ pending f | ∀ written ∈ between, b ≠ written.block }
  | [], pending, _ => by simp
  | written :: between, pending, others => by
    have apart := others written (List.mem_cons_self ..)
    rw [List.foldl_cons, pending_foldl fun other member =>
      others other (List.mem_cons_of_mem _ member)]
    ext b
    simp [Pending.note, Ne.symm apart, and_assoc]

/-- Between two successive writes of a block every other block that was free right after
the first of them is written at least once.  A write is one that the file shows. -/
theorem append_point_goes_round {m : Machine} (created : Created m) {calls : List Call}
    (undamaging : Allowed exec Undamaging m calls) :
    Allowed exec (fun m call => ∀ response next, exec m call = .ok response next →
      m.LeavesFile call next.file) m calls ∧
    ∀ before between after first second,
      writes m calls = before ++ first :: (between ++ second :: after) →
      second.block = first.block → (∀ written ∈ between, written.block ≠ first.block) →
      ∀ b, first.allocator.isSet b = .ok false → b ≠ first.block →
        ∃ written ∈ between, written.block = b := by
  refine ⟨writes_leave_file created undamaging, ?_⟩
  intro before between after first second history again successive b clear other
  have start : Pending.Ahead m.file fun _ => ∅ := by
    rintro f b ⟨⟩
  obtain ⟨admitted, _⟩ := @writes_admitted m calls Pending Pending.note Pending.Admits Pending.Ahead
    (fun good _ logged wrote ahead => wrote.rotates good logged ahead) _ created start undamaging
  rw [history] at admitted
  -- What is pending for the block when it is written for the second time.
  have pending := admitted.append.2.append.1
  rw [Pending.Admits, again, pending_foldl successive, Set.eq_empty_iff_forall_notMem] at pending
  by_contra never
  refine pending b ⟨?_, ?_⟩
  · simp only [Pending.note, if_true]
    exact ⟨clear, other⟩
  · intro written member same
    exact never ⟨written, member, same.symm⟩

/-- A list around the item with this number. -/
theorem take_cons_drop {α : Type} {items : List α} {i : Nat} {item : α} (at_ : items[i]? = some item) :
    items = items.take i ++ item :: items.drop (i + 1) := by
  obtain ⟨inside, rfl⟩ := List.getElem?_eq_some_iff.mp at_
  rw [← List.drop_eq_getElem_cons inside, List.take_append_drop]

/-- A store with one key has room for it, so each set writes a block. -/
theorem length_writes_one_key (n : Nat) {m : Machine} (serving : Serving m)
    (few : m.stor.directory.keys ⊆ {1}) (short : m.stor.currentSequenceNumber.toNat + n < 2 ^ 64) :
    (writes m (List.replicate n (.set .quiet 1 .one))).length = n := by
  induction n generalizing m with
  | zero => rfl
  | succ n ih =>
    have accepted : Call.Accepted m (.set .quiet 1 .one) := by
      show (1 : UInt64).toNat ≠ 0 ∧ (1 : UInt64).toNat ≤ MAXBLOB
      decide
    have card : m.stor.directory.keys.card ≤ 1 :=
      (Finset.card_le_card few).trans (Nat.le_of_eq (Finset.card_singleton _))
    obtain ⟨d, found⟩ := serving.logged.backed.sound.room
      (Nat.lt_of_le_of_lt card (by rw [capacity, MAXKEYS]; omega))
    have target : m.target (.set .quiet 1 .one) = some d := by
      rw [target_update (.set .quiet 1 .one), if_pos ⟨accepted, rfl⟩, found]
    have succeeds : Call.Succeeds (.set .quiet 1 .one) := BlockWrite.quiet_succeeds
    obtain ⟨response, next, returned, served⟩ :=
      serving.step succeeds (serving.noWrap _ (by omega))
    have few' : next.stor.directory.keys ⊆ {1} := by
      rw [served.keys, recordKey]
      split
      · exact Finset.insert_subset (Finset.mem_singleton_self _) few
      · exact few
    have counter := served.counter
    have rest := ih served.serving few' (by omega)
    rw [writes] at rest
    rw [writes, List.replicate_succ]
    simp only [history, returned, seeWrite, target, Option.map_some, Option.toList_some,
      List.length_append, List.length_cons, List.length_nil, rest]
    omega

/-- With one key the blocks are all written in turn, and then one of them again. -/
theorem append_point_goes_round_one_key :
    Allowed exec (fun m call => ∀ response next, exec m call = .ok response next →
      m.LeavesFile call next.file) (.fresh 3)
      (List.replicate (capacity + 1) (.set .quiet 1 .one)) ∧
    ∃ before first between second,
      writes (.fresh 3) (List.replicate (capacity + 1) (.set .quiet 1 .one)) =
        before ++ first :: (between ++ second :: []) ∧ second.block = first.block ∧
      ∀ b, first.allocator.isSet b = .ok false → b ≠ first.block →
        ∃ written ∈ between, written.block = b := by
  have created : Created (.fresh 3) := created_iff.mpr ⟨3, rfl⟩
  obtain ⟨serving, _, keys, counter⟩ := serving_created created
  have undamaging : Allowed exec Undamaging (.fresh 3)
      (List.replicate (capacity + 1) (.set .quiet 1 .one)) := by
    refine undamaging_of_undisturbed created (allowed_fresh 3 ?_ ?_)
    · intro call member
      rw [List.eq_of_mem_replicate member]
      exact BlockWrite.quiet_succeeds
    · rw [List.length_replicate, capacity, MAXKEYS]
      decide
  have goes := (writes_go created undamaging).1
  have length := length_writes_one_key (capacity + 1) serving (by rw [keys]; simp) (by
    rw [counter, capacity, MAXKEYS]
    decide)
  obtain ⟨leaves, round⟩ := append_point_goes_round created undamaging
  refine ⟨leaves, ?_⟩
  generalize writes (.fresh 3) (List.replicate (capacity + 1) (.set .quiet 1 .one)) = events at *
  -- The last write goes over a block `f` that was written as the one with the number `f`.
  obtain ⟨second, last⟩ : ∃ second, events[capacity]? = some second :=
    ⟨_, List.getElem?_eq_getElem (by omega)⟩
  have again := goes _ _ last
  have inside : second.block < capacity := by
    have below := again.overwrites (Nat.le_refl _)
    rwa [again.blocks, Nat.min_self] at below
  obtain ⟨first, earlier⟩ : ∃ first, events[second.block]? = some first :=
    ⟨_, List.getElem?_eq_getElem (by omega)⟩
  have same : first.block = second.block := (goes _ _ earlier).grows inside
  have split_ : events = events.take second.block ++
      first :: ((events.take capacity).drop (second.block + 1) ++ second :: []) := by
    have tail := take_cons_drop last
    have head := take_cons_drop (show (events.take capacity)[second.block]? = some first by
      rw [List.getElem?_take_of_lt inside, earlier])
    rw [List.drop_of_length_le (by omega)] at tail
    rw [List.take_take, Nat.min_eq_left (Nat.le_of_lt inside)] at head
    rw [← List.cons_append, ← List.append_assoc, ← head]
    exact tail
  refine ⟨_, first, _, second, split_, same.symm, ?_⟩
  intro b clear other
  refine round _ _ [] first second split_ same.symm ?_ b clear other
  intro written member back
  obtain ⟨i, at_⟩ := List.mem_iff_getElem?.mp member
  rw [List.getElem?_drop, List.getElem?_take] at at_
  split at at_
  · rename_i before
    have number := (goes _ _ at_).grows before
    omega
  · cases at_

end KeyValueStore
