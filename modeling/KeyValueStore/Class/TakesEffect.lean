import KeyValueStore.Class.Process

/-! # When a set takes effect

Opening a file puts the counter of sequence numbers at 0 again, so it is the updates made
since then that have to catch up with the file.  Until they have, the block of a set is
older than some block that is there, and the directory refuses it or the next scan does.
Every set of a run takes effect exactly if each comes late enough after the last open
(`updates_take_effect_iff`). -/

namespace KeyValueStore.KvStore

open Runs VersionLog

/-- No assertion fails, and if the set returns 0 then its version is newer than every block
of the file, and a get returns the value. -/
def TakesEffect (port : Port) (m : Machine) : Call → Prop
  | .set env key (some v) => Valid v →
    (∀ which next, exec port m (.set env key (some v)) ≠ .error (.assertion which) next) ∧
    ∀ next, exec port m (.set env key (some v)) = .ok ⟨0, none⟩ next →
      (∃ entry, next.stor.directory.findEntryForKey key = some entry ∧
        ∀ b block, validBlock m.file b = some block → block.header.sequence < entry.sequence) ∧
      ∀ buffer : Value, v.size ≤ buffer.size → ∃ out,
        exec port next (.get true .full key buffer) = .ok ⟨0, some out⟩ next ∧
          out.size = v.size ∧ out.bytes = v.bytes
  | .set _ _ none | .del .. | .get .. | .reopen .. => True

/-- What a run has done to a file since it was opened. -/
structure Since where
  /-- The file as it was then. -/
  file : Bytes
  /-- How many updates have got past their checks. -/
  accepted : Nat
  /-- The blocks that they have written. -/
  overwritten : Finset Nat
  /-- The keys of those that have returned 0. -/
  updated : Finset UInt64

namespace Since

def opened (file : Bytes) : Since := ⟨file, 0, ∅, ∅⟩

def update (since : Since) (m : Machine) (key : UInt64) (ret : Int) : Since :=
  { since with
    accepted := since.accepted + 1
    overwritten := since.overwritten ∪ m.destination.toFinset
    updated := if ret = 0 then insert key since.updated else since.updated }

def note (since : Since) (m : Machine) (call : Call) (response : Response) : Since :=
  match call with
  | .set _ key _ | .del _ key =>
    if response.ret = call.rejection then since else since.update m key response.ret
  | .get .. => since
  | .reopen .. => .opened m.file

end Since

/-- The set gets as far as the directory, and past it unless the entry of its key is newer. -/
structure Reaches (m : Machine) (env : BlockWrite) (key : UInt64) (v : Value) : Prop where
  valid : Valid v
  allocated : env.allocated = true
  room : m.destination ≠ none
  inserts : m.stor.directory.findEntryForKey key = none → env.insert = .inserted

/-- A set that gets as far as the directory comes when as many updates have been accepted
since the last open as any block of the file had for a sequence number then.  Blocks that
have been overwritten since do not count, unless the directory still has their version of the
key. -/
def CaughtUp (since : Since) (m : Machine) : Call → Prop
  | .set env key (some v) => Reaches m env key v →
    ∀ b block, validBlock since.file b = some block →
      (b ∉ since.overwritten ∨ block.header.keyId = key ∧ key ∉ since.updated) →
      block.header.sequence.toNat ≤ since.accepted
  | .set _ _ none | .del .. | .get .. | .reopen .. => True

/-- The next number of the counter is beyond every block of the file, and beyond the entry
of the key. -/
def Outranks (m : Machine) (key : UInt64) : Prop :=
  (∀ b block, validBlock m.file b = some block → block.header.sequence < m.nextSequence) ∧
    ∀ entry, m.stor.directory.findEntryForKey key = some entry → entry.sequence < m.nextSequence

section Set

variable {port : Port} {m next : Machine} {env : BlockWrite} {key : UInt64} {v : Value} {d : Nat}
  {block : KvBlock}

/-- What was set is read back. -/
theorem Stored.get (stored : Stored m key v d block next) (valid : Valid v) {buffer : Value}
    (room : v.size ≤ buffer.size) :
    ∃ out, exec port next (.get true .full key buffer) = .ok ⟨0, some out⟩ next ∧
      out.size = v.size ∧ out.bytes = v.bytes := by
  have usable := stored.steady.usable
  have held : validBlock next.file d = some block := by
    rw [stored.appended.file, Function.update_self]
  have small : d < 2 ^ 32 := by
    have inside := usable.covers.inside stored.find
    rw [stored.steady.size, capacity_eq] at inside
    exact Nat.lt_trans inside (by decide)
  have fits := valid.2
  rw [UInt64.le_iff_toNat_le] at room
  rw [← valid.dataBytes] at fits room
  rcases kvGet_live usable.opened usable.raw .full stored.find small held valid.live fits room with
    ⟨out, returned, size, value⟩ | ⟨_, _, undelivered, _⟩
  · refine ⟨out, ?_, ?_, ?_⟩
    · rw [exec_get]
      exact exec_get_of_kvGet returned
    · rw [valid.dataBytes] at size
      exact UInt64.toNat_inj.mp size
    · have stored' := (validBlock_eq_some.mp held).1
      rw [entryValue_carries stored.carries valid.payload.fits valid.1 stored' rfl,
        Option.some.injEq] at value
      exact value.symm
  · exact absurd trivial undelivered

/-- One set with a complete write. -/
theorem takesEffect_iff (steady : Steady m) (full : env.write = .full) :
    TakesEffect port m (.set env key (some v)) ↔ (Reaches m env key v → Outranks m key) := by
  by_cases valid : Valid v
  · have outcome := @set_outcome port m steady.usable env key (some v)
    have code : env.write.code = some 0 := by
      rw [full]
      rfl
    simp only [TakesEffect, valid, true_implies]
    generalize exec port m (.set env key (some v)) = result at outcome
    cases outcome with
    | rejected _ refused => exact absurd ⟨v, rfl, valid⟩ refused
    | failed named _ _ code' nonzero =>
      cases named
      rw [code, Option.some.injEq] at code'
      exact absurd code'.symm nonzero
    | stopped named _ code' =>
      cases named
      rw [code] at code'
      cases code'
    -- The set gives up before it is done, so nothing is asked of it.
    | nullPointer _ invalid =>
      exact iff_of_true ⟨by rintro _ _ ⟨⟩, by rintro _ ⟨⟩⟩
        fun reaches => absurd ⟨reaches.allocated, by simp⟩ invalid
    | full _ _ none_ =>
      exact iff_of_true ⟨by rintro _ _ ⟨⟩, by rintro _ ⟨⟩⟩ fun reaches => absurd none_ reaches.room
    | noEntry _ _ absent insert | noNode _ _ absent insert _ _ =>
      refine iff_of_true ⟨by rintro _ _ ⟨⟩, by rintro _ ⟨⟩⟩ fun reaches => ?_
      have inserts := reaches.inserts absent
      rw [inserts] at insert
      cases insert
    | asserted _ allocated found _ lookup order =>
      refine iff_of_false (fun effect => effect.1 _ _ rfl) fun outranks => ?_
      have newer := (outranks ⟨valid, allocated, by simp [found], by simp [lookup]⟩).2 _ lookup
      rw [UInt64.lt_iff_toNat_lt] at newer
      omega
    | stored _ allocated found _ newer inserts carries marks =>
      have stored := steady.stored found code carries marks
      constructor
      · rintro ⟨_, effect⟩ _
        obtain ⟨⟨entry, lookup, newest⟩, _⟩ := effect _ rfl
        rw [stored.find, Option.some.injEq] at lookup
        refine ⟨?_, fun entry lookup => UInt64.lt_iff_toNat_lt.mpr (newer entry lookup)⟩
        rw [← lookup] at newest
        exact newest
      · intro outranks
        refine ⟨by rintro _ _ ⟨⟩, ?_⟩
        rintro _ ⟨⟩
        obtain ⟨newest, _⟩ := outranks ⟨valid, allocated, by simp [found], inserts⟩
        exact ⟨⟨_, stored.find, newest⟩, fun buffer room => stored.get valid room⟩
  · exact iff_of_true (fun valid' => absurd valid' valid)
      (fun reaches => absurd reaches.valid valid)

end Set

/-! ## The machine and the run -/

/-- What a machine with an open store has to do with the run since the open. -/
structure Tracks (m : Machine) (since : Since) : Prop where
  counter : m.stor.currentSequenceNumber.toNat = since.accepted
  kept : ∀ {b}, b ∉ since.overwritten → validBlock m.file b = validBlock since.file b
  recent : ∀ {b block}, b ∈ since.overwritten → validBlock m.file b = some block →
    block.header.sequence.toNat ≤ since.accepted
  /-- A key that has not been updated has the entry that the scan gave it. -/
  inherited : ∀ {key}, key ∉ since.updated → ∀ bound,
    (∀ entry, m.stor.directory.findEntryForKey key = some entry → entry.sequence.toNat ≤ bound) ↔
      ∀ b block, validBlock since.file b = some block → block.header.keyId = key →
        block.header.sequence.toNat ≤ bound
  reached : ∀ {key entry}, key ∈ since.updated →
    m.stor.directory.findEntryForKey key = some entry → entry.sequence.toNat ≤ since.accepted

section Tracks

variable {port : Port} {m next : Machine} {since : Since} {key : UInt64} {d : Nat}
  {block : KvBlock} {ret : Int}

theorem tracks_fresh (fd : Nat) : Tracks (fresh fd) (.opened (fresh fd).file) where
  counter := rfl
  kept _ := rfl
  recent member := absurd member (Finset.notMem_empty _)
  inherited := by
    intro key _ bound
    have empty : ∀ b, validBlock (fresh fd).file b = none := by
      intro b
      simp [fresh, validBlock]
    refine iff_of_true (by rintro _ ⟨⟩) fun b block valid => ?_
    rw [Since.opened, empty] at valid
    cases valid
  reached member := absurd member (Finset.notMem_empty _)

/-- The scan leaves the greatest version of each key, and a counter that has none. -/
theorem Scanned.tracks (scanned : Scanned m.file m.stor) : Tracks m (.opened m.file) where
  counter := by rw [scanned.counter]; rfl
  kept _ := rfl
  recent member := absurd member (Finset.notMem_empty _)
  inherited := by
    intro key _ bound
    simp only [Since.opened, ← Nat.lt_succ_iff]
    exact (KvDirectory.older_iff scanned.indexes).trans newer_fileLog
  reached member := absurd member (Finset.notMem_empty _)

theorem Tracks.outranks_iff (tracks : Tracks m since)
    (noWrap : m.stor.currentSequenceNumber.toNat + 1 < 2 ^ 64) :
    Outranks m key ↔ ∀ b block, validBlock since.file b = some block →
      (b ∉ since.overwritten ∨ block.header.keyId = key ∧ key ∉ since.updated) →
      block.header.sequence.toNat ≤ since.accepted := by
  have next : ∀ sequence : UInt64, sequence < m.nextSequence ↔ sequence.toNat ≤ since.accepted := by
    intro sequence
    rw [UInt64.lt_iff_toNat_lt, Machine.nextSequence_toNat noWrap, tracks.counter]
    omega
  simp only [Outranks, next]
  constructor
  · rintro ⟨blocks, entries⟩ b block valid (there | ⟨keyed, untouched⟩)
    · exact blocks b block (by rw [tracks.kept there, valid])
    · exact (tracks.inherited untouched since.accepted).mp entries b block valid keyed
  · intro old
    refine ⟨fun b block valid => ?_, fun entry found => ?_⟩
    · by_cases written : b ∈ since.overwritten
      · exact tracks.recent written valid
      · rw [tracks.kept written] at valid
        exact old b block valid (.inl written)
    · by_cases touched : key ∈ since.updated
      · exact tracks.reached touched found
      · refine (tracks.inherited touched since.accepted).mpr ?_ entry found
        exact fun b block valid keyed => old b block valid (.inr ⟨keyed, touched⟩)

/-- An accepted update that has left the entries of the other keys alone, and that of its own
unless it returned 0. -/
theorem Tracks.entries (tracks : Tracks m since) {accepted : Nat}
    (grown : since.accepted ≤ accepted)
    (others : ∀ key', key' ≠ key ∨ ret ≠ 0 →
      next.stor.directory.findEntryForKey key' = m.stor.directory.findEntryForKey key')
    (own : ∀ entry, ret = 0 → next.stor.directory.findEntryForKey key = some entry →
      entry.sequence.toNat ≤ accepted) :
    (∀ {key'}, key' ∉ (since.update m key ret).updated → ∀ bound,
      (∀ entry, next.stor.directory.findEntryForKey key' = some entry →
        entry.sequence.toNat ≤ bound) ↔
      ∀ b block, validBlock since.file b = some block → block.header.keyId = key' →
        block.header.sequence.toNat ≤ bound) ∧
    ∀ {key' entry}, key' ∈ (since.update m key ret).updated →
      next.stor.directory.findEntryForKey key' = some entry → entry.sequence.toNat ≤ accepted := by
  simp only [Since.update]
  by_cases zero : ret = 0
  · simp only [if_pos zero, Finset.mem_insert, not_or]
    constructor
    · rintro key' ⟨other, untouched⟩ bound
      rw [others key' (.inl other)]
      exact tracks.inherited untouched bound
    · intro key' entry touched found
      by_cases same : key' = key
      · rw [same] at found
        exact own entry zero found
      · rw [others key' (.inl same)] at found
        exact (tracks.reached (touched.resolve_left same) found).trans grown
  · simp only [if_neg zero, others _ (.inr zero)]
    refine ⟨fun untouched bound => tracks.inherited untouched bound, ?_⟩
    exact fun touched found => (tracks.reached touched found).trans grown

/-- An accepted update that found no free block. -/
theorem Tracks.full (tracks : Tracks m since) (none_ : m.destination = none)
    (noWrap : m.stor.currentSequenceNumber.toNat + 1 < 2 ^ 64) :
    Tracks m.searched (since.update m key (-ENOSPC)) := by
  have entries := @Tracks.entries m m.searched since key (-ENOSPC) tracks (since.accepted + 1)
    (Nat.le_succ _) (fun _ _ => rfl) fun _ zero => absurd zero (by decide)
  have overwritten : (since.update m key (-ENOSPC)).overwritten = since.overwritten := by
    simp only [Since.update, none_, Option.toFinset_none, Finset.union_empty]
  refine ⟨?_, ?_, ?_, entries.1, entries.2⟩
  · show m.nextSequence.toNat = since.accepted + 1
    rw [Machine.nextSequence_toNat noWrap, tracks.counter]
  · rw [overwritten]
    exact tracks.kept
  · rw [overwritten]
    exact fun written valid => Nat.le_succ_of_le (tracks.recent written valid)

/-- An accepted update that wrote its block. -/
theorem Tracks.wrote (tracks : Tracks m since) (appended : Appended m d block next)
    (noWrap : m.stor.currentSequenceNumber.toNat + 1 < 2 ^ 64)
    (sequence : block.header.sequence.toNat ≤ since.accepted + 1)
    (others : ∀ key', key' ≠ key ∨ ret ≠ 0 →
      next.stor.directory.findEntryForKey key' = m.stor.directory.findEntryForKey key')
    (own : ∀ entry, ret = 0 → next.stor.directory.findEntryForKey key = some entry →
      entry.sequence.toNat ≤ since.accepted + 1) :
    Tracks next (since.update m key ret) := by
  have entries := tracks.entries (Nat.le_succ since.accepted) others own
  have overwritten : ∀ b,
      b ∈ (since.update m key ret).overwritten ↔ b ∈ since.overwritten ∨ b = d := by
    intro b
    simp only [Since.update, appended.found, Option.toFinset_some, Finset.mem_union,
      Finset.mem_singleton]
  refine ⟨?_, ?_, ?_, entries.1, entries.2⟩
  · rw [appended.counter_toNat noWrap, tracks.counter]
    rfl
  · intro b untouched
    rw [overwritten, not_or] at untouched
    rw [appended.file, Function.update_of_ne untouched.2]
    exact tracks.kept untouched.1
  · intro b held written valid
    rcases appended.held valid with ⟨_, rfl⟩ | ⟨other, old⟩
    · exact sequence
    · exact Nat.le_succ_of_le (tracks.recent (((overwritten b).mp written).resolve_right other) old)

/-- A call that returns is noted as what it was. -/
theorem Tracks.step (steady : Steady m) (tracks : Tracks m since) {call : Call}
    (inProcess : call.InProcess) (io : call.IoSucceeds) (noWrap : NoWrap m call)
    {response : Response} (returned : exec port m call = .ok response next) :
    Tracks next (since.note m call response) := by
  have outcome := @exec_outcome port m steady.usable call inProcess
  rw [returned] at outcome
  cases outcome with
  | got => exact tracks
  | @rejected _ env named refused =>
    cases call with
    | set _ _ _ | del _ _ =>
      simp only [Since.note, if_pos]
      exact tracks
    | get _ _ _ _ | reopen _ _ => cases named
  | @full _ env named accepted none_ =>
    have small := noWrap accepted
    cases call with
    | set _ _ _ | del _ _ => exact tracks.full none_ small
    | get _ _ _ _ | reopen _ _ => cases named
  | failed named _ _ code nonzero =>
    rw [io.write named] at code
    exact absurd (Option.some.inj code).symm nonzero
  | @noNode env key v d block valid found absent insert code carries =>
    have noWrap := noWrap ⟨v, rfl, valid⟩
    have appended := steady.appended found carries.valid (WriteResult.changed_of_code_zero code)
    refine tracks.wrote appended noWrap ?_ (fun _ _ => rfl) fun _ zero => absurd zero (by decide)
    rw [carries.sequence_eq, Machine.nextSequence_toNat noWrap, tracks.counter]
  | @stored env key v d block allocator valid allocated found code newer inserts carries marks =>
    have noWrap := noWrap ⟨v, rfl, valid⟩
    have stored := steady.stored found code carries marks
    have reached : m.nextSequence.toNat = since.accepted + 1 := by
      rw [Machine.nextSequence_toNat noWrap, tracks.counter]
    refine tracks.wrote stored.appended noWrap ?_ ?_ ?_
    · rw [carries.sequence_eq, reached]
    · intro key' other
      rw [stored.directory, KvDirectory.find_withEntry,
        if_neg (other.resolve_right (not_not.mpr rfl))]
    · rintro entry _ lookup
      rw [stored.find, Option.some.injEq] at lookup
      rw [← lookup, reached]
  | @removed env key d block entry allocator found code lookup live carries frees =>
    have noWrap := noWrap ⟨entry, lookup, live⟩
    have deleted := steady.deleted found code lookup carries frees
    refine tracks.wrote deleted.appended noWrap ?_ ?_ ?_
    · rw [carries.sequence_eq, tracks.counter]
      exact Nat.le_succ _
    · intro key' other
      rw [deleted.directory, find_without, if_neg (other.resolve_right (not_not.mpr rfl))]
    · intro entry' _ lookup'
      rw [deleted.directory, find_without, if_pos rfl] at lookup'
      cases lookup'

end Tracks

/-! ## Runs -/

section Runs

variable {port : Port} {m : Machine}

/-- The machine, beside what its run has done since the last open. -/
structure Noted (noted : Machine × Since) : Prop where
  standing : Standing noted.1
  tracks : noted.1.opened = true → Tracks noted.1 noted.2

theorem Noted.step {noted : Machine × Since} {last : Machine × Since}
    (holds : Noted noted) {call : Call} (legal : Legal noted.1 call)
    (io : call.IoSucceeds) (noWrap : NoWrap noted.1 call) {response : Response}
    (returned : noting (exec port) Since.note noted call = .ok response last) :
    Noted last := by
  obtain ⟨next, ended, rfl⟩ := noting_eq_ok.mp returned
  refine ⟨holds.standing.step legal ended, fun opened => ?_⟩
  by_cases inProcess : call.InProcess
  · have here := legal.opened inProcess
    exact (holds.tracks here).step (holds.standing.steady here) inProcess io noWrap ended
  · cases call with
    | set _ _ _ | del _ _ | get _ _ _ _ => exact absurd trivial inProcess
    | reopen argc env =>
      obtain ⟨file, scanned⟩ := reopen_scanned holds.standing.count_le ended
      have tracks := (scanned opened).tracks
      rw [file] at tracks
      exact tracks

theorem Noted.takesEffect_iff {noted : Machine × Since} (holds : Noted noted)
    {call : Call} (legal : Legal noted.1 call) (io : call.IoSucceeds)
    (noWrap : NoWrap noted.1 call) :
    TakesEffect port noted.1 call ↔ CaughtUp noted.2 noted.1 call := by
  cases call with
  | set env key v =>
    cases v with
    | none => exact Iff.rfl
    | some v =>
      rw [KvStore.takesEffect_iff (holds.standing.steady legal) io]
      refine imp_congr_right fun reaches => ?_
      exact (holds.tracks legal).outranks_iff (noWrap ⟨v, rfl, reaches.valid⟩)
  | del _ _ | get _ _ _ _ | reopen _ _ => exact Iff.rfl

/-- Every set of a run takes effect exactly if, as each comes to the directory, the updates
since the last open have caught up with what the file had then.  Before the first reopen the
file had nothing. -/
theorem updates_take_effect_iff (created : Created port m) {calls : List Call}
    (legal : Allowed (exec port) Legal m calls) (io : ∀ call ∈ calls, call.IoSucceeds)
    (noWrap : Allowed (exec port) NoWrap m calls) :
    (Allowed (exec port) (TakesEffect port) m calls ↔
      Allowed (noting (exec port) Since.note) (fun noted call => CaughtUp noted.2 noted.1 call)
        (m, .opened m.file) calls) ∧
      ((∀ call ∈ calls, call.InProcess) → Allowed (exec port) (TakesEffect port) m calls) := by
  obtain ⟨fd, rfl⟩ := created_iff.mp created
  have permitted : Allowed (exec port)
      (fun m call => Legal m call ∧ call.IoSucceeds ∧ NoWrap m call) (fresh fd) calls := legal.and ((Allowed.of_mem calls _ fun _ => io).and noWrap)
  have start : Noted (fresh fd, .opened (fresh fd).file) :=
    ⟨standing_fresh fd, fun _ => tracks_fresh fd⟩
  have exact_ : Allowed (exec port) (TakesEffect port) (fresh fd) calls ↔
      Allowed (noting (exec port) Since.note) (fun noted call => CaughtUp noted.2 noted.1 call)
        (fresh fd, .opened (fresh fd).file) calls := by
    rw [← @allowed_noting _ _ _ _ _ _ _ Since.note _ (fresh fd, .opened (fresh fd).file)]
    have permitted' : Allowed (noting (exec port) Since.note)
        (fun noted call => Legal noted.1 call ∧ call.IoSucceeds ∧ NoWrap noted.1 call)
        (fresh fd, .opened (fresh fd).file) calls :=
      (@allowed_noting _ _ _ _ (exec port) (fun m call => Legal m call ∧ call.IoSucceeds ∧
        NoWrap m call) _ Since.note _ _).mpr permitted
    refine allowed_congr ?_ ?_ start permitted'
    · exact fun holds now returned => holds.step now.1 now.2.1 now.2.2 returned
    · exact fun holds now => holds.takesEffect_iff now.1 now.2.1 now.2.2
  refine ⟨exact_, fun inProcess => exact_.mpr ?_⟩
  refine @Allowed.of_invariant _ _ _ _ _ (fun _ call => call.InProcess)
    (fun noted => noted.2.file = []) _ ?_ ?_ _ _ rfl (Allowed.of_mem calls _ fun _ => inProcess)
  · rintro noted call response last empty inProcess returned
    obtain ⟨next, _, rfl⟩ := noting_eq_ok.mp returned
    cases call with
    | set _ _ _ | del _ _ =>
      simp only [Since.note]
      split <;> exact empty
    | get _ _ _ _ => exact empty
    | reopen _ _ => exact absurd inProcess id
  · rintro ⟨m, since⟩ call empty _
    cases call with
    | set env key v =>
      cases v with
      | none => trivial
      | some v =>
        intro _ b block valid
        rw [show since.file = [] from empty] at valid
        simp [validBlock] at valid
    | del _ _ | get _ _ _ _ | reopen _ _ => trivial

/-- A deletion brings the counter up to the file that was opened again. -/
def caughtUpRun : List Call :=
  [.set .quiet 1 (some .one), .reopen 2 .quiet, .del .quiet 1, .set .quiet 2 (some .one)]

theorem updates_take_effect_iff_caught_up :
    Allowed (exec .cpp) (TakesEffect .cpp) (fresh 3) caughtUpRun := by
  obtain ⟨block, m₁, m₂, run⟩ := set_reopened .cpp
  obtain ⟨d, block', m₃, del, deleted⟩ := run.deletes
  have opened₃ : m₃.opened = true := deleted.opened.trans run.opened
  have counter₃ : m₃.stor.currentSequenceNumber = 1 := by
    rw [deleted.appended.counter, Machine.nextSequence, run.scanned.counter]
    rfl
  have legal : Allowed (exec .cpp) Legal (fresh 3) caughtUpRun :=
    .cons rfl run.set (.cons trivial run.reopened (.cons run.opened del
      ⟨opened₃, fun _ _ _ => trivial⟩))
  have io : ∀ call ∈ caughtUpRun, call.IoSucceeds := by
    simp only [caughtUpRun, List.forall_mem_cons]
    exact ⟨rfl, ⟨⟨3, rfl⟩, rfl, fun _ => rfl⟩, rfl, rfl, by simp⟩
  have noWrap : Allowed (exec .cpp) NoWrap (fresh 3) caughtUpRun := by
    refine .cons (fun _ => by decide) run.set (.cons (fun impossible => absurd impossible id)
      run.reopened (.cons (fun _ => ?_) del ⟨fun _ => ?_, fun _ _ _ => trivial⟩))
    · rw [run.scanned.counter]
      decide
    · rw [counter₃]
      decide
  refine (updates_take_effect_iff (created_iff.mpr ⟨3, rfl⟩) legal io noWrap).1.mpr ?_
  refine .cons ?_ (noting_eq_ok.mpr ⟨_, run.set, rfl⟩) (.cons trivial
    (noting_eq_ok.mpr ⟨_, run.reopened, rfl⟩) (.cons trivial (noting_eq_ok.mpr ⟨_, del, rfl⟩)
      ⟨?_, fun _ _ _ => trivial⟩))
  · intro _ b held valid
    simp [Since.opened, fresh, validBlock] at valid
  · -- The one block that the file had is as old as the one update since.
    intro _ b held valid _
    have there : validBlock m₂.file b = some held := run.file.symm ▸ valid
    rw [(run.only there).2, run.stored.carries.sequence_eq]
    exact Nat.le_refl 1

/-! ## A set that comes too early -/

/-- A key is set again once the file has been opened again. -/
def overtakenRun : List Call :=
  [.set .quiet 1 (some .one), .reopen 2 .quiet, .set .quiet 1 (some .one)]

theorem overtaken (port : Port) :
    Allowed (exec port) Legal (fresh 3) overtakenRun ∧
      ¬ Allowed (exec port) (TakesEffect port) (fresh 3) overtakenRun := by
  obtain ⟨block, m₁, m₂, run⟩ := set_reopened port
  constructor
  · exact .cons rfl run.set (.cons trivial run.reopened ⟨run.opened, fun _ _ _ => trivial⟩)
  · rintro ⟨_, later⟩
    have effect := ((later _ _ run.set).2 _ _ run.reopened).1
    obtain ⟨d, found⟩ := run.room
    -- The counter is at 0, so this set has the number of the first one.
    have newer := ((takesEffect_iff run.steady rfl).mp effect
      ⟨one_valid, rfl, by simp [found], fun _ => rfl⟩).1 0 block run.held
    rw [Machine.nextSequence, run.scanned.counter, run.stored.carries.sequence_eq] at newer
    exact absurd newer (by decide)

/-- The second set of this run has the sequence number of the first, in either port. -/
theorem set_overtaken :
    (Created .cpp (fresh 3) ∧ Allowed (exec .cpp) Legal (fresh 3) overtakenRun ∧
      (∀ call ∈ overtakenRun, call.IoSucceeds) ∧
      ¬ Allowed (exec .cpp) (TakesEffect .cpp) (fresh 3) overtakenRun) ∧
    (Created .c (fresh 3) ∧ Allowed (exec .c) Legal (fresh 3) overtakenRun ∧
      (∀ call ∈ overtakenRun, call.IoSucceeds) ∧
      ¬ Allowed (exec .c) (TakesEffect .c) (fresh 3) overtakenRun) := by
  have io : ∀ call ∈ overtakenRun, call.IoSucceeds := by
    intro call member
    simp only [overtakenRun, List.mem_cons, List.not_mem_nil, or_false] at member
    rcases member with rfl | rfl | rfl
    · rfl
    · exact ⟨⟨3, rfl⟩, rfl, fun _ => rfl⟩
    · rfl
  obtain ⟨legalCpp, failsCpp⟩ := overtaken .cpp
  obtain ⟨legalC, failsC⟩ := overtaken .c
  exact ⟨⟨created_iff.mpr ⟨3, rfl⟩, legalCpp, io, failsCpp⟩,
    ⟨created_iff.mpr ⟨3, rfl⟩, legalC, io, failsC⟩⟩

end Runs

end KeyValueStore.KvStore
