import KeyValueStore.Submission.Recovery

/-! # A store in service

`Serving` is the invariant of runs in which the environment lets every call through.
`Serving.step` is the one lemma about such a call: what it answers, and what it does to
the map, to the keys of the directory and to the sequence counter.

A run that is shorter than the range of the counter never wraps it
(`allowed_of_short`). -/

namespace KeyValueStore

open Runs VersionLog

structure Serving (m : Machine) : Prop where
  opened : m.opened = true
  log : WellFormedLog m.file
  logged : Logged m

theorem serving_created {m : Machine} (created : Created m) :
    Serving m ∧ m.mapping = Mapping.empty ∧ m.stor.directory.keys = ∅ ∧
      m.stor.currentSequenceNumber = 0 := by
  obtain ⟨fd, rfl⟩ := created_iff.mp created
  have replayed := replayed_initial [] fd
  have logged := replayed.logged WellFormedLog.empty.adoptable
    (by intro b block valid; simp [validBlock] at valid) true
  refine ⟨⟨rfl, .empty, logged⟩, ?_, ?_, rfl⟩
  · funext key
    exact Machine.mapping_of_absent (by simp [Machine.fresh, KvStor.initial,
      KvDirectory.findEntryForKey])
  · ext key
    simp [Machine.fresh, KvStor.initial, KvDirectory.mem_keys, KvDirectory.findEntryForKey]

/-! ## The size of the bitmap -/

/-- If each entry has a marked block of its own, there are as many of these as entries. -/
theorem card_allocated {directory : KvDirectory} {allocator : KvBlockAllocator}
    (owned : ∀ b, b ∈ allocator.allocated ↔
      ∃ key entry, directory.findEntryForKey key = some entry ∧ entry.dataBlock = b)
    (injective : ∀ {key key' entry entry'}, directory.findEntryForKey key = some entry →
      directory.findEntryForKey key' = some entry' → entry.dataBlock = entry'.dataBlock →
      key = key') : allocator.allocated.card = directory.keys.card := by
  symm
  refine Finset.card_bij
    (fun key member => ((KvDirectory.mem_keys.mp member).choose).dataBlock) ?_ ?_ ?_
  · intro key member
    exact (owned _).mpr ⟨key, _, (KvDirectory.mem_keys.mp member).choose_spec, rfl⟩
  · intro key member key' member' same
    exact injective (KvDirectory.mem_keys.mp member).choose_spec
      (KvDirectory.mem_keys.mp member').choose_spec same
  · intro b held
    obtain ⟨key, entry, found, rfl⟩ := (owned b).mp held
    have member := KvDirectory.mem_keys.mpr ⟨entry, found⟩
    refine ⟨key, member, ?_⟩
    have chosen := (KvDirectory.mem_keys.mp member).choose_spec
    exact congrArg DirectoryEntry.dataBlock (Option.some.inj (chosen.symm.trans found))

/-- There are as many allocated blocks as entries. -/
theorem Owns.card {directory : KvDirectory} {allocator : KvBlockAllocator}
    (owns : Owns directory allocator) : allocator.allocated.card = directory.keys.card :=
  card_allocated owns.owned owns.injective

theorem Owns.card_le {directory : KvDirectory} {allocator : KvBlockAllocator}
    (owns : Owns directory allocator) : directory.keys.card ≤ capacity := by
  calc directory.keys.card = allocator.allocated.card := owns.card.symm
    _ ≤ (Finset.range allocator.numberOfBlocks).card :=
      Finset.card_le_card (Finset.filter_subset _ _)
    _ = capacity := by rw [Finset.card_range, owns.size]

/-- There is nowhere to write exactly when every block has an entry. -/
theorem Sound.destination_eq_none {m : Machine} (sound : Sound m.stor) :
    m.destination = none ↔ m.stor.directory.keys.card = capacity := by
  rw [Machine.destination, KvAppendPoint.next_eq_none sound.inRange, ← sound.owns.card]
  constructor
  · intro full
    have all : m.stor.blockAllocator.allocated =
        Finset.range m.stor.blockAllocator.numberOfBlocks := by
      ext b
      rw [Finset.mem_range]
      exact ⟨fun held => (KvBlockAllocator.mem_allocated.mp held).1, full b⟩
    rw [all, Finset.card_range, sound.owns.size]
  · intro full b inside
    have subset : m.stor.blockAllocator.allocated ⊆
        Finset.range m.stor.blockAllocator.numberOfBlocks := Finset.filter_subset _ _
    -- A subset of the blocks that is as large as all of them is all of them.
    have all := Finset.eq_of_subset_of_card_le subset
      (by rw [Finset.card_range, sound.owns.size, full])
    rw [all, Finset.mem_range]
    exact inside

/-- As long as there are fewer keys than blocks, there is a block to write to. -/
theorem Sound.room {m : Machine} (sound : Sound m.stor)
    (few : m.stor.directory.keys.card < capacity) : ∃ d, m.destination = some d := by
  apply Option.ne_none_iff_exists'.mp
  intro full
  exact absurd (sound.destination_eq_none.mp full) (Nat.ne_of_lt few)

/-! ## One call -/

/-- The keys that have been set, after a call. -/
def recordKey (everSet : Finset UInt64) (call : Call) (response : Response) : Finset UInt64 :=
  if response.ret = 0 then
    match call with
    | .set _ key _ => insert key everSet
    | .del .. | .get .. | .reopen .. => everSet
  else everSet

/-- A call whose environment let it through. -/
structure Served (m : Machine) (call : Call) (response : Response) (next : Machine) : Prop where
  serving : Serving next
  answers : Answers m.mapping call response
  mapping : next.mapping = m.mapping.record call response
  full : response.ret = -ENOSPC ↔ call.Accepted m ∧ m.destination = none
  keys : next.stor.directory.keys = recordKey m.stor.directory.keys call response
  counter : next.stor.currentSequenceNumber.toNat ≤ m.stor.currentSequenceNumber.toNat + 1

theorem enospc_ne : (-EINVAL : Int) ≠ -ENOSPC ∧ (-ENOENT : Int) ≠ -ENOSPC ∧
    (0 : Int) ≠ -ENOSPC ∧ (-EINVAL : Int) ≠ -ENOENT := by decide

theorem Answers.get_ne_enospc {mapping : Mapping} {read : ReadResult} {key : UInt64} {v : Value}
    {response : Response} (answers : Answers mapping (.get read key v) response) :
    response.ret ≠ -ENOSPC := by
  simp only [Answers] at answers
  split at answers
  · rw [answers]
    exact enospc_ne.2.1
  · split at answers
    · rw [answers]
      exact enospc_ne.1
    · rw [answers.1]
      exact enospc_ne.2.2.1

/-- A get that fails leaves the caller's value. -/
theorem Answers.value_of_failed {mapping : Mapping} {read : ReadResult} {key : UInt64} {v : Value}
    {response : Response} (answers : Answers mapping (.get read key v) response)
    (failed : response.ret ≠ 0) : response.value = some v := by
  simp only [Answers] at answers
  split at answers
  · rw [answers]
  · split at answers
    · rw [answers]
    · exact absurd answers.1 failed

/-- The code of an update answers as it should. -/
theorem Backed.answers_update {m : Machine} (backed : Backed m) {call : Call} {env : BlockWrite}
    {key size : UInt64} {valueData : Option Bytes}
    (appends : call.Appends env key size valueData) {ret : Int}
    (code : call.Accepted m ∧ (ret = 0 ∨ ret = -ENOSPC) ∨
      ¬ call.Accepted m ∧ ret = call.rejection) : Answers m.mapping call ⟨ret, none⟩ := by
  obtain ⟨invalid, missing, zero, _⟩ := enospc_ne
  cases appends with
  | set env key v =>
    simp only [Answers, Call.Accepted, Call.rejection] at *
    rcases code with ⟨accepted, rfl | rfl⟩ | ⟨refused, rfl⟩
    · exact ⟨⟨fun impossible => absurd impossible (by decide), fun bad => by omega⟩, .inl rfl⟩
    · exact ⟨⟨fun same => absurd same.symm invalid, fun bad => by omega⟩, .inr (.inr rfl)⟩
    · exact ⟨⟨fun _ => by omega, fun _ => rfl⟩, .inr (.inl rfl)⟩
  | del env key =>
    simp only [Answers, Call.Accepted, Call.rejection, backed.legible.mapping_eq_none] at *
    rcases code with ⟨accepted, rfl | rfl⟩ | ⟨refused, rfl⟩
    · exact ⟨⟨fun impossible => absurd impossible (by decide), fun dead => absurd accepted dead⟩,
        .inl rfl⟩
    · exact ⟨⟨fun same => absurd same.symm missing, fun dead => absurd accepted dead⟩,
        .inr (.inr rfl)⟩
    · exact ⟨⟨fun _ => refused, fun _ => rfl⟩, .inr (.inl rfl)⟩

namespace Serving

variable {m : Machine}

theorem served_get (serving : Serving m) (key : UInt64) (v : Value) :
    ∃ response, exec m (.get .full key v) = .ok response m ∧
      Served m (.get .full key v) response m := by
  obtain ⟨response, returned, answers | ⟨impossible, _⟩⟩ := serving.logged.backed.get .full key v
  · refine ⟨response, returned, serving, answers, ?_, ?_, ?_, Nat.le_succ _⟩
    · simp [Mapping.record]
    · simp only [Call.Accepted, false_and, iff_false]
      exact answers.get_ne_enospc
    · simp [recordKey]
  · exact absurd trivial impossible

theorem served_reopen (serving : Serving m) {argc : Nat} {env : OpenEnv}
    (undisturbed : Undisturbed m (.reopen argc env)) :
    ∃ response next, exec m (.reopen argc env) = .ok response next ∧
      Served m (.reopen argc env) response next := by
  obtain ⟨stor, returned, logged, _, bounded⟩ :=
    exec_reopen_undisturbed serving.log.adoptable undisturbed
  refine ⟨_, _, returned, ⟨rfl, serving.log, logged⟩, rfl, ?_, ?_, ?_, ?_⟩
  · exact serving.logged.mapping_eq logged rfl
  · simp only [Call.Accepted, false_and, iff_false]
    exact enospc_ne.2.2.1
  · show stor.directory.keys = m.stor.directory.keys
    rw [serving.logged.directory_eq logged rfl]
  · refine bounded _ ?_
    intro b key seq stored
    have bound := serving.logged.counted b key seq stored
    omega

theorem recordKey_update {call : Call} {env : BlockWrite} {key size : UInt64}
    {valueData : Option Bytes} (appends : call.Appends env key size valueData)
    (accepted : call.Accepted m) :
    insert key m.stor.directory.keys = recordKey m.stor.directory.keys call ⟨0, none⟩ := by
  cases appends with
  | set env key v => rfl
  | del env key =>
    -- A deletion keeps the entry of its key.
    obtain ⟨entry, found, _⟩ := accepted
    exact Finset.insert_eq_of_mem (KvDirectory.mem_keys.mpr ⟨entry, found⟩)

theorem served_update (serving : Serving m) {call : Call} {env : BlockWrite} {key size : UInt64}
    {valueData : Option Bytes} (appends : call.Appends env key size valueData)
    (succeeds : env.Succeeds) (noWrap : NoWrap m call) :
    ∃ response next, exec m call = .ok response next ∧ Served m call response next := by
  have outcome := serving.logged.update serving.log appends noWrap
    (by rw [succeeds.write]; trivial) (by rw [succeeds.insert]; decide)
  generalize exec m call = result at outcome
  cases outcome with
  | rejected refused =>
    have failed := call.rejection_ne_zero
    have code : call.rejection ≠ -ENOSPC := by
      cases call <;> simp [Call.rejection, EINVAL, ENOENT, ENOSPC]
    have answers := serving.logged.backed.answers_update appends (.inr ⟨refused, rfl⟩)
    refine ⟨_, m, rfl, serving, answers, ?_, ?_, ?_, Nat.le_succ _⟩
    · exact (Mapping.record_of_ne_zero failed).symm
    · exact ⟨fun same => absurd same code, fun both => absurd both.1 refused⟩
    · exact (if_neg failed).symm
  | full accepted none_ searched =>
    have next := Machine.nextSequence_toNat (noWrap.1 accepted)
    have answers := serving.logged.backed.answers_update appends (.inl ⟨accepted, .inr rfl⟩)
    refine ⟨_, _, rfl, ⟨serving.opened, serving.log, searched⟩, answers, ?_, ?_, ?_,
      Nat.le_of_eq next⟩
    · exact (Mapping.record_of_ne_zero (by decide)).symm
    · exact ⟨fun _ => ⟨accepted, none_⟩, fun _ => rfl⟩
    · exact (if_neg (by decide)).symm
  | failed _ _ code nonzero _ =>
    rw [succeeds.write, WriteResult.code, Option.some.injEq] at code
    exact absurd code.symm nonzero
  | crashed insert =>
    rw [succeeds.insert] at insert
    cases insert
  | done accepted found log logged opened mapping keys _ counter =>
    have next := Machine.nextSequence_toNat (noWrap.1 accepted)
    have answers := serving.logged.backed.answers_update appends (.inl ⟨accepted, .inl rfl⟩)
    refine ⟨_, _, rfl, ⟨opened.trans serving.opened, log, logged⟩, answers, mapping, ?_, ?_, ?_⟩
    · refine ⟨fun impossible => absurd impossible enospc_ne.2.2.1, ?_⟩
      rintro ⟨_, none_⟩
      rw [found] at none_
      cases none_
    · rw [keys, recordKey_update appends accepted]
    · rw [counter]
      exact Nat.le_of_eq next

/-- A call that the environment lets through. -/
theorem step (serving : Serving m) {call : Call} (succeeds : call.Succeeds)
    (noWrap : NoWrap m call) :
    ∃ response next, exec m call = .ok response next ∧ Served m call response next := by
  cases call with
  | set env key v => exact serving.served_update (.set env key v) succeeds noWrap
  | del env key => exact serving.served_update (.del env key) succeeds noWrap
  | get read key v =>
    obtain rfl : read = .full := succeeds
    obtain ⟨response, returned, served⟩ := serving.served_get key v
    exact ⟨response, m, returned, served⟩
  | reopen argc env => exact serving.served_reopen ⟨succeeds, noWrap⟩

theorem noWrap (serving : Serving m) (call : Call)
    (small : m.stor.currentSequenceNumber.toNat + 1 < 2 ^ 64) : NoWrap m call := by
  refine ⟨fun _ => small, ?_⟩
  intro _ _ _ b block valid
  have bound := serving.logged.counted b _ _ (fileLog_of_valid valid)
  omega

/-- The counter goes up by at most one with each call. -/
theorem allowed_of_short : ∀ {calls : List Call} {m : Machine}, Serving m →
    (∀ call ∈ calls, call.Succeeds) →
    m.stor.currentSequenceNumber.toNat + calls.length < 2 ^ 64 →
    Allowed exec Undisturbed m calls
  | [], _, _, _, _ => trivial
  | call :: calls, m, serving, succeed, short => by
    rw [List.length_cons] at short
    have now := serving.noWrap call (by omega)
    have succeeds := succeed call (List.mem_cons_self ..)
    refine ⟨⟨succeeds, now⟩, ?_⟩
    intro response next returned
    obtain ⟨_, _, returned', served⟩ := serving.step succeeds now
    rw [returned, EStateM.Result.ok.injEq] at returned'
    obtain ⟨rfl, rfl⟩ := returned'
    have counter := served.counter
    refine served.serving.allowed_of_short ?_ (by omega)
    intro call' member
    exact succeed call' (List.mem_cons_of_mem _ member)

end Serving

/-! ## A new store -/

theorem noWrap_fresh (fd : Nat) (call : Call) : NoWrap (.fresh fd) call := by
  obtain ⟨serving, _, _, counter⟩ := serving_created (created_iff.mpr ⟨fd, rfl⟩)
  exact serving.noWrap call (by rw [counter]; decide)

theorem allowed_fresh (fd : Nat) {calls : List Call} (succeed : ∀ call ∈ calls, call.Succeeds)
    (short : calls.length < 2 ^ 64) : Allowed exec Undisturbed (.fresh fd) calls := by
  obtain ⟨serving, _, _, counter⟩ := serving_created (created_iff.mpr ⟨fd, rfl⟩)
  refine serving.allowed_of_short succeed ?_
  rw [counter]
  simpa using short

/-- A new store writes to the first block. -/
theorem fresh_destination (fd : Nat) : (Machine.fresh fd).destination = some 0 := by
  obtain ⟨serving, _, empty, _⟩ := serving_created (created_iff.mpr ⟨fd, rfl⟩)
  obtain ⟨d, found⟩ := serving.logged.backed.sound.room (by rw [empty]; decide)
  have blocks : blockCount (Machine.fresh fd).file = 0 := Nat.zero_div _
  have dense := (serving.logged.destination_dense serving.log found).1
  rw [blocks, Nat.le_zero] at dense
  rw [found, dense]

/-! ## A store with one key -/

theorem card_lt_capacity {key : UInt64} {keys : Finset UInt64} (only : keys ⊆ {key}) :
    keys.card < capacity := by
  have one := Finset.card_le_card only
  rw [Finset.card_singleton] at one
  exact Nat.lt_of_le_of_lt one (by decide)

/-- A set makes the file one block longer, as long as it has not its full size. -/
theorem Serving.set_grows {m : Machine} {key : UInt64} {env : BlockWrite} {v : Value}
    (serving : Serving m) (only : m.stor.directory.keys ⊆ {key}) (succeeds : env.Succeeds)
    (valid : v.size.toNat ≠ 0 ∧ v.size.toNat ≤ MAXBLOB) (noWrap : NoWrap m (.set env key v)) :
    ∃ next, exec m (.set env key v) = .ok ⟨0, none⟩ next ∧ Serving next ∧
      next.stor.directory.keys ⊆ {key} ∧
      blockCount next.file = min (blockCount m.file + 1) capacity ∧
      next.stor.currentSequenceNumber.toNat = m.stor.currentSequenceNumber.toNat + 1 := by
  have few := card_lt_capacity only
  obtain ⟨d, found⟩ := serving.logged.backed.sound.room few
  obtain ⟨_, grows⟩ := serving.logged.destination_dense serving.log found
  have outcome := serving.logged.update serving.log (.set env key v) noWrap
    (by rw [succeeds.write]; trivial) (by rw [succeeds.insert]; decide)
  generalize exec m (.set env key v) = result at outcome
  cases outcome with
  | rejected refused => exact absurd valid refused
  | full _ none_ _ => rw [found] at none_; cases none_
  | failed _ _ code nonzero _ =>
    rw [succeeds.write, WriteResult.code, Option.some.injEq] at code
    exact absurd code.symm nonzero
  | crashed insert =>
    rw [succeeds.insert] at insert
    cases insert
  | done accepted found' log logged opened _ keys blocks counter =>
    obtain rfl := Option.some.inj (found.symm.trans found')
    refine ⟨_, rfl, ⟨opened.trans serving.opened, log, logged⟩, ?_, ?_, ?_⟩
    · rw [keys]
      exact Finset.insert_subset (Finset.mem_singleton_self key) only
    · have bound := serving.log.count
      have inside := (serving.logged.backed.sound.destination_free found).1
      rw [serving.logged.backed.sound.owns.size] at inside
      rw [blocks]
      by_cases small : blockCount m.file < capacity
      · have last := grows small
        omega
      · omega
    · rw [counter, Machine.nextSequence_toNat (noWrap.1 accepted)]

/-! ## Whole runs -/

/-- The store is in service and holds this map. -/
structure Serves (m : Machine) (mapping : Mapping) : Prop where
  serving : Serving m
  mapping : m.mapping = mapping

theorem Serves.step {m : Machine} {mapping : Mapping} {call : Call} (serves : Serves m mapping)
    (undisturbed : Undisturbed m call) :
    ∃ response next, exec m call = .ok response next ∧ Answers mapping call response ∧
      Serves next (mapping.record call response) := by
  obtain ⟨serving, rfl⟩ := serves
  obtain ⟨response, next, returned, served⟩ := serving.step undisturbed.1 undisturbed.2
  exact ⟨response, next, returned, served.answers, served.serving, served.mapping⟩

theorem Serves.run {m : Machine} {mapping : Mapping} (serves : Serves m mapping)
    {calls : List Call} (undisturbed : Allowed exec Undisturbed m calls) :
    ∃ responses last, run exec m calls = .ok responses last ∧
      Conforms Mapping.record Answers mapping calls responses ∧
      Serves last (track Mapping.record mapping calls responses) :=
  run_refines Serves.step serves undisturbed

theorem serves_created {m : Machine} (created : Created m) : Serves m Mapping.empty :=
  ⟨(serving_created created).1, (serving_created created).2.1⟩

end KeyValueStore
