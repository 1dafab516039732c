import KeyValueStore.Lib.Runs
import KeyValueStore.Submission.Directory

/-! # Histories of the directory

What calls of `kv_directory__store_key` make of an empty directory, for versions that come in
any order: the newest version of every key, and an account of the blocks.  Each block that
became current is still stored or was handed back once (`store_key_last_writer_wins`). -/

namespace KeyValueStore

open Runs

/-- The arguments of a call of `kv_directory__store_key`. -/
structure StoreKeyCall where
  key : UInt64
  block : Nat
  bytes : UInt64
  sequence : UInt64
deriving DecidableEq

namespace StoreKeyCall

/-- A call for which there is memory. -/
def issue (directory : KvDirectory) (call : StoreKeyCall) :
    EStateM.Result Fault KvDirectory KvDirectory.Stored :=
  match directory.storeKey .inserted call.key call.block call.bytes call.sequence with
  | .error fault => .error fault directory
  | .ok stored => .ok stored stored.directory

def entry (call : StoreKeyCall) : DirectoryEntry :=
  ⟨call.key, call.sequence, call.block, call.bytes.toUInt16⟩

/-- Different blocks, and different versions if the key is the same. -/
def Apart (call other : StoreKeyCall) : Prop :=
  call.block ≠ other.block ∧ (call.key = other.key → call.sequence ≠ other.sequence)

/-- `call` stores the newest version of its key. -/
def Greatest (calls : List StoreKeyCall) (call : StoreKeyCall) : Prop :=
  call ∈ calls ∧ ∀ other ∈ calls, other.key = call.key → other.sequence ≤ call.sequence

/-- The block of a call that became the current one. -/
def takenBlock (call : StoreKeyCall) (stored : KvDirectory.Stored) : List Nat :=
  if stored.setAsCurrentKeyEntry then [call.block] else []

instance : Std.Symm Apart where
  symm _ _ apart := ⟨Ne.symm apart.1, fun key => Ne.symm (apart.2 (Eq.symm key))⟩

theorem Greatest.append {past : List StoreKeyCall} {call next : StoreKeyCall}
    (greatest : Greatest past call) (notNewer : next.key = call.key → next.sequence ≤ call.sequence) :
    Greatest (past ++ [next]) call := by
  refine ⟨List.mem_append_left _ greatest.1, ?_⟩
  intro other member key
  rcases List.mem_append.mp member with earlier | last
  · exact greatest.2 other earlier key
  · obtain rfl := List.mem_singleton.mp last
    exact notNewer key

theorem Greatest.perm {calls calls' : List StoreKeyCall} {call : StoreKeyCall}
    (greatest : Greatest calls call) (perm : calls.Perm calls') : Greatest calls' call :=
  ⟨perm.mem_iff.mp greatest.1, fun other member => greatest.2 other (perm.mem_iff.mpr member)⟩

/-- Of one key only one call is the newest. -/
theorem Greatest.unique {calls : List StoreKeyCall} (separate : calls.Pairwise Apart)
    {call other : StoreKeyCall} (greatest : Greatest calls call) (greatest' : Greatest calls other)
    (key : call.key = other.key) : call = other := by
  by_contra different
  have left := greatest.2 other greatest'.1 key.symm
  have right := greatest'.2 call greatest.1 key
  exact (separate.forall greatest.1 greatest'.1 different).2 key (UInt64.le_antisymm right left)

end StoreKeyCall

open StoreKeyCall

/-- The block that a call replaced, if any. -/
def KvDirectory.Stored.handedBlock (stored : KvDirectory.Stored) : List Nat :=
  if stored.replacedBlock = UINT32_MAX then [] else [stored.replacedBlock]

/-- The blocks of the calls that became current. -/
def takenBlocks (calls : List StoreKeyCall) (responses : List KvDirectory.Stored) : List Nat :=
  (List.zipWith takenBlock calls responses).flatten

/-- The blocks that were reported as replaced. -/
def handedBack (responses : List KvDirectory.Stored) : List Nat :=
  responses.flatMap KvDirectory.Stored.handedBlock

/-- `b` is the block of an entry. -/
def KvDirectory.Stores (directory : KvDirectory) (b : Nat) : Prop :=
  ∃ key entry, directory.findEntryForKey key = some entry ∧ entry.dataBlock = b

/-- What the directory holds after `past`, and where the blocks have gone. -/
structure Accounts (past : List StoreKeyCall) (directory : KvDirectory) (taken handed : List Nat) :
    Prop where
  newest : ∀ {key entry}, directory.findEntryForKey key = some entry →
    ∃ call, Greatest past call ∧ call.key = key ∧ entry = call.entry
  complete : ∀ {call}, call ∈ past → ∃ entry, directory.findEntryForKey call.key = some entry
  split : ∀ b, b ∈ taken ↔ directory.Stores b ∨ b ∈ handed
  disjoint : ∀ {b}, directory.Stores b → b ∉ handed
  once : handed.Nodup
  known : ∀ {b}, b ∈ taken → ∃ call ∈ past, call.block = b

theorem Accounts.empty : Accounts [] ⟨∅⟩ [] [] := by
  have absent : ∀ key, KvDirectory.findEntryForKey ⟨∅⟩ key = none := SearchTree.tfind_empty
  refine ⟨?_, ?_, ?_, ?_, List.nodup_nil, ?_⟩
  · intro key entry found
    rw [absent] at found
    cases found
  · intro call member
    cases member
  · simp [KvDirectory.Stores, absent]
  · simp
  · intro b member
    cases member

section Step

variable {past : List StoreKeyCall} {directory : KvDirectory} {taken handed : List Nat}
  {call : StoreKeyCall}

/-- An entry names a block that an earlier call brought. -/
theorem Accounts.stored_known (accounts : Accounts past directory taken handed) {key : UInt64}
    {entry : DirectoryEntry} (found : directory.findEntryForKey key = some entry) :
    ∃ other ∈ past, other.key = key ∧ entry = other.entry := by
  obtain ⟨other, greatest, key, entry⟩ := accounts.newest found
  exact ⟨other, greatest.1, key, entry⟩

/-- A block that no earlier call brought is in no account. -/
theorem Accounts.fresh (accounts : Accounts past directory taken handed)
    (apart : ∀ other ∈ past, Apart call other) : call.block ∉ taken := by
  intro member
  obtain ⟨other, earlier, same⟩ := accounts.known member
  exact (apart other earlier).1 same.symm

/-- The entry of `call` in place of one that is older, or of none. -/
theorem Accounts.newest_update (accounts : Accounts past directory taken handed)
    (newer : ∀ entry, directory.findEntryForKey call.key = some entry →
      entry.sequence ≤ call.sequence) {key : UInt64} {entry : DirectoryEntry}
    (found : (directory.withEntry call.entry).findEntryForKey key = some entry) :
    ∃ other, Greatest (past ++ [call]) other ∧ other.key = key ∧ entry = other.entry := by
  rw [KvDirectory.find_withEntry] at found
  split at found
  · rename_i same
    refine ⟨call, ⟨by simp, ?_⟩, same.symm, (Option.some.inj found).symm⟩
    intro other member sameKey
    rcases List.mem_append.mp member with earlier | last
    · -- The entry of the key is at least as new as any earlier call.
      obtain ⟨held, found'⟩ := accounts.complete earlier
      obtain ⟨best, greatest, key', rfl⟩ := accounts.newest found'
      have below := greatest.2 other earlier key'.symm
      exact UInt64.le_trans below (newer _ (sameKey ▸ found'))
    · rw [List.mem_singleton.mp last]
      exact UInt64.le_refl _
  · rename_i different
    obtain ⟨other, greatest, rfl, rfl⟩ := accounts.newest found
    exact ⟨other, greatest.append fun same => absurd same.symm different, rfl, rfl⟩

theorem Accounts.complete_update (accounts : Accounts past directory taken handed)
    {other : StoreKeyCall} (member : other ∈ past ++ [call]) :
    ∃ entry, (directory.withEntry call.entry).findEntryForKey other.key = some entry := by
  rw [KvDirectory.find_withEntry]
  split
  · exact ⟨_, rfl⟩
  · rename_i different
    rcases List.mem_append.mp member with earlier | last
    · exact accounts.complete earlier
    · rw [List.mem_singleton.mp last] at different
      exact absurd rfl different

theorem Accounts.known_update (accounts : Accounts past directory taken handed) {b : Nat}
    (member : b ∈ taken ++ [call.block]) : ∃ other ∈ past ++ [call], other.block = b := by
  rcases List.mem_append.mp member with earlier | last
  · obtain ⟨other, known, block⟩ := accounts.known earlier
    exact ⟨other, List.mem_append_left _ known, block⟩
  · exact ⟨call, by simp, (List.mem_singleton.mp last).symm⟩

/-- The first version of a key. -/
theorem Accounts.insert (accounts : Accounts past directory taken handed)
    (apart : ∀ other ∈ past, Apart call other)
    (absent : directory.findEntryForKey call.key = none) :
    Accounts (past ++ [call]) (directory.withEntry call.entry) (taken ++ [call.block]) handed := by
  have stores : ∀ b, (directory.withEntry call.entry).Stores b ↔
      b = call.block ∨ directory.Stores b := by
    intro b
    constructor
    · rintro ⟨key, entry, found, rfl⟩
      rw [KvDirectory.find_withEntry] at found
      split at found
      · cases found
        exact .inl rfl
      · exact .inr ⟨key, entry, found, rfl⟩
    · rintro (rfl | ⟨key, entry, found, rfl⟩)
      · exact ⟨call.key, call.entry, by simp [entry], rfl⟩
      · refine ⟨key, entry, ?_, rfl⟩
        rw [KvDirectory.find_withEntry, if_neg, found]
        rintro rfl
        rw [show call.entry.keyId = call.key from rfl, absent] at found
        cases found
  refine ⟨accounts.newest_update fun entry found => ?_, accounts.complete_update, ?_, ?_,
    accounts.once, accounts.known_update⟩
  · rw [absent] at found
    cases found
  · intro b
    rw [stores, List.mem_append, accounts.split, List.mem_singleton]
    tauto
  · intro b held
    rcases (stores b).mp held with rfl | held
    · intro member
      exact accounts.fresh apart ((accounts.split _).mpr (.inr member))
    · exact accounts.disjoint held

/-- The block of the entry that is replaced leaves the directory. -/
theorem Accounts.stores_replaced (accounts : Accounts past directory taken handed)
    (separate : past.Pairwise Apart) {entry : DirectoryEntry}
    (found : directory.findEntryForKey call.key = some entry) (b : Nat) :
    (directory.withEntry call.entry).Stores b ↔
      b = call.block ∨ directory.Stores b ∧ b ≠ entry.dataBlock := by
  constructor
  · rintro ⟨key, entry', found', rfl⟩
    rw [KvDirectory.find_withEntry] at found'
    split at found'
    · cases found'
      exact .inl rfl
    · rename_i different
      refine .inr ⟨⟨key, entry', found', rfl⟩, ?_⟩
      -- Entries of two keys come from two calls, and so have two blocks.
      intro same
      obtain ⟨one, earlier, key₁, rfl⟩ := accounts.stored_known found
      obtain ⟨two, earlier', key₂, rfl⟩ := accounts.stored_known found'
      have distinct : one ≠ two := by
        rintro rfl
        exact different (key₂.symm.trans key₁)
      exact (separate.forall earlier earlier' distinct).1 same.symm
  · rintro (rfl | ⟨⟨key, entry', found', rfl⟩, other⟩)
    · exact ⟨call.key, call.entry, by simp [StoreKeyCall.entry], rfl⟩
    · refine ⟨key, entry', ?_, rfl⟩
      rw [KvDirectory.find_withEntry, if_neg, found']
      rintro rfl
      rw [show call.entry.keyId = call.key from rfl, found, Option.some.injEq] at found'
      exact other (congrArg DirectoryEntry.dataBlock found'.symm)

/-- A newer version of a key: the block of the older one is handed back. -/
theorem Accounts.replace (accounts : Accounts past directory taken handed)
    (separate : past.Pairwise Apart) (apart : ∀ other ∈ past, Apart call other)
    {entry : DirectoryEntry} (found : directory.findEntryForKey call.key = some entry)
    (newer : entry.sequence.toNat < call.sequence.toNat) :
    Accounts (past ++ [call]) (directory.withEntry call.entry) (taken ++ [call.block])
      (handed ++ [entry.dataBlock]) := by
  have held : directory.Stores entry.dataBlock := ⟨call.key, entry, found, rfl⟩
  have old : entry.dataBlock ≠ call.block := by
    intro same
    exact accounts.fresh apart (same ▸ (accounts.split _).mpr (.inl held))
  have stores := accounts.stores_replaced separate found
  refine ⟨accounts.newest_update fun entry' found' => ?_, accounts.complete_update, ?_, ?_, ?_,
    accounts.known_update⟩
  · rw [found, Option.some.injEq] at found'
    rw [← found', UInt64.le_iff_toNat_le]
    exact Nat.le_of_lt newer
  · intro b
    rw [stores, List.mem_append, List.mem_append, accounts.split, List.mem_singleton,
      List.mem_singleton]
    by_cases replaced : b = entry.dataBlock
    · subst replaced
      simp [held]
    · tauto
  · intro b held'
    rw [List.mem_append, List.mem_singleton]
    rcases (stores b).mp held' with rfl | ⟨held', other⟩
    · rintro (member | same)
      · exact accounts.fresh apart ((accounts.split _).mpr (.inr member))
      · exact old same.symm
    · rintro (member | same)
      · exact accounts.disjoint held' member
      · exact other same
  · exact List.nodup_append.mpr ⟨accounts.once, List.nodup_singleton _, by
      intro b member b' last
      rw [List.mem_singleton.mp last]
      rintro rfl
      exact accounts.disjoint held member⟩

/-- An older version of a key is ignored. -/
theorem Accounts.ignore (accounts : Accounts past directory taken handed) {entry : DirectoryEntry}
    (found : directory.findEntryForKey call.key = some entry)
    (older : call.sequence.toNat < entry.sequence.toNat) :
    Accounts (past ++ [call]) directory taken handed := by
  refine ⟨?_, ?_, accounts.split, accounts.disjoint, accounts.once, ?_⟩
  · intro key entry' found'
    obtain ⟨other, greatest, rfl, rfl⟩ := accounts.newest found'
    refine ⟨other, greatest.append fun same => ?_, rfl, rfl⟩
    rw [← same, found, Option.some.injEq] at found'
    subst found'
    exact UInt64.le_of_lt (UInt64.lt_iff_toNat_lt.mpr older)
  · intro other member
    rcases List.mem_append.mp member with earlier | last
    · exact accounts.complete earlier
    · rw [List.mem_singleton.mp last]
      exact ⟨entry, found⟩
  · intro b member
    obtain ⟨other, known, block⟩ := accounts.known member
    exact ⟨other, List.mem_append_left _ known, block⟩

/-- One call keeps the accounts. -/
theorem Accounts.step (accounts : Accounts past directory taken handed)
    (separate : (past ++ [call]).Pairwise Apart)
    (inRange : ∀ other ∈ past, other.block < UINT32_MAX) :
    ∃ stored, call.issue directory = .ok stored stored.directory ∧
      Accounts (past ++ [call]) stored.directory (taken ++ takenBlock call stored)
        (handed ++ stored.handedBlock) := by
  obtain ⟨separate, -, earlier⟩ := List.pairwise_append.mp separate
  have apart : ∀ other ∈ past, Apart call other := fun other member =>
    symm (earlier other member call (List.mem_singleton_self call))
  cases found : directory.findEntryForKey call.key with
  | none =>
    refine ⟨_, by rw [issue, KvDirectory.storeKey_absent _ _ _ found], ?_⟩
    simpa [takenBlock, KvDirectory.Stored.handedBlock, StoreKeyCall.entry] using
      accounts.insert apart found
  | some entry =>
    obtain ⟨other, known, key, rfl⟩ := accounts.stored_known found
    rcases Nat.lt_trichotomy call.sequence.toNat other.sequence.toNat with older | same | newer
    · refine ⟨_, by rw [issue, KvDirectory.storeKey_older _ _ _ found older], ?_⟩
      simpa [takenBlock, KvDirectory.Stored.handedBlock] using accounts.ignore found older
    · exact absurd (UInt64.toNat_inj.mp same) ((apart other known).2 key.symm)
    · refine ⟨_, by rw [issue, KvDirectory.storeKey_newer _ _ _ found newer], ?_⟩
      have marker : ¬ other.block = UINT32_MAX := Nat.ne_of_lt (inRange other known)
      simpa [takenBlock, KvDirectory.Stored.handedBlock, StoreKeyCall.entry, marker] using
        accounts.replace separate apart found newer

end Step

/-- A run of calls keeps the accounts. -/
theorem Accounts.run {calls past : List StoreKeyCall} {directory : KvDirectory}
    {taken handed : List Nat} (accounts : Accounts past directory taken handed)
    (separate : (past ++ calls).Pairwise Apart)
    (inRange : ∀ call ∈ past ++ calls, call.block < UINT32_MAX) :
    ∃ responses last, Runs.run issue directory calls = .ok responses last ∧
      Accounts (past ++ calls) last (taken ++ takenBlocks calls responses)
        (handed ++ handedBack responses) := by
  induction calls generalizing past directory taken handed with
  | nil => exact ⟨[], directory, rfl, by simpa [takenBlocks, handedBack] using accounts⟩
  | cons call calls ih =>
    rw [List.append_cons] at separate inRange
    obtain ⟨stored, returned, next⟩ := accounts.step (List.pairwise_append.mp separate).1
      fun other member => inRange other (by simp [member])
    obtain ⟨responses, last, rest, final⟩ := ih next separate inRange
    refine ⟨stored :: responses, last, by simp only [Runs.run, returned, rest], ?_⟩
    simpa [takenBlocks, handedBack] using final

/-! ## The result -/

/-- Calls for blocks and versions that are all different. -/
structure Separate (calls : List StoreKeyCall) : Prop where
  apart : calls.Pairwise Apart
  blocks : ∀ call ∈ calls, call.block < UINT32_MAX
  bytes : ∀ call ∈ calls, call.bytes.toNat ≤ 65535

theorem Separate.perm {calls calls' : List StoreKeyCall} (separate : Separate calls)
    (perm : calls.Perm calls') : Separate calls' where
  apart := separate.apart.perm perm symm
  blocks call member := separate.blocks call (perm.mem_iff.mpr member)
  bytes call member := separate.bytes call (perm.mem_iff.mpr member)

/-- The directory has the newest version of every key and nothing else. -/
structure LastWriterWins (calls : List StoreKeyCall) (directory : KvDirectory) : Prop where
  stored : ∀ call, Greatest calls call → ∃ entry,
    directory.findEntryForKey call.key = some entry ∧ entry.dataBlock = call.block ∧
      entry.dataBytes.toNat = call.bytes.toNat ∧ entry.sequence = call.sequence
  only : ∀ key entry, directory.findEntryForKey key = some entry →
    ∃ call, Greatest calls call ∧ call.key = key

/-- Every block that became current is in one entry, or was handed back once. -/
structure ConservesBlocks (calls : List StoreKeyCall) (responses : List KvDirectory.Stored)
    (directory : KvDirectory) : Prop where
  split : ∀ b, b ∈ takenBlocks calls responses ↔ directory.Stores b ∨ b ∈ handedBack responses
  disjoint : ∀ b, directory.Stores b → b ∉ handedBack responses
  once : (handedBack responses).Nodup
  single : ∀ key key' entry entry', directory.findEntryForKey key = some entry →
    directory.findEntryForKey key' = some entry' → entry.dataBlock = entry'.dataBlock → key = key'

theorem Accounts.lastWriterWins {calls : List StoreKeyCall} {directory : KvDirectory}
    {taken handed : List Nat} (accounts : Accounts calls directory taken handed)
    (separate : Separate calls) : LastWriterWins calls directory := by
  refine ⟨?_, ?_⟩
  · intro call greatest
    obtain ⟨entry, found⟩ := accounts.complete greatest.1
    obtain ⟨other, greatest', key, rfl⟩ := accounts.newest found
    obtain rfl := greatest'.unique separate.apart greatest key
    refine ⟨_, found, rfl, ?_, rfl⟩
    -- The size fits the 16 bits of the entry.
    have fits := separate.bytes other greatest.1
    rw [StoreKeyCall.entry, UInt64.toNat_toUInt16]
    omega
  · intro key entry found
    obtain ⟨call, greatest, key, _⟩ := accounts.newest found
    exact ⟨call, greatest, key⟩

theorem Accounts.conservesBlocks {calls : List StoreKeyCall} {responses : List KvDirectory.Stored}
    {directory : KvDirectory}
    (accounts : Accounts calls directory (takenBlocks calls responses) (handedBack responses))
    (separate : Separate calls) : ConservesBlocks calls responses directory := by
  refine ⟨accounts.split, fun _ => accounts.disjoint, accounts.once, ?_⟩
  intro key key' entry entry' found found' same
  obtain ⟨one, known, rfl, rfl⟩ := accounts.stored_known found
  obtain ⟨two, known', rfl, rfl⟩ := accounts.stored_known found'
  by_contra different
  have distinct : one ≠ two := by
    rintro rfl
    exact different rfl
  exact (separate.apart.forall known known' distinct).1 same

/-- Two orders of the same calls end with the same directory. -/
theorem Accounts.same {calls calls' : List StoreKeyCall} {directory directory' : KvDirectory}
    {taken handed taken' handed' : List Nat} (accounts : Accounts calls directory taken handed)
    (accounts' : Accounts calls' directory' taken' handed') (separate : calls.Pairwise Apart)
    (perm : calls.Perm calls') : directory = directory' := by
  refine KvDirectory.ext_find fun key => ?_
  cases found : directory.findEntryForKey key with
  | none =>
    cases found' : directory'.findEntryForKey key with
    | none => rfl
    | some entry' =>
      obtain ⟨call, known, rfl, _⟩ := accounts'.stored_known found'
      obtain ⟨entry, impossible⟩ := accounts.complete (perm.mem_iff.mpr known)
      rw [found] at impossible
      cases impossible
  | some entry =>
    obtain ⟨call, greatest, rfl, rfl⟩ := accounts.newest found
    obtain ⟨entry', found'⟩ := accounts'.complete (perm.mem_iff.mp greatest.1)
    obtain ⟨other, greatest', key, rfl⟩ := accounts'.newest found'
    rw [found', (greatest'.perm perm.symm).unique separate greatest key]

/-- A call that is not the newest of its key reports no block and changes nothing. -/
theorem issue_refused {directory next : KvDirectory} {call : StoreKeyCall}
    {stored : KvDirectory.Stored} (returned : call.issue directory = .ok stored next)
    (refused : stored.setAsCurrentKeyEntry = false) :
    stored.replacedBlock = UINT32_MAX ∧ next = directory := by
  cases found : directory.findEntryForKey call.key with
  | none =>
    rw [issue, KvDirectory.storeKey_absent _ _ _ found] at returned
    cases returned
    cases refused
  | some entry =>
    rcases Nat.lt_trichotomy call.sequence.toNat entry.sequence.toNat with older | same | newer
    · rw [issue, KvDirectory.storeKey_older _ _ _ found older] at returned
      cases returned
      exact ⟨rfl, rfl⟩
    · rw [issue, KvDirectory.storeKey_equal _ _ _ found (UInt64.toNat_inj.mp same)] at returned
      cases returned
    · rw [issue, KvDirectory.storeKey_newer _ _ _ found newer] at returned
      cases returned
      cases refused

/-- Any calls on an empty directory, for blocks and versions that are all different. -/
theorem store_key_last_writer_wins {calls : List StoreKeyCall} (separate : Separate calls) :
    (∃ responses directory, run issue ⟨∅⟩ calls = .ok responses directory ∧
      LastWriterWins calls directory ∧ ConservesBlocks calls responses directory ∧
      ∀ calls', calls.Perm calls' →
        ∃ responses', run issue ⟨∅⟩ calls' = .ok responses' directory) ∧
    ∀ directory next call stored, issue directory call = .ok stored next →
      stored.setAsCurrentKeyEntry = false → stored.replacedBlock = UINT32_MAX ∧ next = directory := by
  refine ⟨?_, fun _ _ _ _ => issue_refused⟩
  obtain ⟨responses, directory, returned, accounts⟩ :=
    Accounts.empty.run separate.apart separate.blocks
  simp only [List.nil_append] at accounts
  refine ⟨responses, directory, returned, accounts.lastWriterWins separate,
    accounts.conservesBlocks separate, ?_⟩
  intro calls' perm
  have separate' := separate.perm perm
  obtain ⟨responses', directory', returned', accounts'⟩ :=
    Accounts.empty.run separate'.apart separate'.blocks
  obtain rfl := accounts.same accounts' separate.apart perm
  exact ⟨responses', returned'⟩

theorem store_key_last_writer_wins_two_versions :
    let calls : List StoreKeyCall := [⟨1, 0, 9, 5⟩, ⟨2, 1, 7, 5⟩, ⟨1, 2, 8, 6⟩, ⟨1, 3, 4, 2⟩]
    (∃ responses directory, run issue ⟨∅⟩ calls = .ok responses directory ∧
      LastWriterWins calls directory ∧ ConservesBlocks calls responses directory ∧
      ∀ calls', calls.Perm calls' →
        ∃ responses', run issue ⟨∅⟩ calls' = .ok responses' directory) ∧
    ∀ directory next call stored, issue directory call = .ok stored next →
      stored.setAsCurrentKeyEntry = false → stored.replacedBlock = UINT32_MAX ∧ next = directory :=
  store_key_last_writer_wins
    ⟨by simp [Apart], by simp [UINT32_MAX], by decide⟩

end KeyValueStore
