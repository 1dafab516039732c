import Mathlib.Order.Lattice
import Mathlib.Logic.Function.Basic

/-! # Logs of versions and their index

A log is a partial function from slots to versions, a version being a key with a
sequence.  `Latest log k b s` says that slot `b` holds the version of `k` that
beats every other one in the log; an index that names exactly these slots is
unique (`Indexes.unique`), whatever order it was built in.

`Indexes.record` and `Indexes.ignore` are the two ways one write of a slot can go:
the slot is taken over by a newer version of its key, or by one that is already
out of date.  Both need the slot to be free, that is, not named by the index. -/

namespace KeyValueStore.VersionLog

variable {κ σ : Type*}

/-- `Latest log key slot seq`: `slot` holds version `seq` of `key`, and every other
slot with that key holds a smaller sequence. -/
def Latest [LT σ] (log : Nat → Option (κ × σ)) (key : κ) (slot : Nat) (seq : σ) : Prop :=
  log slot = some (key, seq) ∧
    ∀ slot' seq', log slot' = some (key, seq') → slot' ≠ slot → seq' < seq

/-- The index names the latest slot of every key in the log, and no other key. -/
structure Indexes [LT σ] (index : κ → Option (Nat × σ)) (log : Nat → Option (κ × σ)) : Prop where
  latest : ∀ {key slot seq}, index key = some (slot, seq) → Latest log key slot seq
  complete : ∀ {key slot seq}, log slot = some (key, seq) → ∃ version, index key = some version

/-- `slot` is named by no entry of the index. -/
def Unnamed (index : κ → Option (Nat × σ)) (slot : Nat) : Prop :=
  ∀ key slot' seq, index key = some (slot', seq) → slot' ≠ slot

/-- No two slots of the log hold the same sequence. -/
def DistinctSequences (log : Nat → Option (κ × σ)) : Prop :=
  ∀ slot slot' key key' seq, log slot = some (key, seq) → log slot' = some (key', seq) →
    slot = slot'

/-- No two slots of the log hold the same version of the same key. -/
def DistinctVersions (log : Nat → Option (κ × σ)) : Prop :=
  ∀ slot slot' version, log slot = some version → log slot' = some version → slot = slot'

/-- No slot of the log holds a version of `key`. -/
def Absent (log : Nat → Option (κ × σ)) (key : κ) : Prop :=
  ∀ slot seq, log slot ≠ some (key, seq)

/-- `seq` beats every version of `key` in the log. -/
def Newer [LT σ] (log : Nat → Option (κ × σ)) (key : κ) (seq : σ) : Prop :=
  ∀ slot seq', log slot = some (key, seq') → seq' < seq

/-- `seq` is the greatest version of `key` in the log once more. -/
def Repeats [LE σ] (log : Nat → Option (κ × σ)) (key : κ) (seq : σ) : Prop :=
  (∃ slot, log slot = some (key, seq)) ∧ ∀ slot seq', log slot = some (key, seq') → seq' ≤ seq

/-- `slot` holds the greatest sequence of the log, over all keys. -/
def Newest [LE σ] (log : Nat → Option (κ × σ)) (slot : Nat) (seq : σ) : Prop :=
  (∃ key, log slot = some (key, seq)) ∧
    ∀ slot' key' seq', log slot' = some (key', seq') → seq' ≤ seq

/-- The slots below `bound`. -/
def below (bound : Nat) (log : Nat → Option (κ × σ)) : Nat → Option (κ × σ) :=
  fun slot => if slot < bound then log slot else none

/-- Scanned in order, no slot repeats the greatest version that its key has had so far. -/
def NoRepeats [LE σ] (log : Nat → Option (κ × σ)) : Prop :=
  ∀ slot key seq, log slot = some (key, seq) → ¬ Repeats (below slot log) key seq

section Order

variable [Preorder σ] {index index' : κ → Option (Nat × σ)} {log : Nat → Option (κ × σ)}

theorem Latest.unique {key : κ} {slot slot' : Nat} {seq seq' : σ}
    (first : Latest log key slot seq) (second : Latest log key slot' seq') :
    slot = slot' ∧ seq = seq' := by
  have same : slot = slot' := by
    by_contra different
    -- Two slots would each hold the smaller sequence.
    have left := first.2 slot' seq' second.1 (Ne.symm different)
    have right := second.2 slot seq first.1 different
    exact lt_asymm left right
  subst same
  have versions := first.1.symm.trans second.1
  simp only [Option.some.injEq, Prod.mk.injEq, true_and] at versions
  exact ⟨rfl, versions⟩

theorem Indexes.unique (first : Indexes index log) (second : Indexes index' log) :
    index = index' := by
  funext key
  cases found : index key with
  | none =>
    cases found' : index' key with
    | none => rfl
    | some version' =>
      obtain ⟨slot', seq'⟩ := version'
      obtain ⟨version, impossible⟩ := first.complete (second.latest found').1
      rw [found] at impossible
      cases impossible
  | some version =>
    obtain ⟨slot, seq⟩ := version
    obtain ⟨⟨slot', seq'⟩, found'⟩ := second.complete (first.latest found).1
    obtain ⟨rfl, rfl⟩ := (first.latest found).unique (second.latest found')
    rw [found']

/-- Every version in the log is at most the one the index names for its key. -/
theorem Indexes.le (indexes : Indexes index log) {key : κ} {slot slot' : Nat} {seq seq' : σ}
    (stored : log slot = some (key, seq)) (found : index key = some (slot', seq')) :
    seq ≤ seq' := by
  by_cases same : slot = slot'
  · subst same
    have versions := stored.symm.trans (indexes.latest found).1
    simp only [Option.some.injEq, Prod.mk.injEq, true_and] at versions
    exact le_of_eq versions
  · exact le_of_lt ((indexes.latest found).2 slot seq stored same)

/-- A slot named by the index is named for one key only. -/
theorem Indexes.injective (indexes : Indexes index log) {key key' : κ} {slot : Nat} {seq seq' : σ}
    (found : index key = some (slot, seq)) (found' : index key' = some (slot, seq')) :
    key = key' := by
  have versions := (indexes.latest found).1.symm.trans (indexes.latest found').1
  simp only [Option.some.injEq, Prod.mk.injEq] at versions
  exact versions.1

theorem Indexes.absent_iff (indexes : Indexes index log) {key : κ} :
    index key = none ↔ Absent log key := by
  constructor
  · intro missing slot seq stored
    obtain ⟨version, found⟩ := indexes.complete stored
    rw [missing] at found
    cases found
  · intro absent
    cases found : index key with
    | none => rfl
    | some version => exact absurd (indexes.latest found).1 (absent version.1 version.2)

theorem Indexes.newer_iff (indexes : Indexes index log) {key : κ} {seq : σ} :
    Newer log key seq ↔ ∀ slot seq', index key = some (slot, seq') → seq' < seq := by
  constructor
  · intro newer slot seq' found
    exact newer slot seq' (indexes.latest found).1
  · intro newer slot seq' stored
    obtain ⟨⟨named, latest⟩, found⟩ := indexes.complete stored
    exact lt_of_le_of_lt (indexes.le stored found) (newer named latest found)

theorem Indexes.repeats_iff {σ : Type*} [PartialOrder σ] {index : κ → Option (Nat × σ)}
    {log : Nat → Option (κ × σ)} (indexes : Indexes index log) {key : κ} {seq : σ} :
    Repeats log key seq ↔ ∃ slot, index key = some (slot, seq) := by
  constructor
  · rintro ⟨⟨slot, stored⟩, greatest⟩
    obtain ⟨⟨named, latest⟩, found⟩ := indexes.complete stored
    have same := le_antisymm (indexes.le stored found)
      (greatest named latest (indexes.latest found).1)
    exact ⟨named, same ▸ found⟩
  · rintro ⟨slot, found⟩
    exact ⟨⟨slot, (indexes.latest found).1⟩, fun _ _ stored => indexes.le stored found⟩

/-- A free slot takes a version older than the one the index names: the index stays. -/
theorem Indexes.ignore (indexes : Indexes index log) {slot : Nat} {key : κ} {seq : σ}
    (free : Unnamed index slot) {slot' : Nat} {seq' : σ}
    (found : index key = some (slot', seq')) (older : seq < seq') :
    Indexes index (Function.update log slot (some (key, seq))) where
  latest := by
    intro key₁ slot₁ seq₁ found₁
    have apart := free key₁ slot₁ seq₁ found₁
    refine ⟨by rw [Function.update_of_ne apart]; exact (indexes.latest found₁).1, ?_⟩
    intro other version stored different
    by_cases written : other = slot
    · subst written
      simp only [Function.update_self, Option.some.injEq, Prod.mk.injEq] at stored
      obtain ⟨rfl, rfl⟩ := stored
      -- The entry is the one that the new version is older than.
      have entries := found.symm.trans found₁
      simp only [Option.some.injEq, Prod.mk.injEq] at entries
      exact entries.2 ▸ older
    · rw [Function.update_of_ne written] at stored
      exact (indexes.latest found₁).2 other version stored different
  complete := by
    intro key₁ slot₁ seq₁ stored
    by_cases written : slot₁ = slot
    · subst written
      simp only [Function.update_self, Option.some.injEq, Prod.mk.injEq] at stored
      exact ⟨_, stored.1 ▸ found⟩
    · rw [Function.update_of_ne written] at stored
      exact indexes.complete stored

/-- A free slot loses what it holds: the index stays. -/
theorem Indexes.erase (indexes : Indexes index log) {slot : Nat} (free : Unnamed index slot) :
    Indexes index (Function.update log slot none) where
  latest := by
    intro key slot' seq found
    have apart := free key slot' seq found
    refine ⟨by rw [Function.update_of_ne apart]; exact (indexes.latest found).1, ?_⟩
    intro other version stored different
    by_cases erased : other = slot
    · rw [erased, Function.update_self] at stored
      cases stored
    · rw [Function.update_of_ne erased] at stored
      exact (indexes.latest found).2 other version stored different
  complete := by
    intro key slot' seq stored
    by_cases erased : slot' = slot
    · rw [erased, Function.update_self] at stored
      cases stored
    · rw [Function.update_of_ne erased] at stored
      exact indexes.complete stored

variable [DecidableEq κ]

/-- A free slot takes a version newer than the one the index names: the index moves
to that slot. -/
theorem Indexes.record (indexes : Indexes index log) {slot : Nat} {key : κ} {seq : σ}
    (free : Unnamed index slot)
    (newer : ∀ slot' seq', index key = some (slot', seq') → seq' < seq) :
    Indexes (Function.update index key (some (slot, seq)))
      (Function.update log slot (some (key, seq))) where
  latest := by
    intro key' slot' seq' found
    by_cases same : key' = key
    · subst same
      simp only [Function.update_self, Option.some.injEq, Prod.mk.injEq] at found
      obtain ⟨rfl, rfl⟩ := found
      refine ⟨by simp, ?_⟩
      intro other older stored different
      -- The other versions of the key are at most the one that the index named before.
      rw [Function.update_of_ne different] at stored
      obtain ⟨⟨slot', named⟩, found⟩ := indexes.complete stored
      exact lt_of_le_of_lt (indexes.le stored found) (newer slot' named found)
    · rw [Function.update_of_ne same] at found
      have apart := free key' slot' seq' found
      refine ⟨by rw [Function.update_of_ne apart]; exact (indexes.latest found).1, ?_⟩
      intro other older stored different
      by_cases written : other = slot
      · subst written
        simp only [Function.update_self, Option.some.injEq, Prod.mk.injEq] at stored
        exact absurd stored.1.symm same
      · rw [Function.update_of_ne written] at stored
        exact (indexes.latest found).2 other older stored different
  complete := by
    intro key' slot' seq' stored
    by_cases same : key' = key
    · exact ⟨(slot, seq), by rw [same, Function.update_self]⟩
    · rw [Function.update_of_ne same]
      by_cases written : slot' = slot
      · subst written
        simp only [Function.update_self, Option.some.injEq, Prod.mk.injEq] at stored
        exact absurd stored.1.symm same
      · rw [Function.update_of_ne written] at stored
        exact indexes.complete stored

end Order

/-- A slot that takes a sequence the log does not hold keeps the sequences distinct. -/
theorem DistinctSequences.record {log : Nat → Option (κ × σ)} (distinct : DistinctSequences log)
    {slot : Nat} {key : κ} {seq : σ} (fresh : ∀ slot' key', log slot' ≠ some (key', seq)) :
    DistinctSequences (Function.update log slot (some (key, seq))) := by
  intro slot₁ slot₂ key₁ key₂ seq' stored₁ stored₂
  by_cases written₁ : slot₁ = slot <;> by_cases written₂ : slot₂ = slot
  · rw [written₁, written₂]
  · subst written₁
    rw [Function.update_of_ne written₂] at stored₂
    simp only [Function.update_self, Option.some.injEq, Prod.mk.injEq] at stored₁
    exact absurd (stored₁.2 ▸ stored₂) (fresh slot₂ key₂)
  · subst written₂
    rw [Function.update_of_ne written₁] at stored₁
    simp only [Function.update_self, Option.some.injEq, Prod.mk.injEq] at stored₂
    exact absurd (stored₂.2 ▸ stored₁) (fresh slot₁ key₁)
  · rw [Function.update_of_ne written₁] at stored₁
    rw [Function.update_of_ne written₂] at stored₂
    exact distinct slot₁ slot₂ key₁ key₂ seq' stored₁ stored₂

/-- A slot that takes a version the log does not hold keeps the versions distinct. -/
theorem DistinctVersions.record {log : Nat → Option (κ × σ)} (distinct : DistinctVersions log)
    {slot : Nat} {version : κ × σ} (fresh : ∀ slot', log slot' ≠ some version) :
    DistinctVersions (Function.update log slot (some version)) := by
  intro slot₁ slot₂ version' stored₁ stored₂
  by_cases written₁ : slot₁ = slot <;> by_cases written₂ : slot₂ = slot
  · rw [written₁, written₂]
  · rw [written₁, Function.update_self, Option.some.injEq] at stored₁
    rw [Function.update_of_ne written₂, ← stored₁] at stored₂
    exact absurd stored₂ (fresh slot₂)
  · rw [written₂, Function.update_self, Option.some.injEq] at stored₂
    rw [Function.update_of_ne written₁, ← stored₂] at stored₁
    exact absurd stored₁ (fresh slot₁)
  · rw [Function.update_of_ne written₁] at stored₁
    rw [Function.update_of_ne written₂] at stored₂
    exact distinct slot₁ slot₂ version' stored₁ stored₂

/-! ## Scanning the slots in order -/

@[simp] theorem below_zero (log : Nat → Option (κ × σ)) : below 0 log = fun _ => none := by
  funext slot
  simp [below]

theorem below_succ_of_none {log : Nat → Option (κ × σ)} {bound : Nat} (empty : log bound = none) :
    below (bound + 1) log = below bound log := by
  funext slot
  simp only [below]
  by_cases same : slot = bound
  · subst same; simp [empty]
  · have shift : slot < bound + 1 ↔ slot < bound := by omega
    simp [shift]

theorem below_succ_of_some {log : Nat → Option (κ × σ)} {bound : Nat} {version : κ × σ}
    (stored : log bound = some version) :
    below (bound + 1) log = Function.update (below bound log) bound (some version) := by
  funext slot
  by_cases same : slot = bound
  · subst same; simp [below, stored]
  · rw [Function.update_of_ne same]
    have shift : slot < bound + 1 ↔ slot < bound := by omega
    simp [below, shift]

theorem below_of_none_above {log : Nat → Option (κ × σ)} {bound : Nat}
    (empty : ∀ slot, bound ≤ slot → log slot = none) : below bound log = log := by
  funext slot
  simp only [below]
  by_cases inside : slot < bound
  · rw [if_pos inside]
  · rw [if_neg inside, empty slot (by omega)]

theorem below_eq_some {log : Nat → Option (κ × σ)} {bound slot : Nat} {version : κ × σ} :
    below bound log slot = some version ↔ slot < bound ∧ log slot = some version := by
  by_cases inside : slot < bound <;> simp [below, inside]

theorem DistinctVersions.noRepeats [LE σ] {log : Nat → Option (κ × σ)}
    (distinct : DistinctVersions log) : NoRepeats log := by
  rintro slot key seq stored ⟨⟨slot', again⟩, _⟩
  obtain ⟨before, stored'⟩ := below_eq_some.mp again
  exact absurd (distinct slot' slot (key, seq) stored' stored) (Nat.ne_of_lt before)

theorem DistinctSequences.versions {log : Nat → Option (κ × σ)}
    (distinct : DistinctSequences log) : DistinctVersions log := by
  rintro slot slot' ⟨key, seq⟩ stored stored'
  exact distinct slot slot' key key seq stored stored'

theorem DistinctSequences.noRepeats [LE σ] {log : Nat → Option (κ × σ)}
    (distinct : DistinctSequences log) : NoRepeats log :=
  distinct.versions.noRepeats

/-- Two slots with the greatest version of a key: the scan meets it again. -/
theorem NoRepeats.unique [LE σ] {log : Nat → Option (κ × σ)} (noRepeats : NoRepeats log)
    {slot slot' : Nat} {key : κ} {seq : σ} (stored : log slot = some (key, seq))
    (stored' : log slot' = some (key, seq))
    (greatest : ∀ other seq', log other = some (key, seq') → seq' ≤ seq) : slot = slot' := by
  have later : ∀ {first second : Nat}, first < second → log first = some (key, seq) →
      log second ≠ some (key, seq) := by
    intro first second before held again
    refine noRepeats second key seq again ⟨⟨first, below_eq_some.mpr ⟨before, held⟩⟩, ?_⟩
    intro other seq' scanned
    exact greatest other seq' (below_eq_some.mp scanned).2
  rcases Nat.lt_trichotomy slot slot' with before | same | after
  · exact absurd stored' (later before stored)
  · exact same
  · exact absurd stored (later after stored')

/-- A free slot that takes a version without repeating one: it is older than the version
that the index names for the key, or newer. -/
theorem Indexes.newer_of_noRepeats [LinearOrder σ] [DecidableEq κ]
    {index : κ → Option (Nat × σ)} {log : Nat → Option (κ × σ)} (indexes : Indexes index log)
    {slot : Nat} (free : Unnamed index slot) {key : κ} {seq : σ}
    (noRepeats : NoRepeats (Function.update log slot (some (key, seq)))) {slot' : Nat} {seq' : σ}
    (found : index key = some (slot', seq')) (notOlder : ¬ seq < seq') : seq' < seq := by
  have apart := free key slot' seq' found
  refine lt_of_le_of_ne (not_lt.mp notOlder) ?_
  rintro rfl
  -- With equal sequences both slots would hold the greatest version of the key.
  have held : Function.update log slot (some (key, seq')) slot' = some (key, seq') := by
    rw [Function.update_of_ne apart]
    exact (indexes.latest found).1
  refine apart (noRepeats.unique held (Function.update_self ..) ?_)
  intro other version stored
  by_cases written : other = slot
  · rw [written, Function.update_self, Option.some.injEq, Prod.mk.injEq] at stored
    exact le_of_eq stored.2.symm
  · rw [Function.update_of_ne written] at stored
    exact indexes.le stored found

theorem Indexes.empty [LT σ] : Indexes (fun _ : κ => (none : Option (Nat × σ))) fun _ => none where
  latest := by intro _ _ _ found; cases found
  complete := by intro _ _ _ stored; cases stored

end KeyValueStore.VersionLog
