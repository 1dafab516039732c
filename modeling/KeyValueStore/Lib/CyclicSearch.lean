import Mathlib.Data.List.Basic

/-! # First free slot of a ring

`search taken size start` walks `start, start + 1, …, size - 1, 0, …, start - 1` and
stops at the first slot that is not taken.  `search_eq_some` says so in terms of the
distance walked; `search_eq_none` says that the walk visits every slot. -/

namespace KeyValueStore.CyclicSearch

variable {taken : Nat → Bool}

/-- The first free slot among `first, …, first + count - 1`. -/
def scan (taken : Nat → Bool) : (count first : Nat) → Option Nat
  | 0, _ => none
  | count + 1, first => if taken first then scan taken count (first + 1) else some first

def search (taken : Nat → Bool) (size start : Nat) : Option Nat :=
  match scan taken (size - start) start with
  | some slot => some slot
  | none => scan taken start 0

/-- The slots in the order in which the search looks at them. -/
def walk (size start : Nat) : List Nat := List.range' start (size - start) ++ List.range start

/-- How far the walk from `start` has come when it looks at `slot`. -/
def distance (size start slot : Nat) : Nat :=
  if start ≤ slot then slot - start else slot + size - start

theorem scan_eq_find? (count first : Nat) :
    scan taken count first = (List.range' first count).find? fun slot => !taken slot := by
  induction count generalizing first with
  | zero => rfl
  | succ count ih =>
    rw [scan, List.range'_succ, List.find?_cons]
    cases taken first
    · rfl
    · exact ih (first + 1)

/-- The search stops at the first free slot of the walk. -/
theorem search_eq_find? (size start : Nat) :
    search taken size start = (walk size start).find? fun slot => !taken slot := by
  rw [search, walk, List.find?_append, List.range_eq_range', scan_eq_find?, scan_eq_find?]
  cases (List.range' start (size - start)).find? fun slot => !taken slot <;> rfl

theorem scan_eq_none {count first : Nat} :
    scan taken count first = none ↔ ∀ slot, first ≤ slot → slot < first + count → taken slot = true := by
  induction count generalizing first with
  | zero => simp only [scan, true_iff]; intro slot _ _; omega
  | succ count ih =>
    simp only [scan]
    by_cases here : taken first = true
    · rw [if_pos here, ih]
      constructor
      · intro later slot lower upper
        by_cases same : slot = first
        · rw [same]; exact here
        · exact later slot (by omega) (by omega)
      · intro all slot lower upper
        exact all slot (by omega) (by omega)
    · rw [if_neg here]
      simp only [reduceCtorEq, false_iff]
      intro all
      exact here (all first (by omega) (by omega))

theorem scan_eq_some {count first slot : Nat} :
    scan taken count first = some slot ↔
      first ≤ slot ∧ slot < first + count ∧ taken slot = false ∧
        ∀ other, first ≤ other → other < slot → taken other = true := by
  induction count generalizing first with
  | zero => simp only [scan, reduceCtorEq, false_iff]; omega
  | succ count ih =>
    simp only [scan]
    by_cases here : taken first = true
    · rw [if_pos here, ih]
      constructor
      · rintro ⟨lower, upper, free, before⟩
        refine ⟨by omega, by omega, free, ?_⟩
        intro other from_ below
        by_cases same : other = first
        · rw [same]; exact here
        · exact before other (by omega) below
      · rintro ⟨lower, upper, free, before⟩
        have apart : slot ≠ first := by rintro rfl; rw [here] at free; cases free
        exact ⟨by omega, by omega, free, fun other from_ below => before other (by omega) below⟩
    · rw [if_neg here]
      simp only [Option.some.injEq]
      constructor
      · rintro rfl
        refine ⟨by omega, by omega, by simpa using here, ?_⟩
        intro other from_ below
        omega
      · rintro ⟨lower, upper, free, before⟩
        by_contra apart
        exact here (before first (by omega) (by omega))

theorem search_eq_none {size start : Nat} (inRange : start ≤ size) :
    search taken size start = none ↔ ∀ slot, slot < size → taken slot = true := by
  simp only [search]
  cases upper : scan taken (size - start) start with
  | some slot =>
    obtain ⟨_, inside, free, _⟩ := scan_eq_some.mp upper
    simp only [reduceCtorEq, false_iff]
    intro all
    rw [all slot (by omega)] at free
    cases free
  | none =>
    simp only [scan_eq_none] at upper ⊢
    constructor
    · intro lower slot inside
      by_cases high : start ≤ slot
      · exact upper slot high (by omega)
      · exact lower slot (by omega) (by omega)
    · intro all slot _ inside
      exact all slot (by omega)

/-- The slot found is free, and everything the walk met before it is taken. -/
theorem search_eq_some {size start slot : Nat} (inRange : start ≤ size) :
    search taken size start = some slot ↔
      slot < size ∧ taken slot = false ∧
        ∀ other, other < size → distance size start other < distance size start slot →
          taken other = true := by
  simp only [search]
  cases upper : scan taken (size - start) start with
  | some found =>
    obtain ⟨low, high, free, before⟩ := scan_eq_some.mp upper
    simp only [Option.some.injEq]
    constructor
    · rintro rfl
      refine ⟨by omega, free, ?_⟩
      intro other inside nearer
      simp only [distance] at nearer
      rw [if_pos low] at nearer
      split at nearer
      · exact before other (by omega) (by omega)
      · omega
    · rintro ⟨inside, free', nearest⟩
      by_contra apart
      -- Of two free slots the walk meets the nearer one first.
      by_cases nearer : distance size start found < distance size start slot
      · rw [nearest found (by omega) nearer] at free
        cases free
      · simp only [distance] at nearer
        rw [if_pos low] at nearer
        split at nearer
        · rw [before slot (by omega) (by omega)] at free'
          cases free'
        · omega
  | none =>
    -- The walk has wrapped around, so the slot lies below `start`.
    have taken_above := scan_eq_none.mp upper
    simp only [scan_eq_some]
    constructor
    · rintro ⟨_, low, free, before⟩
      refine ⟨by omega, free, ?_⟩
      intro other inside nearer
      by_cases high : start ≤ other
      · exact taken_above other high (by omega)
      · simp only [distance] at nearer
        rw [if_neg high, if_neg (by omega)] at nearer
        exact before other (by omega) (by omega)
    · rintro ⟨inside, free, nearest⟩
      have low : slot < start := by
        by_contra high
        rw [taken_above slot (by omega) (by omega)] at free
        cases free
      refine ⟨by omega, by omega, free, ?_⟩
      intro other _ below
      apply nearest other (by omega)
      simp only [distance]
      rw [if_neg (by omega), if_neg (by omega)]
      omega

theorem search_lt {size start slot : Nat} (inRange : start ≤ size)
    (found : search taken size start = some slot) : slot < size :=
  ((search_eq_some inRange).mp found).1

theorem search_free {size start slot : Nat} (inRange : start ≤ size)
    (found : search taken size start = some slot) : taken slot = false :=
  ((search_eq_some inRange).mp found).2.1

/-- A free start is found at once. -/
theorem search_of_free {size start : Nat} (inRange : start < size) (free : taken start = false) :
    search taken size start = some start := by
  refine (search_eq_some (Nat.le_of_lt inRange)).mpr ⟨inRange, free, ?_⟩
  intro other inside nearer
  simp only [distance] at nearer
  split at nearer <;> split at nearer <;> omega

/-- A taken start with a free slot right above it. -/
theorem search_of_free_succ {size start : Nat} (inRange : start + 1 < size)
    (here : taken start = true) (free : taken (start + 1) = false) :
    search taken size start = some (start + 1) := by
  refine (search_eq_some (by omega)).mpr ⟨inRange, free, ?_⟩
  intro other inside nearer
  simp only [distance] at nearer
  rw [if_pos (show start ≤ start + 1 by omega)] at nearer
  split at nearer
  · have same : other = start := by omega
    rw [same]; exact here
  · omega

/-- If everything from `bound` on is free, the search that starts at most there goes no
further. -/
theorem search_le {size start slot bound : Nat} (startLe : start ≤ bound) (inRange : bound < size)
    (free : taken bound = false) (found : search taken size start = some slot) : slot ≤ bound := by
  by_contra beyond
  obtain ⟨inside, _, met⟩ := (search_eq_some (by omega)).mp found
  have nearer : distance size start bound < distance size start slot := by
    simp only [distance]
    split <;> split <;> omega
  rw [met bound inRange nearer] at free
  cases free

/-- The walk over a ring goes round at most once. -/
theorem distance_spec {size start slot : Nat} (startLt : start < size) (slotLt : slot < size) :
    distance size start slot < size ∧
      (start + distance size start slot = slot ∨ start + distance size start slot = slot + size) := by
  simp only [distance]
  split <;> omega

/-- Seen from `origin`, a free slot ahead of the start of the search is still ahead of the
slot found, unless it is that one; and the search does not come back to `origin` while
there is such a slot. -/
theorem search_keeps_ahead {size origin start slot ahead : Nat} (originLt : origin < size)
    (startLt : start < size) (found : search taken size start = some slot) (moved : slot ≠ start)
    (inRange : ahead < size) (free : taken ahead = false)
    (isAhead : distance size origin start < distance size origin ahead) :
    slot ≠ origin ∧ (ahead ≠ slot → distance size origin slot < distance size origin ahead) := by
  obtain ⟨inside, _, met⟩ := (search_eq_some (Nat.le_of_lt startLt)).mp found
  -- The walk does not pass a free slot.
  have notMet : ¬ distance size start ahead < distance size start slot := by
    intro nearer
    rw [met ahead inRange nearer] at free
    cases free
  have toAhead := distance_spec startLt inRange
  have toSlot := distance_spec startLt inside
  have start' := distance_spec originLt startLt
  have ahead' := distance_spec originLt inRange
  have slot' := distance_spec originLt inside
  refine ⟨?_, ?_⟩
  · rintro rfl
    omega
  · intro apart
    omega

end KeyValueStore.CyclicSearch
