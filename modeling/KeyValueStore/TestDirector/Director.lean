import KeyValueStore.TestDirector.Checker

/-! # `test_director.h`, `test_director.c`

The stress test draws operations, keys and values and judges what the store answers by its
checker.  The store is outside: an `Iteration` holds what `rand` yields in one round of the
loop, what the store answers to the call, and which allocations of the checker deliver. -/

namespace KeyValueStore.Stress

/-- We want a small range to force overlaps. -/
def maxUniqueKeys : Nat := 5

def UINT8_MAX : Nat := 255

structure Iteration where
  operation : Nat
  key : Nat
  size : Nat
  byte : Nat → Nat
  /-- What the call to the store returns. -/
  ret : Int
  /-- The caller's `struct value` after `kv_get`. -/
  out : Value
  allocs : StoreAllocs

def selectDataSize (draw : Nat) : Nat := draw % MAXBLOB + 1

/-- The bytes of the buffer up to the size; those after it are never read. -/
def fillRandomData (draws : Nat → Nat) (size : Nat) : Bytes :=
  (List.range size).map fun i => UInt8.ofNat (draws i % UINT8_MAX)

def generateRandomValue (it : Iteration) : Value where
  size := UInt64.ofNat (selectDataSize it.size)
  data := fillRandomData it.byte (selectDataSize it.size)
  size_le := by simp [fillRandomData, Nat.mod_le]

def selectKey (draw : Nat) : UInt64 := UInt64.ofNat (draw % maxUniqueKeys)

structure TestDirector where
  checker : KvChecker
  numberOfOperationsRun : Nat
  numberOfFailedOperations : Nat
  numberOfMiscompares : Nat
  numberOfUnexpectedMissingKeys : Nat

namespace TestDirector

/-- What `kv_open` returned is passed on. -/
def init (allocated : Bool) (openRet : Int) (checker : KvChecker) :
    Except StressFault (Int × TestDirector) :=
  -- The check after `malloc` is of the caller's pointer.
  if ¬ allocated then .error .nullPointer else .ok (openRet, ⟨checker, 0, 0, 0, 0⟩)

/-- `number_of_failed_operations++` -/
def countFailure (director : TestDirector) : TestDirector :=
  { director with numberOfFailedOperations := director.numberOfFailedOperations + 1 }

/-- `number_of_unexpected_missing_keys++; number_of_failed_operations++` -/
def countMissingKey (director : TestDirector) : TestDirector :=
  { director with
    numberOfUnexpectedMissingKeys := director.numberOfUnexpectedMissingKeys + 1 }.countFailure

/-- `number_of_miscompares++; number_of_failed_operations++` -/
def countMiscompare (director : TestDirector) : TestDirector :=
  { director with numberOfMiscompares := director.numberOfMiscompares + 1 }.countFailure

def doSet (director : TestDirector) (it : Iteration) : Except StressFault (Int × TestDirector) :=
  if it.ret ≠ 0 ∧ it.ret ≠ -ENOSPC then
    .ok (0, director.countFailure)
  else do
    let (ret, checker) ←
      director.checker.storeValue it.allocs (selectKey it.key) (generateRandomValue it)
    return (ret, { director with checker })

def doGet (director : TestDirector) (it : Iteration) : Except StressFault (Int × TestDirector) :=
  if it.ret ≠ 0 ∧ it.ret ≠ -ENOENT then
    .ok (0, director.countFailure)
  else do
    let (checkerRet, valuesMatch) ← director.checker.checkValue (selectKey it.key) it.out
    -- -ENOENT is not fatal to the test suite.
    if checkerRet ≠ 0 ∧ checkerRet ≠ -ENOENT then return (checkerRet, director)
    else if it.ret ≠ checkerRet then
      return (0, director.countMissingKey)
    else if it.ret ≠ -ENOENT ∧ ¬ valuesMatch then
      -- The value was found, but it does not match.
      return (0, director.countMiscompare)
    else return (0, director)

def doDel (director : TestDirector) (it : Iteration) : Except StressFault (Int × TestDirector) :=
  if it.ret ≠ 0 ∧ it.ret ≠ -ENOENT then
    .ok (0, director.countFailure)
  else
    let (checkerRet, checker) := director.checker.deleteValue (selectKey it.key)
    -- -ENOENT is not fatal to the test suite.
    if checkerRet ≠ 0 ∧ checkerRet ≠ -ENOENT then .ok (checkerRet, { director with checker })
    else if it.ret ≠ checkerRet then .ok (0, { director with checker }.countMissingKey)
    else .ok (0, { director with checker })

end TestDirector

inductive Operation where
  | doSet
  | doGet
  | doDel
deriving DecidableEq

def selectOperation (draw : Nat) : Operation :=
  match draw % 6 with
  -- Make this workload set heavy so we're sure to fill up and get failures.
  | 0 | 1 | 2 => .doSet
  | 3 | 4 => .doGet
  | _ => .doDel

namespace TestDirector

/-- The call of `op` in `run_stress`. -/
def op (director : TestDirector) (it : Iteration) : Except StressFault (Int × TestDirector) :=
  match selectOperation it.operation with
  | .doSet => director.doSet it
  | .doGet => director.doGet it
  | .doDel => director.doDel it

def countOperation (director : TestDirector) : TestDirector :=
  { director with numberOfOperationsRun := director.numberOfOperationsRun + 1 }

/-- One element for each of the `iterations`, which are fewer than `2 ^ 64`: no counter
wraps. -/
def runStress (director : TestDirector) : List Iteration → Except StressFault (Int × TestDirector)
  | [] => .ok (0, director)
  | it :: its => do
    let (ret, next) ← director.op it
    if ret ≠ 0 then return (ret, next)
    else next.countOperation.runStress its

/-- The iterations that `run_stress` gets to. -/
def executed (director : TestDirector) : List Iteration → List Iteration
  | [] => []
  | it :: its =>
    it :: match director.op it with
      | .ok (ret, next) => if ret = 0 then next.countOperation.executed its else []
      | .error _ => []

end TestDirector

/-! ## What an iteration asks of the store, and how it is judged -/

inductive Call where
  | set (key : UInt64) (v : Value)
  | get (key : UInt64)
  | del (key : UInt64)

def Iteration.call (it : Iteration) : Call :=
  match selectOperation it.operation with
  | .doSet => .set (selectKey it.key) (generateRandomValue it)
  | .doGet => .get (selectKey it.key)
  | .doDel => .del (selectKey it.key)

/-- The director counts the answer as a failure. -/
def Counted (copy : Mapping) (it : Iteration) : Prop :=
  match it.call with
  | .set _ _ => it.ret ≠ 0 ∧ it.ret ≠ -ENOSPC
  | .get key => ¬ (it.ret = 0 ∧ copy key = some it.out.bytes ∨ it.ret = -ENOENT ∧ copy key = none)
  | .del key => ¬ (it.ret = 0 ∧ copy key ≠ none ∨ it.ret = -ENOENT ∧ copy key = none)

/-- The checker's copy afterwards. -/
def note (copy : Mapping) (it : Iteration) : Mapping :=
  match it.call with
  | .set key v =>
    if it.ret = 0 ∨ it.ret = -ENOSPC then Function.update copy key (some v.bytes) else copy
  | .get _ => copy
  | .del key => if it.ret = 0 ∨ it.ret = -ENOENT then Function.update copy key none else copy

/-- The checker lacks the memory to store a value, which ends the run. -/
def LacksMemory (copy : Mapping) (it : Iteration) : Prop :=
  match it.call with
  | .set key _ => (it.ret = 0 ∨ it.ret = -ENOSPC) ∧ ¬ it.allocs.Suffice (copy key ≠ none)
  | .get _ | .del _ => False

/-- The director after an operation that is not fatal to the test suite. -/
structure Judged (director : TestDirector) (it : Iteration) (next : TestDirector) : Prop where
  sound : next.checker.Sound
  copy : next.checker.copy = note director.checker.copy it
  failed : Counted director.checker.copy it ∧
      next.numberOfFailedOperations = director.numberOfFailedOperations + 1 ∨
    ¬ Counted director.checker.copy it ∧
      next.numberOfFailedOperations = director.numberOfFailedOperations

theorem Judged.count {director next : TestDirector} {it : Iteration} (judged : Judged director it next)
    (counted : Counted director.checker.copy it) :
    next.numberOfFailedOperations = director.numberOfFailedOperations + 1 := by
  rcases judged.failed with ⟨_, count⟩ | ⟨passed, _⟩
  · exact count
  · exact absurd counted passed

theorem Judged.pass {director next : TestDirector} {it : Iteration} (judged : Judged director it next)
    (passed : ¬ Counted director.checker.copy it) :
    next.numberOfFailedOperations = director.numberOfFailedOperations := by
  rcases judged.failed with ⟨counted, _⟩ | ⟨_, count⟩
  · exact absurd counted passed
  · exact count

namespace TestDirector

variable {director : TestDirector} {it : Iteration}

theorem generateRandomValue_size (it : Iteration) :
    (generateRandomValue it).size.toNat ≠ 0 := by
  have small : selectDataSize it.size ≤ MAXBLOB := Nat.mod_lt _ (by decide)
  have fits : selectDataSize it.size < 2 ^ 64 := Nat.lt_of_le_of_lt small (by decide)
  simp only [generateRandomValue, UInt64.toNat_ofNat', Nat.mod_eq_of_lt fits]
  simp [selectDataSize]

theorem doSet_spec (chosen : selectOperation it.operation = .doSet)
    (sound : director.checker.Sound) (memory : ¬ LacksMemory director.checker.copy it) :
    ∃ next, director.doSet it = .ok (0, next) ∧ Judged director it next := by
  have counted : Counted director.checker.copy it ↔ it.ret ≠ 0 ∧ it.ret ≠ -ENOSPC := by
    simp only [Counted, Iteration.call, chosen]
  by_cases stored : it.ret = 0 ∨ it.ret = -ENOSPC
  · have accepted : ¬ (it.ret ≠ 0 ∧ it.ret ≠ -ENOSPC) := by omega
    have suffice : it.allocs.Suffice (director.checker.copy (selectKey it.key) ≠ none) := by
      simpa [LacksMemory, Iteration.call, chosen, stored] using memory
    obtain ⟨checker, returned, soundAfter, copyAfter⟩ :=
      KvChecker.storeValue_spec sound suffice (generateRandomValue_size it)
    refine ⟨{ director with checker }, ?_, soundAfter, ?_, .inr ⟨mt counted.mp accepted, rfl⟩⟩
    · simp only [doSet, if_neg accepted, returned, bind, Except.bind, pure, Except.pure]
    · simpa only [note, Iteration.call, chosen, if_pos stored] using copyAfter
  · have refused : it.ret ≠ 0 ∧ it.ret ≠ -ENOSPC := by omega
    refine ⟨director.countFailure, if_pos refused, sound, ?_, .inl ⟨counted.mpr refused, rfl⟩⟩
    simp only [note, Iteration.call, chosen, if_neg stored, countFailure]

theorem doSet_lacksMemory (chosen : selectOperation it.operation = .doSet)
    (sound : director.checker.Sound) (lacks : LacksMemory director.checker.copy it) :
    director.doSet it = .ok (-ENOMEM, director) := by
  simp only [LacksMemory, Iteration.call, chosen] at lacks
  obtain ⟨stored, lacks⟩ := lacks
  have accepted : ¬ (it.ret ≠ 0 ∧ it.ret ≠ -ENOSPC) := by omega
  have returned := KvChecker.storeValue_noMemory sound lacks (generateRandomValue_size it)
  simp only [doSet, if_neg accepted, returned, bind, Except.bind, pure, Except.pure]

/-- An answer of the store that goes to the checker. -/
theorem doGet_checked (code : it.ret = 0 ∨ it.ret = -ENOENT) {checkerRet : Int}
    {valuesMatch : Bool} (checkerCode : checkerRet = 0 ∨ checkerRet = -ENOENT)
    (returned : director.checker.checkValue (selectKey it.key) it.out =
      .ok (checkerRet, valuesMatch)) :
    director.doGet it = .ok (0,
      if it.ret ≠ checkerRet then director.countMissingKey
      else if it.ret ≠ -ENOENT ∧ ¬ valuesMatch then director.countMiscompare
      else director) := by
  have answered : ¬ (it.ret ≠ 0 ∧ it.ret ≠ -ENOENT) := by omega
  have notFatal : ¬ (checkerRet ≠ 0 ∧ checkerRet ≠ -ENOENT) := by omega
  simp only [doGet, if_neg answered, returned, bind, Except.bind, if_neg notFatal, pure,
    Except.pure]
  split
  · rfl
  · split <;> rfl

theorem doGet_spec (chosen : selectOperation it.operation = .doGet)
    (sound : director.checker.Sound) :
    ∃ next, director.doGet it = .ok (0, next) ∧ Judged director it next := by
  have different : (0 : Int) ≠ -ENOENT := by decide
  have noted : director.checker.copy = note director.checker.copy it := by
    simp only [note, Iteration.call, chosen]
  have counted : Counted director.checker.copy it ↔
      ¬ (it.ret = 0 ∧ director.checker.copy (selectKey it.key) = some it.out.bytes ∨
        it.ret = -ENOENT ∧ director.checker.copy (selectKey it.key) = none) := by
    simp only [Counted, Iteration.call, chosen]
  by_cases failed : it.ret ≠ 0 ∧ it.ret ≠ -ENOENT
  · exact ⟨director.countFailure, if_pos failed, sound, noted,
      .inl ⟨counted.mpr (by omega), rfl⟩⟩
  · have code : it.ret = 0 ∨ it.ret = -ENOENT := by omega
    cases held : director.checker.copy (selectKey it.key) with
    | none =>
      have checked := doGet_checked code (.inr rfl) (KvChecker.checkValue_absent sound held it.out)
      rcases code with found | missing
      · refine ⟨director.countMissingKey, ?_, sound, noted, .inl ⟨counted.mpr ?_, rfl⟩⟩
        · rw [checked, if_pos (found ▸ different)]
        · simp [found, held, different]
      · refine ⟨director, ?_, sound, noted, .inr ⟨?_, rfl⟩⟩
        · rw [checked, if_neg (not_not.mpr missing), if_neg fun miscompare => miscompare.1 missing]
        · simp [counted, missing, held]
    | some bytes =>
      have checked := doGet_checked code (.inl rfl) (KvChecker.checkValue_present held it.out)
      rcases code with found | missing
      · rw [if_neg (not_not.mpr found)] at checked
        by_cases same : bytes = it.out.bytes
        · refine ⟨director, ?_, sound, noted, .inr ⟨?_, rfl⟩⟩
          · rw [checked, if_neg]
            simp [same]
          · simp [counted, found, held, same]
        · refine ⟨director.countMiscompare, ?_, sound, noted, .inl ⟨counted.mpr ?_, rfl⟩⟩
          · rw [checked, if_pos]
            simp [found, different, same]
          · simp [held, same]
      · refine ⟨director.countMissingKey, ?_, sound, noted, .inl ⟨counted.mpr ?_, rfl⟩⟩
        · rw [checked, if_pos (missing ▸ different.symm)]
        · simp [missing, held, ENOENT]

theorem doDel_spec (chosen : selectOperation it.operation = .doDel)
    (sound : director.checker.Sound) :
    ∃ next, director.doDel it = .ok (0, next) ∧ Judged director it next := by
  have counted : Counted director.checker.copy it ↔
      ¬ (it.ret = 0 ∧ director.checker.copy (selectKey it.key) ≠ none ∨
        it.ret = -ENOENT ∧ director.checker.copy (selectKey it.key) = none) := by
    simp only [Counted, Iteration.call, chosen]
  by_cases failed : it.ret ≠ 0 ∧ it.ret ≠ -ENOENT
  · refine ⟨director.countFailure, if_pos failed, sound, ?_, .inl ⟨counted.mpr (by omega), rfl⟩⟩
    have unanswered : ¬ (it.ret = 0 ∨ it.ret = -ENOENT) := by omega
    simp only [note, Iteration.call, chosen, if_neg unanswered, countFailure]
  · have code : it.ret = 0 ∨ it.ret = -ENOENT := by omega
    have noted : note director.checker.copy it =
        Function.update director.checker.copy (selectKey it.key) none := by
      simp only [note, Iteration.call, chosen, if_pos code]
    by_cases held : director.checker.copy (selectKey it.key) = none
    · have returned := KvChecker.deleteValue_absent sound held
      have unchanged : director.checker.copy = note director.checker.copy it := by
        rw [noted, Function.update_eq_self_iff.mpr held.symm]
      rcases code with found | missing
      · refine ⟨director.countMissingKey, ?_, sound, unchanged, .inl ⟨counted.mpr ?_, rfl⟩⟩
        · simp [doDel, returned, found, ENOENT]
        · simp [found, held, ENOENT]
      · refine ⟨director, ?_, sound, unchanged, .inr ⟨?_, rfl⟩⟩
        · simp [doDel, returned, missing, ENOENT]
        · simp [counted, missing, held]
    · obtain ⟨checker, returned, soundAfter, copyAfter⟩ :=
        KvChecker.deleteValue_present sound held
      rcases code with found | missing
      · refine ⟨{ director with checker }, ?_, soundAfter, copyAfter.trans noted.symm,
          .inr ⟨?_, rfl⟩⟩
        · simp [doDel, returned, found, ENOENT]
        · simp [counted, found, held]
      · refine ⟨{ director with checker }.countMissingKey, ?_, soundAfter,
          copyAfter.trans noted.symm, .inl ⟨counted.mpr ?_, rfl⟩⟩
        · simp [doDel, returned, missing, ENOENT]
        · simp [missing, held, ENOENT]

/-- What one operation does to the checker and the count of failures. -/
theorem op_spec (it : Iteration) (sound : director.checker.Sound)
    (memory : ¬ LacksMemory director.checker.copy it) :
    ∃ next, director.op it = .ok (0, next) ∧ Judged director it next := by
  unfold op
  cases chosen : selectOperation it.operation with
  | doSet => exact doSet_spec chosen sound memory
  | doGet => exact doGet_spec chosen sound
  | doDel => exact doDel_spec chosen sound

theorem op_lacksMemory (sound : director.checker.Sound)
    (lacks : LacksMemory director.checker.copy it) : director.op it = .ok (-ENOMEM, director) := by
  unfold op
  cases chosen : selectOperation it.operation with
  | doSet => exact doSet_lacksMemory chosen sound lacks
  | doGet | doDel => simp [LacksMemory, Iteration.call, chosen] at lacks

end TestDirector

end KeyValueStore.Stress
