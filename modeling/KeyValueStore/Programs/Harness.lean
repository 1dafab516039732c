import KeyValueStore.Programs.Rules

/-! # `kv_harness.c`

The test program of `submission`.  Its tests return 0 if they pass; a test that fails may
leave its store open.  Where the text reads memory that it has not written, the memory is a
parameter (`Stack`). -/

namespace KeyValueStore.Harness

open Clients LittleEndian ByteFile

/-! ## The test framework -/

structure Tally where
  testnum : Nat
  testfail : Nat
  /-- What is printed of each test: its name, after `ok` or `not ok`. -/
  lines : List (String × Bool)

namespace Tally

def start : Tally := ⟨0, 0, []⟩

/-- `__vtest` -/
def test (tally : Tally) (passed : Bool) (name : String) : Tally where
  testnum := tally.testnum + 1
  testfail := if passed then tally.testfail else tally.testfail + 1
  lines := tally.lines ++ [(name, passed)]

end Tally

/-- `test(body == 0, name)` -/
def test (tally : Tally) (body : Test) (name : String) : Client Request Response Tally := do
  let ret ← body
  return tally.test (ret = 0) name

/-! ## Values -/

/-- The characters of `"This is a test value."` -/
def testString : Bytes := "This is a test value.".toList.map fun char => UInt8.ofNat char.toNat

/-- `strcpy` and `strlen` -/
def testValue : Value where
  size := UInt64.ofNat testString.length
  data := testString
  size_le := by decide

/-- `memset(value->data, (int)i, MAXBLOB)` -/
def maxValue (i : Nat) : Value where
  size := UInt64.ofNat MAXBLOB
  data := List.replicate MAXBLOB (UInt8.ofNat i)
  size_le := by rw [List.length_replicate]; decide

/-- `a->size != b->size || memcmp(a->data, b->data, a->size) != 0` -/
def differ (a b : Value) : Bool :=
  a.size ≠ b.size ∨ a.data.take a.size.toNat ≠ b.data.take a.size.toNat

structure TestValueData where
  key : UInt64
  version : UInt64

namespace TestValueData

/-- `sizeof(struct test_value_data)` -/
def size : Nat := 16

def toBytes (data : TestValueData) : Bytes :=
  encode 8 data.key.toNat ++ encode 8 data.version.toNat

def ofBytes (bytes : Bytes) : TestValueData where
  key := .ofNat (decode (readAt bytes 0 8))
  version := .ofNat (decode (readAt bytes 8 8))

/-- The `data_to_store` of the tests. -/
def value (data : TestValueData) : Value where
  size := UInt64.ofNat size
  data := data.toBytes
  size_le := by simp [toBytes, size]

end TestValueData

/-- A `retrieved_value` of the tests, which set neither its size nor its data: the memory
from `data` on, as far as that size says. -/
structure Retrieved where
  value : Value
  long : TestValueData.size ≤ value.data.length

/-- What the buffers of the harness happen to hold, those of a loop by the number of the
round. -/
structure Stack where
  output : ValueBuffer
  compared : ValueBuffer
  persisted : Nat → ValueBuffer
  overwritten : Nat → Retrieved
  deleted : Nat → Retrieved
  first : Nat → Retrieved
  second : Nat → Retrieved
  replayed : Retrieved

/-! ## Tests on the store of `main` -/

def kvSetGetCmp (stack : Stack) : Test := do
  let ret ← code (.kvSet 54689 testValue)
  if ret ≠ 0 then return ret
  let response ← Client.call (.kvGet 54689 stack.compared.value)
  if response.ret ≠ 0 then return response.ret
  if differ testValue (response.value.getD stack.compared.value) then return -1
  code (.kvDel 54689)

def setMaxValues : Test :=
  Client.untilError (fun i => code (.kvSet (.ofNat i) (maxValue i))) (List.range MAXKEYS)

def delMaxValues : Test :=
  Client.untilError (fun i => code (.kvDel (.ofNat i))) (List.range MAXKEYS)

def canSetMaxValues : Test := do
  let ret ← setMaxValues
  if ret ≠ 0 then return ret
  delMaxValues

def testRepetitions : Nat := 5

def canReplaceMaxValues : Test := do
  let ret ← Client.untilError (fun _ => setMaxValues) (List.range testRepetitions)
  if ret ≠ 0 then return ret
  delMaxValues

/-! ## Tests that open the store themselves -/

def keysToStore : Nat := 100

def checkMaxValue (i : Nat) (buffer : ValueBuffer) : Test := do
  let response ← Client.call (.kvGet (.ofNat i) buffer.value)
  if response.ret ≠ 0 then return response.ret
  if differ (maxValue i) (response.value.getD buffer.value) then return -1
  return 0

def canPersist (stack : Stack) (argc : Nat) : Test := do
  let ret ← code (.kvOpen true argc)
  if ret ≠ 0 then return ret
  let ret ← Client.untilError (fun i => code (.kvSet (.ofNat i) (maxValue i)))
    (List.range keysToStore)
  if ret ≠ 0 then return ret
  let ret ← reopen argc
  if ret ≠ 0 then return ret
  let ret ← Client.untilError (fun i => checkMaxValue i (stack.persisted i)) (List.range keysToStore)
  if ret ≠ 0 then return ret
  close

def versionsToWrite : Nat := 100

/-- Every version from `start` on for every key, by a body of the test. -/
def writeVersions (body : Nat → Nat → Test) (start : Nat) : Test :=
  Client.untilError (fun v => Client.untilError (body v) (List.range keysToStore))
    (List.range' start versionsToWrite)

def storeVersion (id : UInt64) (v : Nat) : Test :=
  code (.kvSet id (TestValueData.value ⟨id, .ofNat v⟩))

/-- The code of the deletion is not looked at. -/
def deleteAndStoreVersion (id : UInt64) (v : Nat) : Test := do
  if v > 0 then let _ ← Client.call (.kvDel id)
  storeVersion id v

def checkVersion (id : UInt64) (version : Nat) (memory : Retrieved) : Test := do
  let response ← Client.call (.kvGet id memory.value)
  if response.ret ≠ 0 then return response.ret
  let retrieved := response.value.getD memory.value
  let data := TestValueData.ofBytes retrieved.data
  if retrieved.size ≠ .ofNat TestValueData.size ∨ data.key ≠ id ∨ data.version ≠ .ofNat version then
    return -1
  return 0

def checkVersions (id : Nat → UInt64) (version : Nat) (memory : Nat → Retrieved) : Test :=
  Client.untilError (fun i => checkVersion (id i) version (memory i)) (List.range keysToStore)

/-- The test of either kind that writes versions with `body`. -/
def retrievesLatest (id : Nat → UInt64) (body : Nat → Nat → Test) (memory : Nat → Retrieved)
    (argc : Nat) : Test := do
  let ret ← code (.kvOpen true argc)
  if ret ≠ 0 then return ret
  let ret ← writeVersions body 0
  if ret ≠ 0 then return ret
  let ret ← reopen argc
  if ret ≠ 0 then return ret
  let ret ← checkVersions id (versionsToWrite - 1) memory
  if ret ≠ 0 then return ret
  close

def retrievesLatestAfterOverwrites (stack : Stack) (argc : Nat) : Test :=
  retrievesLatest .ofNat (fun v i => storeVersion (.ofNat i) v) stack.overwritten argc

/-- `0x1000000 | i` -/
def deletedId (i : Nat) : UInt64 := .ofNat (0x1000000 ||| i)

def retrievesLatestAfterDeletes (stack : Stack) (argc : Nat) : Test :=
  retrievesLatest deletedId (fun v i => deleteAndStoreVersion (deletedId i) v) stack.deleted argc

def newVersionStart : Nat := 10000

def retrievesLatestTwice (stack : Stack) (argc : Nat) : Test := do
  let ret ← code (.kvOpen true argc)
  if ret ≠ 0 then return ret
  let ret ← writeVersions (fun v i => storeVersion (.ofNat i) v) 0
  if ret ≠ 0 then return ret
  let ret ← reopen argc
  if ret ≠ 0 then return ret
  let ret ← checkVersions .ofNat (versionsToWrite - 1) stack.first
  if ret ≠ 0 then return ret
  let ret ← writeVersions (fun v i => storeVersion (.ofNat i) v) newVersionStart
  if ret ≠ 0 then return ret
  let ret ← reopen argc
  if ret ≠ 0 then return ret
  let ret ← checkVersions .ofNat (newVersionStart + versionsToWrite - 1) stack.second
  if ret ≠ 0 then return ret
  close

def cannotGetDeletedValuesAfterReplay (stack : Stack) (argc : Nat) : Test := do
  let ret ← code (.kvOpen true argc)
  if ret ≠ 0 then return ret
  let ret ← storeVersion 43 197
  if ret ≠ 0 then return ret
  let ret ← code (.kvDel 43)
  if ret ≠ 0 then return ret
  let ret ← reopen argc
  if ret ≠ 0 then return ret
  let ret ← code (.kvGet 43 stack.replayed.value)
  if ret ≠ 0 ∧ ret ≠ -ENOENT then return ret
  if ret = 0 then return -1
  close

/-- `main`, which returns 0 whatever it has found. -/
def kvHarness (stack : Stack) (argc : Nat) : Client Request Response Tally := do
  let tally ← test .start (code (.kvOpen true argc)) "kv_open"
  let tally ← test tally (code (.kvSet 123 testValue)) "kv_set"
  let tally ← test tally (code (.kvGet 123 stack.output.value)) "kv_get"
  let tally ← test tally (code (.kvDel 123)) "kv_del"
  let tally ← test tally (kvSetGetCmp stack) "kv_set_get_cmp"
  let tally ← test tally canSetMaxValues "kv_set__can_set_max_values"
  let tally ← test tally canReplaceMaxValues "kv_set__can_replace_max_values"
  let _ ← Client.call .kvClose
  let tally ← test tally (canPersist stack argc) "kv_store_can_persist"
  let tally ← test tally (retrievesLatestAfterOverwrites stack argc)
    "kv_store_retrieves_latest_persisted_keys_after_overwrites"
  let tally ← test tally (retrievesLatestAfterDeletes stack argc)
    "kv_store_retrieves_latest_persisted_keys_after_deletes"
  let tally ← test tally (retrievesLatestTwice stack argc)
    "kv_store_retrieves_latest_persisted_keys_twice"
  test tally (cannotGetDeletedValuesAfterReplay stack argc)
    "kv_store_cannot_get_deleted_values_after_replay"

end KeyValueStore.Harness
