import KeyValueStore.Lib.Runs
import KeyValueStore.Submission.BlockArray

/-! # The block array as an array of blocks

Writes of `kv_block_array__write_block`, complete and short, to a file that was created: a
write returns 0 exactly if it was complete, what the last write of a block left is read back
if that write was complete, and the count of the blocks says which of them can be read
(`block_array_refines`).  The blocks may have any size here. -/

namespace KeyValueStore

open Runs ByteFile

/-- A block array that was opened with `create`, and its file. -/
def Emptied (raw : Nat) (array : KvBlockArray) (file : Bytes) : Prop :=
  ∃ allocated closed result before, KvBlockArray.init allocated raw = .ok closed ∧
    closed.open true result before = (0, array, file)

/-- The arguments of a call of `kv_block_array__write_block`, and what becomes of the write. -/
structure BlockWriteCall (raw : Nat) where
  result : WriteResult
  destination : Nat
  data : Bytes
  data_length : data.length = raw

namespace BlockWriteCall

variable {raw : Nat}

def issue (array : KvBlockArray) (file : Bytes) (call : BlockWriteCall raw) :
    EStateM.Result Fault Bytes Int :=
  array.writeBlock call.result call.destination call.data file

/-- The system takes all the bytes of the block, and says so. -/
def completes (call : BlockWriteCall raw) : Bool :=
  match call.result with
  | .full => true
  | .short count => raw ≤ count
  | .failed .. | .seekFailed _ | .stopped _ => false

/-- The call returns, and its destination is an offset in a file. -/
structure Permitted (call : BlockWriteCall raw) : Prop where
  offset : call.destination * raw < 2 ^ 63
  returns : ∀ count, call.result ≠ .stopped count

end BlockWriteCall

open BlockWriteCall

section Array

variable {raw : Nat} {array : KvBlockArray} {file : Bytes} {b : Nat}

theorem emptied_iff : Emptied raw array file ↔ file = [] ∧ ∃ fd, array = ⟨raw, some fd⟩ := by
  constructor
  · rintro ⟨allocated, closed, result, before, initialised, opened⟩
    cases allocated <;> cases initialised
    cases result with
    | failed errno =>
      rw [KvBlockArray.open, Prod.mk.injEq] at opened
      exact absurd opened.1 errno.code_ne_zero
    | opened fd =>
      cases opened
      exact ⟨rfl, fd, rfl⟩
  · rintro ⟨rfl, fd, rfl⟩
    exact ⟨true, ⟨raw, none⟩, .opened fd, [], rfl, rfl⟩

/-- The `size_t` product does not wrap. -/
theorem byteOffset_of_offset {fd : Option Nat} (offset : b * raw < 2 ^ 63) :
    KvBlockArray.byteOffset ⟨raw, fd⟩ b = b * raw := by
  rw [KvBlockArray.byteOffset]
  apply Nat.mod_eq_of_lt
  dsimp only
  omega

/-- A write leaves a prefix of its data at its block; if it completes that is all of it, and
then it returns 0. -/
theorem BlockWriteCall.issue_spec {call : BlockWriteCall raw} (permitted : call.Permitted)
    (fd : Nat) (file : Bytes) :
    ∃ code count, issue ⟨raw, some fd⟩ file call =
        .ok code (writeAt 0 file (call.destination * raw) (call.data.take count)) ∧
      (code = 0 ↔ call.completes) ∧ (call.completes → raw ≤ count) := by
  have whole : call.data.take raw = call.data := List.take_of_length_le (Nat.le_of_eq call.data_length)
  simp only [issue, completes, KvBlockArray.writeBlock, byteOffset_of_offset permitted.offset, whole]
  cases result : call.result with
  | full => exact ⟨0, raw, by simp only [whole], iff_of_true rfl rfl, fun _ => Nat.le_refl raw⟩
  | short count =>
    refine ⟨_, count, rfl, ?_, of_decide_eq_true⟩
    rw [decide_eq_true_eq]
    by_cases all : raw ≤ count
    · exact iff_of_true (if_pos (Nat.min_eq_right all)) all
    · rw [if_neg (by omega)]
      exact iff_of_false (by decide) all
  | failed errno count =>
    exact ⟨errno.code, count, rfl, iff_of_false errno.code_ne_zero Bool.false_ne_true, nofun⟩
  | seekFailed errno =>
    exact ⟨errno.code, 0, rfl, iff_of_false errno.code_ne_zero Bool.false_ne_true, nofun⟩
  | stopped count => exact absurd result (permitted.returns count)

theorem readBlock_full {fd : Nat} (offset : b * raw < 2 ^ 63) (file : Bytes) :
    KvBlockArray.readBlock ⟨raw, some fd⟩ .full file b =
      if (readAt file (b * raw) raw).length = raw then .ok (readAt file (b * raw) raw)
      else .error (- EIO) := by
  simp only [KvBlockArray.readBlock, byteOffset_of_offset offset]

end Array

/-! ## Runs of writes -/

/-- The bytes in the blocks that are known. -/
def Holds (raw : Nat) (file : Bytes) (known : Nat → Option Bytes) : Prop :=
  ∀ b bytes, known b = some bytes → bytes.length = raw ∧ readAt file (b * raw) raw = bytes

section Writes

variable {raw : Nat} {file : Bytes} {known : Nat → Option Bytes}

/-- What is known of a block after a write to it. -/
def BlockWriteCall.left (call : BlockWriteCall raw) : Option Bytes :=
  if call.completes then some call.data else none

theorem Holds.step {call : BlockWriteCall raw} (holds : Holds raw file known)
    (permitted : call.Permitted) (fd : Nat) :
    ∃ code next, issue ⟨raw, some fd⟩ file call = .ok code next ∧ (code = 0 ↔ call.completes) ∧
      Holds raw next (Function.update known call.destination call.left) := by
  obtain ⟨code, count, returned, zero, complete⟩ := issue_spec permitted fd file
  refine ⟨code, _, returned, zero, ?_⟩
  intro b bytes here
  have length := call.data_length
  by_cases same : b = call.destination
  · subst same
    rw [Function.update_self, left] at here
    split at here
    · rename_i completes
      cases here
      have all : call.data.take count = call.data :=
        List.take_of_length_le (by rw [length]; exact complete completes)
      have back := @readAt_writeAt_same _ 0 file (call.destination * raw) call.data
      rw [length] at back
      exact ⟨length, by rw [all]; exact back⟩
    · cases here
  · rw [Function.update_of_ne same] at here
    obtain ⟨size, held⟩ := holds b bytes here
    refine ⟨size, ?_⟩
    have short : (call.data.take count).length ≤ raw := by
      rw [List.length_take]
      omega
    rw [readAt_writeAt_block same short (by rw [held]; exact size)]
    exact held

theorem Holds.run {calls : List (BlockWriteCall raw)} (holds : Holds raw file known)
    (permitted : ∀ call ∈ calls, call.Permitted) (fd : Nat) :
    ∃ codes last, Runs.run (issue ⟨raw, some fd⟩) file calls = .ok codes last ∧
      List.Forall₂ (fun call code => code = 0 ↔ call.completes) calls codes ∧
      Holds raw last fun b =>
        ((lastAt BlockWriteCall.destination calls b).map BlockWriteCall.left).getD (known b) := by
  induction calls generalizing file known with
  | nil => exact ⟨[], file, rfl, .nil, holds⟩
  | cons call calls ih =>
    obtain ⟨code, next, returned, zero, held⟩ :=
      holds.step (permitted call (List.mem_cons_self ..)) fd
    obtain ⟨codes, last, rest, zeros, final⟩ :=
      ih held fun call member => permitted call (List.mem_cons_of_mem _ member)
    refine ⟨code :: codes, last, by simp only [Runs.run, returned, rest], .cons zero zeros, ?_⟩
    simp only [← foldl_update_eq_lastAt] at final ⊢
    exact final

end Writes

/-- What these writes have returned, and what the functions say of the file after them. -/
structure ArrayOfBlocks {raw : Nat} (array : KvBlockArray) (calls : List (BlockWriteCall raw))
    (codes : List Int) (file : Bytes) : Prop where
  codes : List.Forall₂ (fun call code => code = 0 ↔ call.completes) calls codes
  /-- A block whose last write completed is read back. -/
  written : ∀ b call, lastAt BlockWriteCall.destination calls b = some call → call.completes →
    array.readBlock .full file b = .ok call.data
  count : file.length / raw < 2 ^ 32 →
    array.getFileBlockCount (.ok ()) file = .ok (file.length / raw)
  readable : ∀ b, b < 2 ^ 32 →
    ((∃ bytes, array.readBlock .full file b = .ok bytes) ↔ b < file.length / raw)

/-- Any writes, in any order, to a file that was created. -/
theorem block_array_refines {raw : Nat} (positive : 0 < raw) (small : raw < 2 ^ 31)
    {array : KvBlockArray} {file : Bytes} (emptied : Emptied raw array file)
    {calls : List (BlockWriteCall raw)} (permitted : ∀ call ∈ calls, call.Permitted) :
    ∃ codes last, run (issue array) file calls = .ok codes last ∧
      ArrayOfBlocks array calls codes last := by
  obtain ⟨rfl, fd, rfl⟩ := emptied_iff.mp emptied
  have start : Holds raw [] fun _ => none := by
    rintro _ _ ⟨⟩
  obtain ⟨codes, last, returned, zeros, holds⟩ := start.run permitted fd
  refine ⟨codes, last, returned, zeros, ?_, ?_, ?_⟩
  · intro b call written completes
    have known : ((lastAt BlockWriteCall.destination calls b).map BlockWriteCall.left).getD none =
        some call.data := by
      rw [written, Option.map_some, Option.getD_some, BlockWriteCall.left, if_pos completes]
    obtain ⟨size, held⟩ := holds b call.data known
    have member := List.mem_filter.mp (List.mem_of_getLast? written)
    have destination : call.destination = b := of_decide_eq_true member.2
    have offset := (permitted call member.1).offset
    rw [destination] at offset
    rw [readBlock_full offset, held, if_pos size]
  · intro fits
    simp only [KvBlockArray.getFileBlockCount, Nat.mod_eq_of_lt fits]
  · intro b representable
    have offset : b * raw < 2 ^ 63 := by
      calc b * raw < 2 ^ 32 * 2 ^ 31 := Nat.mul_lt_mul'' representable small
        _ = 2 ^ 63 := by decide
    rw [readBlock_full offset, ← length_readAt_whole positive]
    split <;> simp_all

/-- Block 1 is written before block 0, where only one byte arrives. -/
def gapRun : List (BlockWriteCall 2) := [⟨.full, 1, [7, 8], rfl⟩, ⟨.short 1, 0, [5, 6], rfl⟩]

theorem block_array_refines_gap :
    ∃ codes last, run (issue ⟨2, some 3⟩) [] gapRun = .ok codes last ∧
      ArrayOfBlocks ⟨2, some 3⟩ gapRun codes last := by
  refine block_array_refines (by decide) (by decide) (emptied_iff.mpr ⟨rfl, 3, rfl⟩) ?_
  intro call member
  rcases List.mem_pair.mp member with rfl | rfl
  · exact ⟨by decide, by rintro _ ⟨⟩⟩
  · exact ⟨by decide, by rintro _ ⟨⟩⟩

example : run (issue ⟨2, some 3⟩) [] gapRun = .ok [0, - EIO] [5, 0, 7, 8] := rfl

end KeyValueStore
