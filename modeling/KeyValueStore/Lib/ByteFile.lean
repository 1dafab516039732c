import Mathlib.Data.List.Basic

/-! # Files as lists of items

Positioned reads and writes on a file, in the generality of any item type:

* `readAt` returns fewer items than asked for at the end of the file;
* `writeAt` replaces or extends, and fills the gap it leaves when it starts past
  the end.

`getElem?_writeAt` gives every item after a write; the read-over-write lemmas
follow from it.  `readAt_writeAt_take` covers a write that stops short, and
`readAt_writeAt_block` is about files that are cut in blocks of one size. -/

namespace KeyValueStore.ByteFile

variable {α : Type*} {gap : α}

/-- Up to `count` items from offset `pos`. -/
def readAt (file : List α) (pos count : Nat) : List α :=
  (file.drop pos).take count

/-- The file after `items` have been written at offset `pos`.  A write of no item
leaves even the length alone. -/
def writeAt (gap : α) (file : List α) (pos : Nat) (items : List α) : List α :=
  match items with
  | [] => file
  | _ :: _ =>
    file.take pos ++ (List.replicate (pos - file.length) gap ++
      (items ++ file.drop (pos + items.length)))

theorem length_readAt (file : List α) (pos count : Nat) :
    (readAt file pos count).length = min count (file.length - pos) := by
  simp [readAt]

theorem getElem?_readAt (file : List α) (pos count i : Nat) :
    (readAt file pos count)[i]? = if i < count then file[pos + i]? else none := by
  simp only [readAt, List.getElem?_take, List.getElem?_drop]

/-- A read that starts behind `front` does not see it. -/
theorem readAt_append_of_le {front : List α} (rest : List α) {pos : Nat} (count : Nat)
    (behind : front.length ≤ pos) :
    readAt (front ++ rest) pos count = readAt rest (pos - front.length) count := by
  simp [readAt, List.drop_append, List.drop_of_length_le behind]

/-- A read of exactly the front. -/
theorem readAt_append_front {front : List α} (rest : List α) {count : Nat}
    (exact : front.length = count) : readAt (front ++ rest) 0 count = front := by
  subst exact
  simp [readAt]

@[simp] theorem writeAt_nil (file : List α) (pos : Nat) : writeAt gap file pos [] = file := rfl

/-- Every item of the file after a write: inside the written range the new items,
below it the old ones or the gap, above it the old ones. -/
theorem getElem?_writeAt {items : List α} (nonempty : items ≠ []) (file : List α) (pos i : Nat) :
    (writeAt gap file pos items)[i]? =
      if i < pos then (if i < file.length then file[i]? else some gap)
      else if i < pos + items.length then items[i - pos]? else file[i]? := by
  have unfolded : writeAt gap file pos items =
      file.take pos ++ (List.replicate (pos - file.length) gap ++
        (items ++ file.drop (pos + items.length))) := by
    cases items with
    | nil => exact absurd rfl nonempty
    | cons _ _ => rfl
  rw [unfolded]
  simp only [List.getElem?_append, List.length_take, List.length_replicate, List.getElem?_take,
    List.getElem?_replicate, List.getElem?_drop]
  by_cases below : i < pos
  · by_cases inside : i < file.length
    · rw [if_pos (by omega), if_pos below, if_pos below, if_pos inside]
    · rw [if_neg (by omega), if_pos (by omega), if_pos (by omega), if_pos below, if_neg inside]
  · -- Past the gap the offset into the written items is `i - pos`.
    rw [if_neg (by omega), if_neg (by omega), if_neg below]
    have shift : i - min pos file.length - (pos - file.length) = i - pos := by omega
    rw [shift]
    by_cases written : i < pos + items.length
    · rw [if_pos (by omega), if_pos written]
    · rw [if_neg (by omega), if_neg written]
      congr 1
      omega

theorem length_writeAt {items : List α} (nonempty : items ≠ []) (file : List α) (pos : Nat) :
    (writeAt gap file pos items).length = max file.length (pos + items.length) := by
  cases items with
  | nil => exact absurd rfl nonempty
  | cons _ _ =>
    simp only [writeAt, List.length_append, List.length_take, List.length_replicate,
      List.length_drop]
    omega

theorem length_le_length_writeAt (file : List α) (pos : Nat) (items : List α) :
    file.length ≤ (writeAt gap file pos items).length := by
  by_cases nonempty : items = []
  · simp [nonempty]
  · rw [length_writeAt nonempty]
    exact Nat.le_max_left _ _

/-- What was written is read back. -/
theorem readAt_writeAt_same (file : List α) (pos : Nat) (items : List α) :
    readAt (writeAt gap file pos items) pos items.length = items := by
  by_cases nonempty : items = []
  · simp [nonempty, readAt]
  · apply List.ext_getElem?
    intro i
    rw [getElem?_readAt, getElem?_writeAt nonempty]
    by_cases inside : i < items.length
    · rw [if_pos inside, if_neg (by omega), if_pos (by omega), Nat.add_sub_cancel_left]
    · rw [if_neg inside, List.getElem?_eq_none (by omega)]

/-- A range that the write does not touch, and that the file already held, reads as
before. -/
theorem readAt_writeAt_disjoint (file : List α) (pos : Nat) (items : List α) {from_ count : Nat}
    (held : from_ + count ≤ file.length)
    (apart : from_ + count ≤ pos ∨ pos + items.length ≤ from_) :
    readAt (writeAt gap file pos items) from_ count = readAt file from_ count := by
  by_cases nonempty : items = []
  · simp [nonempty]
  · apply List.ext_getElem?
    intro i
    rw [getElem?_readAt, getElem?_readAt, getElem?_writeAt nonempty]
    by_cases inside : i < count
    · rw [if_pos inside, if_pos inside]
      by_cases below : from_ + i < pos
      · rw [if_pos below, if_pos (by omega)]
      · rw [if_neg below, if_neg (by omega)]
    · rw [if_neg inside, if_neg inside]

/-- The items of a range that a prefix of `items` was written over: the prefix, then
what was there. -/
theorem readAt_writeAt_take (file : List α) (pos : Nat) (items : List α) (done : Nat) :
    readAt (writeAt gap file pos (items.take done)) pos items.length =
      items.take done ++ (readAt file pos items.length).drop done := by
  apply List.ext_getElem?
  intro i
  by_cases nonempty : items.take done = []
  · rw [nonempty, writeAt_nil, List.nil_append]
    rcases List.take_eq_nil_iff.mp nonempty with zero | empty
    · simp [zero]
    · simp [empty, readAt]
  · rw [getElem?_readAt, getElem?_writeAt nonempty]
    simp only [List.getElem?_append, List.length_take, List.getElem?_drop, getElem?_readAt,
      List.getElem?_take]
    by_cases inside : i < items.length
    · rw [if_pos inside, if_neg (by omega)]
      by_cases prefixed : i < min done items.length
      · rw [if_pos (by omega), if_pos prefixed, Nat.add_sub_cancel_left]
      · rw [if_neg (by omega), if_neg prefixed, if_pos (by omega)]
        congr 1
        omega
    · rw [if_neg inside, if_neg (by omega), if_neg (by omega)]

/-! ## Blocks of one size -/

/-- The file has all items of block `b` if it has that many whole blocks. -/
theorem length_readAt_whole {size : Nat} (positive : 0 < size) (file : List α) (b : Nat) :
    (readAt file (b * size) size).length = size ↔ b < file.length / size := by
  rw [length_readAt, Nat.lt_div_iff_mul_lt positive]
  omega

/-- Different blocks share no item. -/
theorem blocks_apart {b d : Nat} (size : Nat) (apart : b ≠ d) :
    b * size + size ≤ d * size ∨ d * size + size ≤ b * size := by
  rcases Nat.lt_or_gt_of_ne apart with below | above
  · have ends := Nat.mul_le_mul_right size (Nat.succ_le_of_lt below)
    rw [Nat.succ_mul] at ends
    exact .inl ends
  · have ends := Nat.mul_le_mul_right size (Nat.succ_le_of_lt above)
    rw [Nat.succ_mul] at ends
    exact .inr ends

/-- A write into block `d`, of any length that fits, leaves a whole block `b` alone. -/
theorem readAt_writeAt_block {size b d : Nat} {file items : List α} (apart : b ≠ d)
    (fits : items.length ≤ size) (whole : (readAt file (b * size) size).length = size) :
    readAt (writeAt gap file (d * size) items) (b * size) size = readAt file (b * size) size := by
  rw [length_readAt] at whole
  by_cases empty : size = 0
  · simp [readAt, empty]
  · refine readAt_writeAt_disjoint file (d * size) items (by omega) ?_
    rcases blocks_apart size apart with before | after
    · exact .inl before
    · exact .inr (by omega)

end KeyValueStore.ByteFile
