import KeyValueStore.Lib.VersionLog
import KeyValueStore.Submission.Store

/-! # The file as a log of versions

`blockAt` is what a whole block of the file holds, `validBlock` the same for blocks
that replay looks at, and `fileLog` keeps the key and the sequence of these.  The
lemmas on `overwritten` say what a write, complete or cut short, does to them. -/

namespace KeyValueStore

open ByteFile VersionLog

/-- The whole blocks of the file. -/
def blockCount (file : Bytes) : Nat := file.length / sizeofKvBlock

def blockAt (file : Bytes) (b : Nat) : Option KvBlock :=
  if b < blockCount file then
    some (KvBlock.ofBytes (readAt file (b * sizeofKvBlock) sizeofKvBlock))
  else none

def validBlock (file : Bytes) (b : Nat) : Option KvBlock :=
  (blockAt file b).filter KvBlock.validate

/-- The key and the sequence of a block. -/
def KvBlock.version (block : KvBlock) : UInt64 × Nat :=
  (block.header.keyId, block.header.sequence.toNat)

def fileLog (file : Bytes) (b : Nat) : Option (UInt64 × Nat) :=
  (validBlock file b).map KvBlock.version

/-- The file once the first `count` bytes of `block` have reached block `b`. -/
def overwritten (file : Bytes) (b : Nat) (block : KvBlock) (count : Nat) : Bytes :=
  writeAt 0 file (b * sizeofKvBlock) (block.toBytes.take count)

/-- The directory as an index of the log: the block and the sequence of each entry. -/
def KvDirectory.index (directory : KvDirectory) (key : UInt64) : Option (Nat × Nat) :=
  (directory.findEntryForKey key).map fun entry => (entry.dataBlock, entry.sequence.toNat)

theorem KvDirectory.index_of_found {directory : KvDirectory} {key : UInt64}
    {entry : DirectoryEntry} (found : directory.findEntryForKey key = some entry) :
    directory.index key = some (entry.dataBlock, entry.sequence.toNat) := by
  rw [index, found, Option.map_some]

theorem KvDirectory.index_eq_none {directory : KvDirectory} {key : UInt64} :
    directory.index key = none ↔ directory.findEntryForKey key = none := by
  rw [index, Option.map_eq_none_iff]

theorem KvDirectory.index_eq_some {directory : KvDirectory} {key : UInt64} {b seq : Nat} :
    directory.index key = some (b, seq) ↔ ∃ entry, directory.findEntryForKey key = some entry ∧
      entry.dataBlock = b ∧ entry.sequence.toNat = seq := by
  simp [index]

theorem KvDirectory.index_withEntry (directory : KvDirectory) (entry : DirectoryEntry) :
    (directory.withEntry entry).index =
      Function.update directory.index entry.keyId
        (some (entry.dataBlock, entry.sequence.toNat)) := by
  funext key
  by_cases same : key = entry.keyId
  · subst same; simp [index]
  · simp [index, same]

/-- A number that beats the entry of a key beats all that the indexed log has of the key. -/
theorem KvDirectory.older_iff {directory : KvDirectory} {log : Nat → Option (UInt64 × Nat)}
    (indexes : Indexes directory.index log) {key : UInt64} {seq : Nat} :
    (∀ entry, directory.findEntryForKey key = some entry → entry.sequence.toNat < seq) ↔
      Newer log key seq := by
  rw [indexes.newer_iff]
  constructor
  · intro older slot seq' named
    obtain ⟨entry, found, _, rfl⟩ := index_eq_some.mp named
    exact older entry found
  · intro older entry found
    exact older _ _ (index_of_found found)

theorem validBlock_eq_some {file : Bytes} {b : Nat} {block : KvBlock} :
    validBlock file b = some block ↔ blockAt file b = some block ∧ block.validate = true := by
  simp [validBlock, Option.filter_eq_some_iff]

theorem fileLog_eq_some {file : Bytes} {b : Nat} {version : UInt64 × Nat} :
    fileLog file b = some version ↔ ∃ block, validBlock file b = some block ∧
      block.version = version := by
  simp [fileLog]

theorem newer_fileLog {file : Bytes} {key : UInt64} {seq : Nat} :
    Newer (fileLog file) key seq ↔ ∀ b block, validBlock file b = some block →
      block.header.keyId = key → block.header.sequence.toNat < seq := by
  simp only [Newer, fileLog_eq_some, KvBlock.version, Prod.mk.injEq]
  constructor
  · intro newer b block valid keyed
    exact newer b _ ⟨block, valid, keyed, rfl⟩
  · rintro newer b _ ⟨block, valid, keyed, rfl⟩
    exact newer b block valid keyed

theorem newer_below_fileLog {file : Bytes} {bound : Nat} {key : UInt64} {seq : Nat} :
    Newer (below bound (fileLog file)) key seq ↔ ∀ b block, b < bound →
      validBlock file b = some block → block.header.keyId = key →
      block.header.sequence.toNat < seq := by
  simp only [Newer, below_eq_some, fileLog_eq_some, KvBlock.version, Prod.mk.injEq]
  constructor
  · intro newer b block inside valid keyed
    exact newer b _ ⟨inside, block, valid, keyed, rfl⟩
  · rintro newer b _ ⟨inside, block, valid, keyed, rfl⟩
    exact newer b block inside valid keyed

theorem blockAt_isSome {file : Bytes} {b : Nat} {block : KvBlock}
    (stored : blockAt file b = some block) : b < blockCount file := by
  by_contra outside
  rw [blockAt, if_neg outside] at stored
  cases stored

theorem fileLog_lt {file : Bytes} {b : Nat} {version : UInt64 × Nat}
    (stored : fileLog file b = some version) : b < blockCount file := by
  obtain ⟨block, valid, _⟩ := fileLog_eq_some.mp stored
  exact blockAt_isSome (validBlock_eq_some.mp valid).1

/-- Only the bytes at the block decide what it holds. -/
theorem fileLog_congr {file file' : Bytes} {b : Nat} (same : blockAt file b = blockAt file' b) :
    fileLog file b = fileLog file' b := by
  simp only [fileLog, validBlock, same]

@[simp] theorem blockAt_nil (b : Nat) : blockAt [] b = none := by
  simp [blockAt, blockCount]

@[simp] theorem fileLog_nil : fileLog [] = fun _ => none := by
  funext b
  simp [fileLog, validBlock]

/-! ## Reading -/

section Read

variable {array : KvBlockArray} {file : Bytes} {b : Nat}

theorem byteOffset_eq (raw : array.rawBlockBytes = sizeofKvBlock) (small : b < 2 ^ 32) :
    array.byteOffset b = b * sizeofKvBlock := by
  rw [KvBlockArray.byteOffset, raw]
  apply Nat.mod_eq_of_lt
  simp only [sizeofKvBlock]
  omega

theorem length_readAt_block :
    (readAt file (b * sizeofKvBlock) sizeofKvBlock).length = sizeofKvBlock ↔ b < blockCount file :=
  length_readAt_whole (by decide) file b

/-- Whatever the environment does, a read that delivers delivers the block. -/
theorem blockAt_of_readBlock (raw : array.rawBlockBytes = sizeofKvBlock) (small : b < 2 ^ 32)
    {result : ReadResult} {bytes : Bytes} (delivered : array.readBlock result file b = .ok bytes) :
    blockAt file b = some (KvBlock.ofBytes bytes) := by
  -- What came in is a full block exactly if the block is inside the file.
  have whole : ∀ taken : Bytes, taken.length ≤ sizeofKvBlock →
      (∃ count, taken = (readAt file (b * sizeofKvBlock) sizeofKvBlock).take count) →
      taken.length = sizeofKvBlock → blockAt file b = some (KvBlock.ofBytes taken) := by
    rintro taken _ ⟨count, rfl⟩ full
    have bound := length_readAt file (b * sizeofKvBlock) sizeofKvBlock
    rw [List.length_take] at full
    have inside : b < blockCount file := length_readAt_block.mp (by omega)
    rw [blockAt, if_pos inside, List.take_of_length_le (by omega)]
  unfold KvBlockArray.readBlock at delivered
  rw [byteOffset_eq raw small, raw] at delivered
  have limit := length_readAt file (b * sizeofKvBlock) sizeofKvBlock
  cases fd : array.fd with
  | none => rw [fd] at delivered; cases delivered
  | some _ =>
    cases result with
    | seekFailed _ | failed _ => rw [fd] at delivered; cases delivered
    | full =>
      simp only [fd] at delivered
      split at delivered
      · cases delivered
        exact whole _ (by omega) ⟨sizeofKvBlock, by rw [List.take_of_length_le (by omega)]⟩ ‹_›
      · cases delivered
    | short count =>
      simp only [fd] at delivered
      split at delivered
      · cases delivered
        exact whole _ (by rw [List.length_take]; omega) ⟨count, rfl⟩ ‹_›
      · cases delivered

/-- A read of a block of the file succeeds exactly if all of it comes in. -/
theorem readBlock_delivers (raw : array.rawBlockBytes = sizeofKvBlock) (small : b < 2 ^ 32)
    (opened : array.fd ≠ none) (inside : b < blockCount file) (result : ReadResult) :
    result.Delivers ↔ ∃ bytes, array.readBlock result file b = .ok bytes := by
  have whole : (readAt file (b * sizeofKvBlock) sizeofKvBlock).length = sizeofKvBlock :=
    length_readAt_block.mpr inside
  cases fd : array.fd with
  | none => exact absurd fd opened
  | some _ =>
    cases result with
    | seekFailed _ | failed _ => simp [KvBlockArray.readBlock, fd, ReadResult.Delivers]
    | full =>
      simp [KvBlockArray.readBlock, fd, byteOffset_eq raw small, raw, whole, ReadResult.Delivers]
    | short count =>
      by_cases all : sizeofKvBlock ≤ count
      · simp [KvBlockArray.readBlock, fd, byteOffset_eq raw small, raw, whole,
          ReadResult.Delivers, all]
      · simp [KvBlockArray.readBlock, fd, byteOffset_eq raw small, raw, whole,
          ReadResult.Delivers, all]

/-- The code of a failed read is not 0. -/
theorem readBlock_error_ne_zero {result : ReadResult} {ret : Int}
    (failed : array.readBlock result file b = .error ret) : ret ≠ 0 := by
  unfold KvBlockArray.readBlock at failed
  cases fd : array.fd with
  | none => rw [fd] at failed; cases failed; decide
  | some _ =>
    rw [fd] at failed
    cases result with
    | seekFailed errno | failed errno => cases failed; exact errno.code_ne_zero
    | full | short _ =>
      simp only at failed
      split at failed
      · cases failed
      · cases failed; decide

end Read

/-! ## Writing -/

section Write

variable {file : Bytes} {b d : Nat} {block : KvBlock} {count : Nat}

theorem length_overwritten (positive : 0 < count) :
    (overwritten file d block count).length =
      max file.length (d * sizeofKvBlock + min count sizeofKvBlock) := by
  have nonempty : block.toBytes.take count ≠ [] := by
    intro empty
    have lengths := congrArg List.length empty
    simp only [List.length_take, KvBlock.length_toBytes, List.length_nil, sizeofKvBlock] at lengths
    omega
  rw [overwritten, length_writeAt nonempty, List.length_take, KvBlock.length_toBytes]

@[simp] theorem overwritten_zero : overwritten file d block 0 = file := by
  simp [overwritten]

/-- A write, complete or not, leaves the other blocks of the file alone. -/
theorem blockAt_overwritten_of_ne (apart : b ≠ d) (inside : b < blockCount file) :
    blockAt (overwritten file d block count) b = blockAt file b := by
  have held : b * sizeofKvBlock + sizeofKvBlock ≤ file.length := by
    simp only [blockCount, sizeofKvBlock] at *
    omega
  have grown : b < blockCount (overwritten file d block count) := by
    have longer : file.length ≤
        (writeAt 0 file (d * sizeofKvBlock) (block.toBytes.take count)).length :=
      length_le_length_writeAt file _ _
    simp only [blockCount, overwritten, sizeofKvBlock] at *
    omega
  have disjoint : b * sizeofKvBlock + sizeofKvBlock ≤ d * sizeofKvBlock ∨
      d * sizeofKvBlock + (block.toBytes.take count).length ≤ b * sizeofKvBlock := by
    rw [List.length_take, KvBlock.length_toBytes]
    simp only [sizeofKvBlock]
    omega
  rw [blockAt, blockAt, if_pos grown, if_pos inside]
  rw [overwritten, readAt_writeAt_disjoint file _ _ held disjoint]

/-- A write, complete or not, adds at most the blocks up to its own. -/
theorem blockCount_overwritten :
    blockCount file ≤ blockCount (overwritten file d block count) ∧
      blockCount (overwritten file d block count) ≤ max (blockCount file) (d + 1) := by
  by_cases none_ : count = 0
  · rw [none_, overwritten_zero]
    exact ⟨Nat.le_refl _, Nat.le_max_left _ _⟩
  · simp only [blockCount, length_overwritten (Nat.pos_of_ne_zero none_), sizeofKvBlock]
    omega

theorem blockCount_overwritten_full (full : sizeofKvBlock ≤ count) :
    blockCount (overwritten file d block count) = max (blockCount file) (d + 1) := by
  have positive : 0 < count := Nat.lt_of_lt_of_le (by decide) full
  rw [blockCount, length_overwritten positive, blockCount]
  simp only [sizeofKvBlock] at *
  omega

theorem blockAt_overwritten_full (full : sizeofKvBlock ≤ count) :
    blockAt (overwritten file d block count) d = some block := by
  have inside : d < blockCount (overwritten file d block count) := by
    rw [blockCount_overwritten_full full]
    omega
  have all : block.toBytes.take count = block.toBytes :=
    List.take_of_length_le (by simpa using full)
  have back : readAt (writeAt 0 file (d * sizeofKvBlock) block.toBytes) (d * sizeofKvBlock)
      block.toBytes.length = block.toBytes := readAt_writeAt_same file _ _
  rw [KvBlock.length_toBytes] at back
  rw [blockAt, if_pos inside, overwritten, all, back, KvBlock.ofBytes_toBytes]

/-- A complete write that leaves no gap changes one block of the file. -/
theorem blockAt_overwritten (full : sizeofKvBlock ≤ count) (dense : d ≤ blockCount file) :
    blockAt (overwritten file d block count) =
      Function.update (blockAt file) d (some block) := by
  funext b
  by_cases same : b = d
  · subst same; rw [Function.update_self, blockAt_overwritten_full full]
  · rw [Function.update_of_ne same]
    by_cases inside : b < blockCount file
    · exact blockAt_overwritten_of_ne same inside
    · -- Growing the file by the block at its end adds no other block.
      have outside : ¬ b < blockCount (overwritten file d block count) := by
        rw [blockCount_overwritten_full full]
        omega
      rw [blockAt, blockAt, if_neg outside, if_neg inside]

theorem validBlock_overwritten (full : sizeofKvBlock ≤ count) (dense : d ≤ blockCount file)
    (valid : block.validate = true) :
    validBlock (overwritten file d block count) =
      Function.update (validBlock file) d (some block) := by
  funext b
  rw [validBlock, blockAt_overwritten full dense]
  by_cases same : b = d
  · subst same
    simp [valid]
  · rw [Function.update_of_ne same, Function.update_of_ne same, validBlock]

theorem fileLog_overwritten (full : sizeofKvBlock ≤ count) (dense : d ≤ blockCount file)
    (valid : block.validate = true) :
    fileLog (overwritten file d block count) =
      Function.update (fileLog file) d (some block.version) := by
  funext b
  rw [fileLog, validBlock_overwritten full dense valid]
  by_cases same : b = d
  · subst same
    simp
  · rw [Function.update_of_ne same, Function.update_of_ne same, fileLog]

/-- A write just past the last whole block that stops short adds no block. -/
theorem blockAt_overwritten_short (short : count < sizeofKvBlock) (past : d = blockCount file) :
    blockCount (overwritten file d block count) = blockCount file ∧
      blockAt (overwritten file d block count) = blockAt file := by
  have counted : blockCount (overwritten file d block count) = blockCount file := by
    by_cases none_ : count = 0
    · rw [none_, overwritten_zero]
    · rw [blockCount, length_overwritten (by omega), blockCount]
      subst past
      simp only [blockCount, sizeofKvBlock] at *
      omega
  refine ⟨counted, ?_⟩
  funext b
  by_cases inside : b < blockCount file
  · exact blockAt_overwritten_of_ne (by omega) inside
  · rw [blockAt, blockAt, counted, if_neg inside, if_neg inside]

/-- A write over a whole block, complete or not, changes that block alone. -/
theorem blockAt_overwritten_inside (inside : d < blockCount file) :
    blockCount (overwritten file d block count) = blockCount file ∧
      ∀ b, b ≠ d → blockAt (overwritten file d block count) b = blockAt file b := by
  have counted : blockCount (overwritten file d block count) = blockCount file := by
    by_cases none_ : count = 0
    · rw [none_, overwritten_zero]
    · rw [blockCount, length_overwritten (by omega), blockCount]
      simp only [blockCount, sizeofKvBlock] at *
      omega
  refine ⟨counted, ?_⟩
  intro b apart
  by_cases held : b < blockCount file
  · exact blockAt_overwritten_of_ne apart held
  · rw [blockAt, blockAt, counted, if_neg held, if_neg held]

/-- A write over a whole block that stops short leaves the new bytes in front of the
old ones. -/
theorem blockAt_overwritten_torn (inside : d < blockCount file) :
    blockAt (overwritten file d block count) d =
      some (KvBlock.ofBytes (block.toBytes.take count ++
        (readAt file (d * sizeofKvBlock) sizeofKvBlock).drop count)) := by
  have grown : d < blockCount (overwritten file d block count) := by
    have longer : file.length ≤
        (writeAt 0 file (d * sizeofKvBlock) (block.toBytes.take count)).length :=
      length_le_length_writeAt file _ _
    simp only [blockCount, overwritten, sizeofKvBlock] at *
    omega
  have torn : readAt (writeAt 0 file (d * sizeofKvBlock) (block.toBytes.take count))
      (d * sizeofKvBlock) block.toBytes.length = block.toBytes.take count ++
        (readAt file (d * sizeofKvBlock) block.toBytes.length).drop count :=
    readAt_writeAt_take file _ _ count
  rw [KvBlock.length_toBytes] at torn
  rw [blockAt, if_pos grown, overwritten, torn]

/-- The first 32 bytes of a write bring the header of the block. -/
theorem blockAt_overwritten_header (inside : d < blockCount file) (header : 32 ≤ count) :
    ∃ torn, blockAt (overwritten file d block count) d = some torn ∧
      torn.header = block.header := by
  refine ⟨_, blockAt_overwritten_torn inside, ?_⟩
  -- The header is read from bytes that are all new.
  have front : (block.toBytes.take count ++
      (readAt file (d * sizeofKvBlock) sizeofKvBlock).drop count).take 32 =
      block.toBytes.take 32 := by
    rw [List.take_append_of_le_length, List.take_take, Nat.min_eq_left header]
    rw [List.length_take, KvBlock.length_toBytes, sizeofKvBlock]
    omega
  have whole := congrArg KvBlock.header (KvBlock.ofBytes_toBytes block)
  simp only [KvBlock.ofBytes] at whole ⊢
  rw [← KvBlockHeader.ofBytes_take, front, KvBlockHeader.ofBytes_take, whole]

end Write

end KeyValueStore
