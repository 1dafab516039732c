import Mathlib.Data.List.TakeDrop
import KeyValueStore.Lib.LittleEndian
import KeyValueStore.Submission.Platform

/-! # `kv_block.h`, `kv_block.c`

The fixed-size block of the log and its memory image, which is what goes to the
file: 32 bytes of header, then 4096 bytes of data. -/

namespace KeyValueStore

open ByteFile LittleEndian

def MAXBLOB : Nat := 4 * 1024

/-- `sizeof(struct kv_block)` -/
def sizeofKvBlock : Nat := 4128

def kvBlockSignature : UInt64 := 0xB1423CB4C5BCBC4A

structure KvBlockHeader where
  signature : UInt64
  keyId : UInt64
  sequence : UInt64
  /-- Zero marks a previous version of the key as deleted. -/
  dataBytes : UInt16
  pad1 : UInt16
  pad2 : UInt32
deriving DecidableEq

structure KvBlock where
  header : KvBlockHeader
  data : Bytes
  data_length : data.length = 4096

namespace KvBlockHeader

/-- Sets the four fields the source sets: the padding keeps what was in memory. -/
def init (header : KvBlockHeader) (keyId : UInt64) (dataBytes : UInt32) (sequence : UInt64) :
    KvBlockHeader :=
  { header with
    signature := kvBlockSignature
    keyId := keyId
    sequence := sequence
    dataBytes := dataBytes.toUInt16 }

def validate (header : KvBlockHeader) : Bool :=
  header.signature == kvBlockSignature

def toBytes (header : KvBlockHeader) : Bytes :=
  encode 8 header.signature.toNat ++ (encode 8 header.keyId.toNat ++
    (encode 8 header.sequence.toNat ++ (encode 2 header.dataBytes.toNat ++
      (encode 2 header.pad1.toNat ++ encode 4 header.pad2.toNat))))

def ofBytes (bytes : Bytes) : KvBlockHeader where
  signature := .ofNat (decode (readAt bytes 0 8))
  keyId := .ofNat (decode (readAt bytes 8 8))
  sequence := .ofNat (decode (readAt bytes 16 8))
  dataBytes := .ofNat (decode (readAt bytes 24 2))
  pad1 := .ofNat (decode (readAt bytes 26 2))
  pad2 := .ofNat (decode (readAt bytes 28 4))

@[simp] theorem length_toBytes (header : KvBlockHeader) : header.toBytes.length = 32 := by
  simp [toBytes]

/-- The header is read from the first 32 bytes alone. -/
theorem ofBytes_take (bytes : Bytes) : ofBytes (bytes.take 32) = ofBytes bytes := by
  have window : ∀ pos count, pos + count ≤ 32 →
      readAt (bytes.take 32) pos count = readAt bytes pos count := by
    intro pos count inside
    simp only [readAt, List.drop_take, List.take_take]
    congr 1
    omega
  simp only [ofBytes, window 0 8 (by decide), window 8 8 (by decide), window 16 8 (by decide),
    window 24 2 (by decide), window 26 2 (by decide), window 28 4 (by decide)]

theorem ofBytes_toBytes (header : KvBlockHeader) : ofBytes header.toBytes = header := by
  obtain ⟨signature, keyId, sequence, dataBytes, pad1, pad2⟩ := header
  have skip : ∀ {pos : Nat} (width value count : Nat) (rest : Bytes), width ≤ pos →
      readAt (encode width value ++ rest) pos count = readAt rest (pos - width) count := by
    intro pos width value count rest behind
    rw [readAt_append_of_le rest count (by simpa using behind), length_encode]
  have field : ∀ (width value : Nat) (rest : Bytes),
      readAt (encode width value ++ rest) 0 width = encode width value :=
    fun width value rest => readAt_append_front rest (length_encode width value)
  have last : readAt (encode 4 pad2.toNat) 0 4 = encode 4 pad2.toNat := by
    simpa using field 4 pad2.toNat []
  simp only [ofBytes, toBytes, skip, field, last, Nat.reduceLeDiff, Nat.reduceSub, Nat.le_refl]
  have wide : ∀ value : UInt64, decode (encode 8 value.toNat) = value.toNat :=
    fun value => decode_encode value.toNat_lt
  have narrow : ∀ value : UInt16, decode (encode 2 value.toNat) = value.toNat :=
    fun value => decode_encode value.toNat_lt
  have word : ∀ value : UInt32, decode (encode 4 value.toNat) = value.toNat :=
    fun value => decode_encode value.toNat_lt
  rw [wide, wide, wide, narrow, narrow, word]
  simp

end KvBlockHeader

namespace KvBlock

/-- `kv_block__init` on a block with the memory content `block`. -/
def init (block : KvBlock) (keyId : UInt64) (dataBytes : UInt32) (valueData : Option Bytes)
    (sequence : UInt64) : Except Fault KvBlock := do
  let header := block.header.init keyId dataBytes sequence
  -- The size is checked after it has gone into the header.
  assert .dataBytesFit (dataBytes.toNat ≤ 4096)
  match valueData with
  -- Without data the block keeps what was in memory.
  | none => .ok { block with header := header }
  | some source =>
    let data ← memcpy block.data source dataBytes.toNat
    .ok { header := header, data := data.1, data_length := data.2.trans block.data_length }

def validate (block : KvBlock) : Bool := block.header.validate

/-- `(const uint8_t *)&block` -/
def toBytes (block : KvBlock) : Bytes := block.header.toBytes ++ block.data

/-- The block that a read of `bytes` leaves in memory. -/
def ofBytes (bytes : Bytes) : KvBlock where
  header := KvBlockHeader.ofBytes bytes
  data := (bytes.drop 32).takeD 4096 0
  data_length := List.takeD_length _ _ _

@[simp] theorem length_toBytes (block : KvBlock) : block.toBytes.length = sizeofKvBlock := by
  simp [toBytes, block.data_length, sizeofKvBlock]

@[ext] theorem ext {left right : KvBlock} (header : left.header = right.header)
    (data : left.data = right.data) : left = right := by
  cases left; cases right; cases header; cases data; rfl

theorem ofBytes_toBytes (block : KvBlock) : ofBytes block.toBytes = block := by
  apply KvBlock.ext
  · have fromHeader := KvBlockHeader.ofBytes_take block.toBytes
    simp only [toBytes, List.take_append_of_le_length, KvBlockHeader.length_toBytes,
      Nat.le_refl, List.take_of_length_le, KvBlockHeader.ofBytes_toBytes] at fromHeader
    exact fromHeader.symm
  · simp only [ofBytes, toBytes]
    rw [List.drop_append_of_le_length (by simp), List.drop_of_length_le (by simp), List.nil_append,
      List.takeD_eq_take _ (by simp [block.data_length]),
      List.take_of_length_le (by simp [block.data_length])]

end KvBlock

end KeyValueStore
