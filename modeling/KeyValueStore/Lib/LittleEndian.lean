import Mathlib.Algebra.Group.Nat.Defs

/-! # Little-endian fields

The memory image of an unsigned field of `width` bytes, and its inverse.
`decode_encode` is the round trip for values that fit the width. -/

namespace KeyValueStore.LittleEndian

/-- The `width` bytes of `value`, least significant first. -/
def encode : (width : Nat) → (value : Nat) → List UInt8
  | 0, _ => []
  | width + 1, value => UInt8.ofNat value :: encode width (value / 256)

def decode : List UInt8 → Nat
  | [] => 0
  | byte :: bytes => byte.toNat + 256 * decode bytes

@[simp] theorem length_encode (width value : Nat) : (encode width value).length = width := by
  induction width generalizing value with
  | zero => rfl
  | succ width ih => simp [encode, ih]

/-- Encoding keeps a value that fits the width. -/
theorem decode_encode {width value : Nat} (fits : value < 256 ^ width) :
    decode (encode width value) = value := by
  induction width generalizing value with
  | zero => simp at fits; simp [encode, decode, fits]
  | succ width ih =>
    have quotient : value / 256 < 256 ^ width := by
      rw [Nat.div_lt_iff_lt_mul (by decide)]
      rwa [Nat.pow_succ] at fits
    simp only [encode, decode, ih quotient, UInt8.toNat_ofNat']
    omega

end KeyValueStore.LittleEndian
