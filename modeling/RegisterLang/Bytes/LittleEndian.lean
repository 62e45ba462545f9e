/-! # Numbers as bytes, least significant byte first

`LittleEndian.encode` writes the low bytes of a number and `LittleEndian.decode` reads a number back.
The two are inverse to each other on numbers that fit.
-/

namespace RegisterLang.LittleEndian

/-- The lowest `width` bytes of a number. -/
def encode : Nat → Nat → List UInt8
  | 0, _ => []
  | width + 1, n => UInt8.ofNat n :: encode width (n / 256)

def decode : List UInt8 → Nat
  | [] => 0
  | b :: bytes => b.toNat + 256 * decode bytes

@[simp]
theorem length_encode (width n : Nat) : (encode width n).length = width := by
  induction width generalizing n with
  | zero => rfl
  | succ width ih => simp [encode, ih]

theorem encode_decode (bytes : List UInt8) : encode bytes.length (decode bytes) = bytes := by
  induction bytes with
  | nil => rfl
  | cons b bytes ih =>
    have hb : b.toNat < 256 := b.toNat_lt
    have hq : (b.toNat + 256 * decode bytes) / 256 = decode bytes := by omega
    have hr : UInt8.ofNat (b.toNat + 256 * decode bytes) = b := by
      apply UInt8.toNat.inj
      simp
    simp [encode, decode, hq, hr, ih]

def word16 (w : UInt16) : List UInt8 := encode 2 w.toNat

def word32 (w : UInt32) : List UInt8 := encode 4 w.toNat

def word64 (w : UInt64) : List UInt8 := encode 8 w.toNat

end RegisterLang.LittleEndian
