import Mathlib.Algebra.Ring.Nat
import RegisterLang.Instruction.Codec

/-! # Reading instructions back

Instructions whose fields of four bits fit are read back from their bytes, whatever follows, so the bytes
of a list of instructions are read back as that list, each instruction at the sum of the lengths before
it.
-/

namespace RegisterLang

open List

namespace LittleEndian

theorem decode_encode (width n : Nat) : decode (encode width n) = n % 256 ^ width := by
  induction width generalizing n with
  | zero => simp [encode, decode, Nat.mod_one]
  | succ width ih =>
    rw [encode, decode, ih, Nat.pow_succ, Nat.mul_comm (256 ^ width), Nat.mod_mul]
    simp

theorem decode_lt (bytes : List UInt8) : decode bytes < 256 ^ bytes.length := by
  induction bytes with
  | nil => decide
  | cons b bytes ih =>
    have small := b.toNat_lt
    rw [decode, length_cons]
    omega

theorem decode_word16 (w : UInt16) : decode (word16 w) = w.toNat := by
  rw [word16, decode_encode]
  exact Nat.mod_eq_of_lt w.toNat_lt

theorem decode_word32 (w : UInt32) : decode (word32 w) = w.toNat := by
  rw [word32, decode_encode]
  exact Nat.mod_eq_of_lt w.toNat_lt

theorem decode_word64 (w : UInt64) : decode (word64 w) = w.toNat := by
  rw [word64, decode_encode]
  exact Nat.mod_eq_of_lt w.toNat_lt

end LittleEndian

namespace Instruction

variable {is : List Instruction}

/-- The fields of an instruction that are encoded in four bits: its registers, and the value of the
shortest load. -/
def nibbles : Instruction → List UInt8
  | nop | ret | retVoid | jump8 _ _ | jump16 _ _ | call _ | call8 _ | retLocal _ | retGlobal _ => []
  | mov dst src | neg dst src | fneg dst src => [dst, src]
  | ldi4 dst value => [dst, value]
  | ldi8 dst _ | ldi16 dst _ | ldi32 dst _ | ldi64 dst _ | ldf dst _ | ldstr dst _ => [dst]
  | arith _ _ dst a b => [dst, a, b]
  | arithImm8 _ dst src _ | arithImm16 _ dst src _ => [dst, src]
  | inc reg | dec reg | testz reg | push reg | pop reg | arrayDestroy reg => [reg]
  | compare _ a b => [a, b]
  | localGet reg _ | localSet reg _ | globalGet reg _ | globalSet reg _ => [reg]
  | arrayNew dst len => [dst, len]
  | arrayGet dst array index => [dst, array, index]
  | arraySet array index value => [array, index, value]

/-- All fields of four bits fit. -/
def Encodable (i : Instruction) : Prop :=
  ∀ field ∈ i.nibbles, field < 16

instance (i : Instruction) : Decidable i.Encodable :=
  decidableBAll (· < 16) i.nibbles

section
variable {i : Instruction} {x y z : UInt8} (x_small : x < 16) (y_small : y < 16) (z_small : z < 16)
include x_small

theorem Encodable.one (fields : i.nibbles = [x]) : i.Encodable := by
  simpa [Instruction.Encodable, fields] using x_small

include y_small

theorem Encodable.two (fields : i.nibbles = [x, y]) : i.Encodable := by
  simpa [Instruction.Encodable, fields] using ⟨x_small, y_small⟩

include z_small

theorem Encodable.three (fields : i.nibbles = [x, y, z]) : i.Encodable := by
  simpa [Instruction.Encodable, fields] using ⟨x_small, y_small, z_small⟩

end

theorem high_pack {hi : UInt8} (small : hi < 16) (lo : UInt8) : high (pack hi lo) = hi := by
  have bound : hi.toNat < 16 := small
  apply UInt8.toNat.inj
  simp only [high, pack, UInt8.toNat_div, UInt8.toNat_add, UInt8.toNat_mul, UInt8.toNat_mod, UInt8.reduceToNat]
  omega

theorem low_pack (hi : UInt8) {lo : UInt8} (small : lo < 16) : low (pack hi lo) = lo := by
  have bound : lo.toNat < 16 := small
  apply UInt8.toNat.inj
  simp only [low, pack, UInt8.toNat_add, UInt8.toNat_mul, UInt8.toNat_mod, UInt8.reduceToNat]
  omega

theorem read16_word16 (w : UInt16) : read16 (UInt8.ofNat w.toNat) (UInt8.ofNat (w.toNat / 256)) = w := by
  have spelled := LittleEndian.decode_word16 w
  exact (congrArg UInt16.ofNat spelled).trans (UInt16.ofNat_toNat)

theorem read32_word32 (w : UInt32) : read32 (UInt8.ofNat w.toNat) (UInt8.ofNat (w.toNat / 256))
      (UInt8.ofNat (w.toNat / 256 / 256)) (UInt8.ofNat (w.toNat / 256 / 256 / 256)) = w := by
  have spelled := LittleEndian.decode_word32 w
  exact (congrArg UInt32.ofNat spelled).trans (UInt32.ofNat_toNat)

theorem length_operandBytes (i : Instruction) : i.operandBytes.length = i.length - 1 := by
  cases i <;> rfl

@[simp]
theorem length_encode (i : Instruction) : i.encode.length = i.length := by
  cases i <;> rfl

theorem length_pos (i : Instruction) : 0 < i.length := by
  rw [← length_encode, encode]
  exact Nat.succ_pos _

theorem read64_word64 (w : UInt64) : read64 (UInt8.ofNat w.toNat) (UInt8.ofNat (w.toNat / 256))
      (UInt8.ofNat (w.toNat / 256 / 256)) (UInt8.ofNat (w.toNat / 256 / 256 / 256))
      (UInt8.ofNat (w.toNat / 256 / 256 / 256 / 256)) (UInt8.ofNat (w.toNat / 256 / 256 / 256 / 256 / 256))
      (UInt8.ofNat (w.toNat / 256 / 256 / 256 / 256 / 256 / 256))
      (UInt8.ofNat (w.toNat / 256 / 256 / 256 / 256 / 256 / 256 / 256)) = w := by
  have spelled := LittleEndian.decode_word64 w
  exact (congrArg UInt64.ofNat spelled).trans (UInt64.ofNat_toNat)

theorem ofOperands?_operandBytes {i : Instruction} (fits : i.Encodable) :
    ofOperands? i.opcode i.operandBytes = some i := by
  unfold ofOperands?
  cases i <;>
    simp only [Encodable, nibbles, mem_cons, not_mem_nil, or_false, forall_eq_or_imp, forall_eq] at fits <;>
    simp only [opcode, operandBytes, LittleEndian.word16, LittleEndian.word32,
      LittleEndian.word64, LittleEndian.encode, read16_word16, read32_word32, read64_word64,
      high_pack, low_pack, fits]

theorem decode_encode {i : Instruction} (fits : i.Encodable) (offset : Nat) (rest : List UInt8) :
    decode offset (i.encode ++ rest) = .ok (i, rest) := by
  have width : lengthOf i.opcode - 1 = i.operandBytes.length := (length_operandBytes i).symm
  simp only [encode, cons_append, decode, Opcode.ofByte?_byte, width, take_left,
    drop_left, ofOperands?_operandBytes fits]

/-- Instructions with the offsets they have when the first one stands at `offset`. -/
def located (offset : Nat) : List Instruction → List (Nat × Instruction)
  | [] => []
  | i :: is => (offset, i) :: located (offset + i.length) is

theorem decodeAllWithin_flatMap_encode (fits : ∀ i ∈ is, i.Encodable) (bound : List UInt8) (offset : Nat)
    (found : List (Nat × Instruction)) (enough : (is.flatMap encode).length ≤ bound.length) :
    decodeAllWithin bound offset (is.flatMap encode) found = .ok (found.reverse ++ located offset is) := by
  induction is generalizing bound offset found with
  | nil => cases bound <;> simp [decodeAllWithin, located]
  | cons i is ih =>
    rw [flatMap_cons, length_append, length_encode] at enough
    have positive := length_pos i
    obtain _ | ⟨first, bound⟩ := bound
    · simp only [length_nil] at enough
      omega
    · have read := decode_encode (fits i mem_cons_self) offset (is.flatMap encode)
      rw [length_cons] at enough
      have tail := ih (fun j member => fits j (mem_cons_of_mem i member)) bound
        (offset + i.length) ((offset, i) :: found) (by omega)
      rw [encode, cons_append] at read
      rw [flatMap_cons, encode, cons_append, decodeAllWithin, read]
      simp only [tail, reverse_cons, append_assoc, singleton_append, located]

/-- The code of a list of instructions is read back as that list, at the sums of the lengths. -/
theorem decodeAll_flatMap_encode (fits : ∀ i ∈ is, i.Encodable) :
    decodeAll (is.flatMap encode) = .ok (located 0 is) := by
  rw [decodeAll, decodeAllWithin_flatMap_encode fits _ _ _ (Nat.le_refl _), reverse_nil, nil_append]

/-- Where instruction `k` of a list starts; the end of the code for the number after the last. -/
def address (is : List Instruction) (k : Nat) : Nat :=
  ((is.take k).map length).sum

theorem address_succ {k : Nat} {i : Instruction} (found : is[k]? = some i) :
    address is (k + 1) = address is k + i.length := by
  simp [address, take_add_one, found]

theorem length_flatMap_encode (is : List Instruction) : (is.flatMap encode).length = (is.map length).sum := by
  rw [length_flatMap]
  simp only [length_encode]

theorem drop_flatMap_encode (is : List Instruction) (k : Nat) :
    (is.flatMap encode).drop (address is k) = (is.drop k).flatMap encode := by
  have split := congrArg (flatMap encode) (take_append_drop k is)
  rw [flatMap_append] at split
  rw [← split, address, ← length_flatMap_encode, drop_left]

theorem length_located (offset : Nat) (is : List Instruction) : (located offset is).length = is.length := by
  induction is generalizing offset with
  | nil => rfl
  | cons i is ih => simp [located, ih]

theorem getElem?_located (offset : Nat) (is : List Instruction) (k : Nat) :
    (located offset is)[k]? = is[k]?.map fun i => (offset + address is k, i) := by
  induction is generalizing offset k with
  | nil => rfl
  | cons i is ih =>
    cases k with
    | zero => simp [located, address]
    | succ k =>
      simp only [located, getElem?_cons_succ, ih, address, take_succ_cons,
        map_cons, sum_cons, Nat.add_assoc]

theorem map_snd_located (offset : Nat) (is : List Instruction) : (located offset is).map Prod.snd = is := by
  induction is generalizing offset with
  | nil => rfl
  | cons i is ih => simp [located, ih]

theorem address_eq_located (is : List Instruction) {k : Nat} (inside : k ≤ is.length) :
    address is k = ((located 0 is)[k]?.map Prod.fst).getD (is.flatMap encode).length := by
  rw [getElem?_located]
  obtain less | rfl := Nat.lt_or_eq_of_le inside
  · simp [getElem?_eq_getElem less]
  · rw [getElem?_eq_none (Nat.le_refl _), length_flatMap_encode, address, take_length]
    rfl

end Instruction

end RegisterLang
