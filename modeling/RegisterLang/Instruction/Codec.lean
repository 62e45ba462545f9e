import RegisterLang.Bytes.LittleEndian
import RegisterLang.Bytes.Hex
import RegisterLang.Instruction

/-! # Instructions as bytes

An instruction starts with the byte of its opcode. Two registers share a byte, the first one in its high
half; a half that is not used is written as zero and not looked at when read. Longer operands have their
least significant byte first. `Instruction.encode` and `Instruction.decode` are the only definitions that
know this layout.
-/

namespace RegisterLang

namespace Instruction

open LittleEndian

def pack (hi lo : UInt8) : UInt8 :=
  hi * 16 + lo % 16

def high (b : UInt8) : UInt8 := b / 16

def low (b : UInt8) : UInt8 := b % 16

def lengthOf : Opcode → Nat
  | .nop | .ret | .retVoid => 1
  | .mov | .ldi4 | .inc | .dec | .neg | .fneg | .compare _ | .testz | .jump8 _ | .push | .pop
  | .call8 | .arrayNew | .arrayDestroy => 2
  | .ldi8 | .arith _ _ | .arithImm8 _ | .jump16 _ | .retLocal | .arrayGet | .arraySet => 3
  | .ldi16 | .arithImm16 _ | .localGet | .localSet => 4
  | .call | .retGlobal => 5
  | .ldi32 | .ldstr | .globalGet | .globalSet => 6
  | .ldi64 | .ldf => 10

def length (i : Instruction) : Nat :=
  lengthOf i.opcode

def operandBytes : Instruction → List UInt8
  | nop | ret | retVoid => []
  | mov dst src | neg dst src | fneg dst src => [pack dst src]
  | ldi4 dst value => [pack dst value]
  | ldi8 dst value => [pack dst 0, value]
  | ldi16 dst value => pack dst 0 :: word16 value
  | ldi32 dst value => pack dst 0 :: word32 value
  | ldi64 dst value => pack dst 0 :: word64 value
  | ldf dst bits => pack dst 0 :: word64 bits
  | ldstr dst index => pack dst 0 :: word32 index
  | arith _ _ dst a b => [pack dst a, pack b 0]
  | arithImm8 _ dst src imm => [pack dst src, imm]
  | arithImm16 _ dst src imm => pack dst src :: word16 imm
  | inc reg | dec reg | testz reg | push reg | pop reg | arrayDestroy reg => [pack reg 0]
  | compare _ a b => [pack a b]
  | jump8 _ offset => [offset]
  | jump16 _ offset => word16 offset
  | localGet reg slot | localSet reg slot => pack reg 0 :: word16 slot
  | globalGet reg index | globalSet reg index => pack reg 0 :: word32 index
  | call func => word32 func
  | call8 func => [func]
  | retLocal slot => word16 slot
  | retGlobal index => word32 index
  | arrayNew dst len => [pack dst len]
  | arrayGet dst array index => [pack dst array, pack index 0]
  | arraySet array index value => [pack array index, pack value 0]

def encode (i : Instruction) : List UInt8 :=
  i.opcode.byte :: i.operandBytes

def read16 (a b : UInt8) : UInt16 :=
  UInt16.ofNat (decode [a, b])

def read32 (a b c d : UInt8) : UInt32 :=
  UInt32.ofNat (decode [a, b, c, d])

def read64 (a b c d e f g h : UInt8) : UInt64 :=
  UInt64.ofNat (decode [a, b, c, d, e, f, g, h])

/-- The instruction that an opcode and its operand bytes spell; none when there are too few or too many
bytes. -/
def ofOperands? : Opcode → List UInt8 → Option Instruction
  | .nop, [] => some nop
  | .mov, [r] => some (mov (high r) (low r))
  | .ldi4, [r] => some (ldi4 (high r) (low r))
  | .ldi8, [r, value] => some (ldi8 (high r) value)
  | .ldi16, [r, a, b] => some (ldi16 (high r) (read16 a b))
  | .ldi32, [r, a, b, c, d] => some (ldi32 (high r) (read32 a b c d))
  | .ldi64, [r, a, b, c, d, e, f, g, h] => some (ldi64 (high r) (read64 a b c d e f g h))
  | .ldf, [r, a, b, c, d, e, f, g, h] => some (ldf (high r) (read64 a b c d e f g h))
  | .ldstr, [r, a, b, c, d] => some (ldstr (high r) (read32 a b c d))
  | .arith op kind, [r, s] => some (arith op kind (high r) (low r) (high s))
  | .arithImm8 op, [r, imm] => some (arithImm8 op (high r) (low r) imm)
  | .arithImm16 op, [r, a, b] => some (arithImm16 op (high r) (low r) (read16 a b))
  | .inc, [r] => some (inc (high r))
  | .dec, [r] => some (dec (high r))
  | .neg, [r] => some (neg (high r) (low r))
  | .fneg, [r] => some (fneg (high r) (low r))
  | .compare kind, [r] => some (compare kind (high r) (low r))
  | .testz, [r] => some (testz (high r))
  | .jump8 cond, [offset] => some (jump8 cond offset)
  | .jump16 cond, [a, b] => some (jump16 cond (read16 a b))
  | .push, [r] => some (push (high r))
  | .pop, [r] => some (pop (high r))
  | .localGet, [r, a, b] => some (localGet (high r) (read16 a b))
  | .localSet, [r, a, b] => some (localSet (high r) (read16 a b))
  | .globalGet, [r, a, b, c, d] => some (globalGet (high r) (read32 a b c d))
  | .globalSet, [r, a, b, c, d] => some (globalSet (high r) (read32 a b c d))
  | .call, [a, b, c, d] => some (call (read32 a b c d))
  | .call8, [func] => some (call8 func)
  | .ret, [] => some ret
  | .retVoid, [] => some retVoid
  | .retLocal, [a, b] => some (retLocal (read16 a b))
  | .retGlobal, [a, b, c, d] => some (retGlobal (read32 a b c d))
  | .arrayNew, [r] => some (arrayNew (high r) (low r))
  | .arrayGet, [r, s] => some (arrayGet (high r) (low r) (high s))
  | .arraySet, [r, s] => some (arraySet (high r) (low r) (high s))
  | .arrayDestroy, [r] => some (arrayDestroy (high r))
  | _, _ => none

end Instruction

/-- Why bytes are not an instruction. The offset is that of the first byte. -/
inductive DecodeError where
  | invalidOpcode (opcode : UInt8) (offset : Nat)
  | truncated (offset : Nat)
  deriving DecidableEq, Repr, Inhabited

namespace DecodeError

def message : DecodeError → String
  | invalidOpcode opcode offset =>
    s!"invalid opcode 0x{Hex.padded 2 opcode.toNat} at offset {offset}"
  | truncated offset => s!"truncated instruction at offset {offset}"

end DecodeError

namespace Instruction

/-- The first instruction of some code, which stands at `offset`, and the code after it. -/
def decode (offset : Nat) : List UInt8 → Except DecodeError (Instruction × List UInt8)
  | [] => .error (.truncated offset)
  | byte :: rest =>
    match Opcode.ofByte? byte with
    | none => .error (.invalidOpcode byte offset)
    | some op =>
      let n := lengthOf op - 1
      match ofOperands? op (rest.take n) with
      | none => .error (.truncated offset)
      | some i => .ok (i, rest.drop n)

def decodeAt (code : List UInt8) (offset : Nat) : Except DecodeError (Instruction × Nat) :=
  (decode offset (code.drop offset)).map fun (i, _) => (i, i.length)

/-- Decode code that stands at `offset`. The first list bounds the number of instructions, and `found`
holds, last first, those before. -/
def decodeAllWithin : List UInt8 → Nat → List UInt8 → List (Nat × Instruction) →
    Except DecodeError (List (Nat × Instruction))
  | _ :: bound, offset, code@(_ :: _), found =>
    match decode offset code with
    | .error e => .error e
    | .ok (i, rest) => decodeAllWithin bound (offset + i.length) rest ((offset, i) :: found)
  | _, _, _, found => .ok found.reverse

def decodeAll (code : List UInt8) : Except DecodeError (List (Nat × Instruction)) :=
  decodeAllWithin code 0 code []

end Instruction

end RegisterLang
