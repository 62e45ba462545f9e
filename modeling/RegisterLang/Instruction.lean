/-! # Instructions of the register machine

Sixteen registers are named by a byte of which only the low four bits are encoded. Jumps go forward: an
offset counts from the instruction after the jump.
-/

namespace RegisterLang

/-- How operand bits are read by arithmetic and comparison. -/
inductive NumKind where
  | signed
  | unsigned
  | float
  deriving DecidableEq, Repr, Inhabited

inductive ArithOp where
  | add
  | sub
  | mul
  | div
  deriving DecidableEq, Repr, Inhabited

inductive ImmOp where
  | add
  | sub
  | mul
  deriving DecidableEq, Repr, Inhabited

/-- When a jump is taken, by the outcome of the last comparison. -/
inductive Condition where
  | always
  | eq
  | ne
  | lt
  | ge
  | gt
  | le
  deriving DecidableEq, Repr, Inhabited

namespace Condition

def all : List Condition :=
  [.always, .eq, .ne, .lt, .ge, .gt, .le]

/-- The condition that an `else` needs. The unconditional one has no opposite. -/
def negate : Condition → Condition
  | always => always
  | eq => ne
  | ne => eq
  | lt => ge
  | ge => lt
  | gt => le
  | le => gt

def letters : Condition → String
  | always => "mp"
  | eq => "e"
  | ne => "ne"
  | lt => "l"
  | ge => "ge"
  | gt => "g"
  | le => "le"

end Condition

inductive Opcode where
  | nop
  | mov
  | ldi4
  | ldi8
  | ldi16
  | ldi32
  | ldi64
  | ldf
  | ldstr
  | arith (op : ArithOp) (kind : NumKind)
  | arithImm8 (op : ImmOp)
  | arithImm16 (op : ImmOp)
  | inc
  | dec
  | neg
  | fneg
  | compare (kind : NumKind)
  | testz
  | jump8 (cond : Condition)
  | jump16 (cond : Condition)
  | push
  | pop
  | localGet
  | localSet
  | globalGet
  | globalSet
  | call
  | call8
  | ret
  | retVoid
  | retLocal
  | retGlobal
  | arrayNew
  | arrayGet
  | arraySet
  | arrayDestroy
  deriving DecidableEq, Repr, Inhabited

namespace Opcode

def byte : Opcode → UInt8
  | nop => 0x00
  | mov => 0x01
  | ldi4 => 0x02
  | ldi8 => 0x03
  | ldi16 => 0x04
  | ldi32 => 0x05
  | ldi64 => 0x06
  | ldf => 0x07
  | ldstr => 0x08
  | arith .add .signed => 0x10
  | arith .add .unsigned => 0x11
  | arith .add .float => 0x12
  | arith .sub .signed => 0x13
  | arith .sub .unsigned => 0x14
  | arith .sub .float => 0x15
  | arith .mul .signed => 0x16
  | arith .mul .unsigned => 0x17
  | arith .mul .float => 0x18
  | arith .div .signed => 0x19
  | arith .div .unsigned => 0x1A
  | arith .div .float => 0x1B
  | arithImm8 .add => 0x1C
  | arithImm16 .add => 0x1D
  | arithImm8 .sub => 0x1E
  | arithImm16 .sub => 0x1F
  | arithImm8 .mul => 0x20
  | arithImm16 .mul => 0x21
  | inc => 0x22
  | dec => 0x23
  | neg => 0x24
  | fneg => 0x25
  | compare .unsigned => 0x30
  | compare .signed => 0x31
  | compare .float => 0x32
  | testz => 0x33
  | jump8 .always => 0x40
  | jump16 .always => 0x41
  | jump8 .eq => 0x42
  | jump16 .eq => 0x43
  | jump8 .ne => 0x44
  | jump16 .ne => 0x45
  | jump8 .lt => 0x46
  | jump16 .lt => 0x47
  | jump8 .ge => 0x48
  | jump16 .ge => 0x49
  | jump8 .gt => 0x4A
  | jump16 .gt => 0x4B
  | jump8 .le => 0x4C
  | jump16 .le => 0x4D
  | push => 0x50
  | pop => 0x51
  | localGet => 0x52
  | localSet => 0x53
  | globalGet => 0x54
  | globalSet => 0x55
  | call => 0x60
  | call8 => 0x61
  | ret => 0x62
  | retVoid => 0x63
  | retLocal => 0x64
  | retGlobal => 0x65
  | arrayNew => 0x70
  | arrayGet => 0x71
  | arraySet => 0x72
  | arrayDestroy => 0x73

def ofByte? (b : UInt8) : Option Opcode :=
  match b.toNat with
  | 0x00 => some nop
  | 0x01 => some mov
  | 0x02 => some ldi4
  | 0x03 => some ldi8
  | 0x04 => some ldi16
  | 0x05 => some ldi32
  | 0x06 => some ldi64
  | 0x07 => some ldf
  | 0x08 => some ldstr
  | 0x10 => some (arith .add .signed)
  | 0x11 => some (arith .add .unsigned)
  | 0x12 => some (arith .add .float)
  | 0x13 => some (arith .sub .signed)
  | 0x14 => some (arith .sub .unsigned)
  | 0x15 => some (arith .sub .float)
  | 0x16 => some (arith .mul .signed)
  | 0x17 => some (arith .mul .unsigned)
  | 0x18 => some (arith .mul .float)
  | 0x19 => some (arith .div .signed)
  | 0x1A => some (arith .div .unsigned)
  | 0x1B => some (arith .div .float)
  | 0x1C => some (arithImm8 .add)
  | 0x1D => some (arithImm16 .add)
  | 0x1E => some (arithImm8 .sub)
  | 0x1F => some (arithImm16 .sub)
  | 0x20 => some (arithImm8 .mul)
  | 0x21 => some (arithImm16 .mul)
  | 0x22 => some inc
  | 0x23 => some dec
  | 0x24 => some neg
  | 0x25 => some fneg
  | 0x30 => some (compare .unsigned)
  | 0x31 => some (compare .signed)
  | 0x32 => some (compare .float)
  | 0x33 => some testz
  | 0x40 => some (jump8 .always)
  | 0x41 => some (jump16 .always)
  | 0x42 => some (jump8 .eq)
  | 0x43 => some (jump16 .eq)
  | 0x44 => some (jump8 .ne)
  | 0x45 => some (jump16 .ne)
  | 0x46 => some (jump8 .lt)
  | 0x47 => some (jump16 .lt)
  | 0x48 => some (jump8 .ge)
  | 0x49 => some (jump16 .ge)
  | 0x4A => some (jump8 .gt)
  | 0x4B => some (jump16 .gt)
  | 0x4C => some (jump8 .le)
  | 0x4D => some (jump16 .le)
  | 0x50 => some push
  | 0x51 => some pop
  | 0x52 => some localGet
  | 0x53 => some localSet
  | 0x54 => some globalGet
  | 0x55 => some globalSet
  | 0x60 => some call
  | 0x61 => some call8
  | 0x62 => some ret
  | 0x63 => some retVoid
  | 0x64 => some retLocal
  | 0x65 => some retGlobal
  | 0x70 => some arrayNew
  | 0x71 => some arrayGet
  | 0x72 => some arraySet
  | 0x73 => some arrayDestroy
  | _ => none

theorem ofByte?_byte (op : Opcode) : ofByte? op.byte = some op := by
  cases op with
  | arith op kind => cases op <;> cases kind <;> rfl
  | arithImm8 op => cases op <;> rfl
  | arithImm16 op => cases op <;> rfl
  | compare kind => cases kind <;> rfl
  | jump8 cond => cases cond <;> rfl
  | jump16 cond => cases cond <;> rfl
  | _ => rfl

def kindLetter : NumKind → String
  | .signed => ""
  | .unsigned => "u"
  | .float => "f"

def arithWord : ArithOp → String
  | .add => "add"
  | .sub => "sub"
  | .mul => "mul"
  | .div => "div"

def immWord : ImmOp → String
  | .add => "add"
  | .sub => "sub"
  | .mul => "mul"

def mnemonic : Opcode → String
  | nop => "nop"
  | mov => "mov"
  | ldi4 => "ldi4"
  | ldi8 => "ldi8"
  | ldi16 => "ldi16"
  | ldi32 => "ldi32"
  | ldi64 => "ldi64"
  | ldf => "ldf"
  | ldstr => "ldstr"
  | arith op kind => kindLetter kind ++ arithWord op
  | arithImm8 op => immWord op ++ "8"
  | arithImm16 op => immWord op ++ "16"
  | inc => "inc"
  | dec => "dec"
  | neg => "neg"
  | fneg => "fneg"
  | compare .unsigned => "cmp"
  | compare .signed => "icmp"
  | compare .float => "fcmp"
  | testz => "testz"
  | jump8 cond => "j" ++ cond.letters ++ "8"
  | jump16 cond => "j" ++ cond.letters ++ "16"
  | push => "push"
  | pop => "pop"
  | localGet => "localget"
  | localSet => "localset"
  | globalGet => "globalget"
  | globalSet => "globalset"
  | call => "call"
  | call8 => "call8"
  | ret => "ret"
  | retVoid => "retvoid"
  | retLocal => "retlocal"
  | retGlobal => "retglobal"
  | arrayNew => "arraynew"
  | arrayGet => "arrayget"
  | arraySet => "arrayset"
  | arrayDestroy => "arraydestroy"

end Opcode

inductive Instruction where
  | nop
  | mov (dst src : UInt8)
  | ldi4 (dst value : UInt8)
  | ldi8 (dst value : UInt8)
  | ldi16 (dst : UInt8) (value : UInt16)
  | ldi32 (dst : UInt8) (value : UInt32)
  | ldi64 (dst : UInt8) (value : UInt64)
  /-- Load a floating-point number, given by its bits. -/
  | ldf (dst : UInt8) (bits : UInt64)
  | ldstr (dst : UInt8) (index : UInt32)
  | arith (op : ArithOp) (kind : NumKind) (dst a b : UInt8)
  | arithImm8 (op : ImmOp) (dst src : UInt8) (imm : UInt8)
  | arithImm16 (op : ImmOp) (dst src : UInt8) (imm : UInt16)
  | inc (reg : UInt8)
  | dec (reg : UInt8)
  | neg (dst src : UInt8)
  | fneg (dst src : UInt8)
  | compare (kind : NumKind) (a b : UInt8)
  | testz (reg : UInt8)
  | jump8 (cond : Condition) (offset : UInt8)
  | jump16 (cond : Condition) (offset : UInt16)
  | push (reg : UInt8)
  | pop (reg : UInt8)
  | localGet (reg : UInt8) (slot : UInt16)
  | localSet (reg : UInt8) (slot : UInt16)
  | globalGet (reg : UInt8) (index : UInt32)
  | globalSet (reg : UInt8) (index : UInt32)
  | call (func : UInt32)
  | call8 (func : UInt8)
  | ret
  | retVoid
  | retLocal (slot : UInt16)
  | retGlobal (index : UInt32)
  | arrayNew (dst len : UInt8)
  | arrayGet (dst array index : UInt8)
  | arraySet (array index value : UInt8)
  | arrayDestroy (reg : UInt8)
  deriving DecidableEq, Repr, Inhabited

namespace Instruction

def opcode : Instruction → Opcode
  | nop => .nop
  | mov .. => .mov
  | ldi4 .. => .ldi4
  | ldi8 .. => .ldi8
  | ldi16 .. => .ldi16
  | ldi32 .. => .ldi32
  | ldi64 .. => .ldi64
  | ldf .. => .ldf
  | ldstr .. => .ldstr
  | arith op kind .. => .arith op kind
  | arithImm8 op .. => .arithImm8 op
  | arithImm16 op .. => .arithImm16 op
  | inc .. => .inc
  | dec .. => .dec
  | neg .. => .neg
  | fneg .. => .fneg
  | compare kind .. => .compare kind
  | testz .. => .testz
  | jump8 cond .. => .jump8 cond
  | jump16 cond .. => .jump16 cond
  | push .. => .push
  | pop .. => .pop
  | localGet .. => .localGet
  | localSet .. => .localSet
  | globalGet .. => .globalGet
  | globalSet .. => .globalSet
  | call .. => .call
  | call8 .. => .call8
  | ret => .ret
  | retVoid => .retVoid
  | retLocal .. => .retLocal
  | retGlobal .. => .retGlobal
  | arrayNew .. => .arrayNew
  | arrayGet .. => .arrayGet
  | arraySet .. => .arraySet
  | arrayDestroy .. => .arrayDestroy

/-- How far past the next instruction a jump goes. -/
def jumpOffset? : Instruction → Option Nat
  | jump8 _ offset => some offset.toNat
  | jump16 _ offset => some offset.toNat
  | _ => none

end Instruction

end RegisterLang
