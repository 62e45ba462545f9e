import RegisterLang.CodeBuffer
import RegisterLang.Ty

/-! # Choosing instructions

Each function appends one operation, in the shortest form that its operands allow.
-/

namespace RegisterLang

def immediateWidth (value : UInt64) : Nat :=
  if value ≤ 0xF then 4
  else if value ≤ 0xFF then 8
  else if value ≤ 0xFFFF then 16
  else if value ≤ 0xFFFFFFFF then 32
  else 64

namespace Ty

def numKind (t : Ty) : NumKind :=
  if t.isFloat then .float else if t.isUnsigned then .unsigned else .signed

end Ty

namespace CodeBuffer

def loadInt (c : CodeBuffer) (dst : UInt8) (value : UInt64) : CodeBuffer :=
  c.emit <|
    if value ≤ 0xF then .ldi4 dst value.toUInt8
    else if value ≤ 0xFF then .ldi8 dst value.toUInt8
    else if value ≤ 0xFFFF then .ldi16 dst value.toUInt16
    else if value ≤ 0xFFFFFFFF then .ldi32 dst value.toUInt32
    else .ldi64 dst value

/-- Load a constant: the index of a string, a floating-point number or an integer, by its type. -/
def loadConst (c : CodeBuffer) (dst : UInt8) (bits : UInt64) (ty : Ty) : CodeBuffer :=
  if ty.isConstString then c.emit (.ldstr dst bits.toUInt32)
  else if ty.isFloat then c.emit (.ldf dst bits)
  else c.loadInt dst bits

def mov (c : CodeBuffer) (dst src : UInt8) : CodeBuffer :=
  if dst ≠ src then c.emit (.mov dst src) else c

def arith (c : CodeBuffer) (op : ArithOp) (kind : NumKind) (dst a b : UInt8) : CodeBuffer :=
  c.emit (.arith op kind dst a b)

def immOp? : ArithOp → Option ImmOp
  | .add => some .add
  | .sub => some .sub
  | .mul => some .mul
  | .div => none

/-- Combine a register with a constant, if the operation and the constant have such a form. -/
def arithImm? (c : CodeBuffer) (op : ArithOp) (dst src : UInt8) (imm : UInt64) :
    Option CodeBuffer :=
  match immOp? op with
  | none => none
  | some immOp =>
    if imm = 1 && immOp = .add then some ((c.mov dst src).emit (.inc dst))
    else if imm = 1 && immOp = .sub then some ((c.mov dst src).emit (.dec dst))
    else if imm ≤ 0xFF then some (c.emit (.arithImm8 immOp dst src imm.toUInt8))
    else if imm ≤ 0xFFFF then some (c.emit (.arithImm16 immOp dst src imm.toUInt16))
    else none

def negate (c : CodeBuffer) (ty : Ty) (dst src : UInt8) : CodeBuffer :=
  c.emit (if ty.isFloat then .fneg dst src else .neg dst src)

def compare (c : CodeBuffer) (ty : Ty) (a b : UInt8) : CodeBuffer :=
  c.emit (.compare ty.numKind a b)

def call (c : CodeBuffer) (func : UInt32) : CodeBuffer :=
  c.emit (if func ≤ 0xFF then .call8 func.toUInt8 else .call func)

end CodeBuffer

end RegisterLang
