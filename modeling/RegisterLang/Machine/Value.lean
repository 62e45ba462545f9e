import RegisterLang.Bytes.Hex
import RegisterLang.Binary64.Basic
import RegisterLang.Instruction

/-! # Values of the machine

A value is a word of sixty-four bits. Nothing records what it means: the instruction that reads it
decides.
-/

namespace RegisterLang

abbrev Value : Type := UInt64

namespace Value

def signed (v : Value) : Int :=
  v.toInt64.toInt

/-- The value as the handle of an array. A value that does not fit is never the handle of one. -/
def handle (v : Value) : UInt32 :=
  if v ≤ 0xFFFFFFFF then v.toUInt32 else 0xFFFFFFFF

def ofHandle (handle : UInt32) : Value :=
  handle.toUInt64

def bitsText (v : Value) : String :=
  "Value(0x" ++ Hex.digits v.toNat ++ ")"

/-- The signed quotient, rounded toward zero; the least number divided by minus one is itself. -/
def divSigned (a b : Value) : Value :=
  (a.toInt64 / b.toInt64).toUInt64

/-- The result of an operation on two values; none for a division of whole numbers by zero. -/
def arith? (op : ArithOp) (kind : NumKind) (a b : Value) : Option Value :=
  match op, kind with
  | .add, .signed | .add, .unsigned => some (a + b)
  | .sub, .signed | .sub, .unsigned => some (a - b)
  | .mul, .signed | .mul, .unsigned => some (a * b)
  | .div, .signed => if b = 0 then none else some (divSigned a b)
  | .div, .unsigned => if b = 0 then none else some (a / b)
  | .add, .float => some (Binary64.add a b)
  | .sub, .float => some (Binary64.sub a b)
  | .mul, .float => some (Binary64.mul a b)
  | .div, .float => some (Binary64.div a b)

def arithImm (op : ImmOp) (a imm : Value) : Value :=
  match op with
  | .add => a + imm
  | .sub => a - imm
  | .mul => a * imm

end Value

end RegisterLang
