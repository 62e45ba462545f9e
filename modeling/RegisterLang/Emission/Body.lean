import RegisterLang.Ast
import RegisterLang.CodeBuffer.Selection
import RegisterLang.Emission.Scope
import RegisterLang.Emission.Strings
import RegisterLang.EmissionError
import RegisterLang.RegisterPool

/-! # Function bodies under construction

The value of an expression stays where it is, as a `Lowered` value, until an instruction needs it in a
register. A temporary register belongs to the one value or operand that names it and has to be given
back.
-/

namespace RegisterLang.Emission

/-- Registers left for temporaries when locals take registers. -/
def scratchReserve : Nat := 5

/-- Where a value is. -/
inductive Place where
  /-- Nowhere: a mistake was reported. -/
  | failed
  /-- Nowhere: a function without a result was called. -/
  | nothing
  /-- In a temporary register that this value owns. -/
  | temporary (reg : UInt8)
  /-- In a slot of the frame. -/
  | slot (slot : UInt16)
  /-- In the register that is the home of a parameter or local. -/
  | home (reg : UInt8)
  | global (index : UInt32)
  /-- In the code: an integer, the bits of a float or the index of a string, by the type. -/
  | constant (bits : UInt64)
  /-- In the flags, as the outcome of a comparison. -/
  | flags
  deriving DecidableEq, Repr, Inhabited

/-- A value that emitted code computes, and where it is. -/
structure Lowered where
  place : Place
  ty : Ty
  /-- The operator that gave the value, when it was a binary one. -/
  lastOp : Option BinOp := none
  deriving DecidableEq, Repr, Inhabited

namespace Lowered

def failed : Lowered := ⟨.failed, .unknown, none⟩

def constant (bits : UInt64) (ty : Ty) : Lowered := ⟨.constant bits, ty, none⟩

def isFailed (v : Lowered) : Bool := v.place = .failed

def intConstant? (v : Lowered) : Option UInt64 :=
  match v.place with
  | .constant bits => if v.ty.isInteger then some bits else none
  | _ => none

/-- Whether the value counts as an integer literal where types are compared. -/
def isLiteral (v : Lowered) : Bool := v.intConstant?.isSome

/-- Whether the value can be loaded late: no other register is needed, and no call can change it. -/
def isDirect (v : Lowered) : Bool :=
  match v.place with
  | .constant _ | .slot _ => true
  | _ => false

end Lowered

inductive Operand where
  /-- In a temporary that the operand owns. -/
  | owned (reg : UInt8)
  /-- In the home of a parameter or local, which must not be written. -/
  | borrowed (reg : UInt8)
  deriving DecidableEq, Repr, Inhabited

namespace Operand

def reg : Operand → UInt8
  | owned r | borrowed r => r

end Operand

/-- What is known of a function while its code is emitted. -/
structure Body where
  strings : Strings
  locals : SymbolTable Local
  localReserve : Nat
  pool : RegisterPool
  /-- Registers that are homes of parameters and locals, last first. -/
  homes : List UInt8
  code : CodeBuffer
  endJumps : Nat
  returns : Nat
  /-- Whether the last return has ended the function by itself. -/
  isFinished : Bool
  deriving Inhabited

abbrev EmitM (α : Type) : Type :=
  StateT Body (Except EmissionError) α

variable (scope : Scope)

def complain (code : Code) (message : String) (span : Span) : EmitM Unit :=
  modify fun b => { b with strings := { b.strings with
    report := b.strings.report.complain scope.source code message span } }

def reject (code : Code) (message : String) (span : Span) : EmitM Lowered := do
  complain scope code message span
  return .failed

def atLimit : EmitM Bool := do
  return (← get).strings.report.atLimit

def onCode (f : CodeBuffer → CodeBuffer) : EmitM Unit :=
  modify fun b => { b with code := f b.code }

def emitInsn (i : Instruction) : EmitM Unit :=
  onCode (·.emit i)

def newLabel : EmitM Label := do
  let (label, code) := (← get).code.newLabel
  modify fun b => { b with code }
  return label

def allocate : EmitM UInt8 := do
  match (← get).pool.allocate? with
  | some (reg, pool) =>
    modify fun b => { b with pool }
    return reg
  | none => throw (.registersExhausted scope.name)

def free (reg : UInt8) : EmitM Unit :=
  modify fun b => { b with pool := b.pool.free reg }

def release : Operand → EmitM Unit
  | .owned reg => free reg
  | .borrowed _ => return

def drop (v : Lowered) : EmitM Unit :=
  match v.place with
  | .temporary reg => free reg
  | _ => return

def dropAll (vs : List Lowered) : EmitM Unit :=
  vs.forM drop

def operand (v : Lowered) : EmitM Operand := do
  match v.place with
  | .temporary reg => return .owned reg
  | .home reg => return .borrowed reg
  | .slot slot =>
    let reg ← allocate scope
    emitInsn (.localGet reg slot)
    return .owned reg
  | .global index =>
    let reg ← allocate scope
    emitInsn (.globalGet reg index)
    return .owned reg
  | .constant bits =>
    let reg ← allocate scope
    onCode (·.loadConst reg bits v.ty)
    return .owned reg
  | .failed | .nothing | .flags => throw (.internal .noValue)

/-- Bring a value into a given register, without taking another one. -/
def loadInto (target : UInt8) (v : Lowered) : EmitM Unit := do
  match v.place with
  | .temporary reg =>
    onCode (·.mov target reg)
    free reg
  | .home reg => onCode (·.mov target reg)
  | .slot slot => emitInsn (.localGet target slot)
  | .global index => emitInsn (.globalGet target index)
  | .constant bits => onCode (·.loadConst target bits v.ty)
  | .failed | .nothing | .flags => throw (.internal (.noValueFor target))

/-- A register to write the result of an operation on `o` into: its own, when it is a temporary. -/
def resultReg (o : Operand) : EmitM UInt8 :=
  match o with
  | .owned reg => return reg
  | .borrowed _ => allocate scope

def stackSlot (span : Span) : EmitM Storage := do
  let reserve := (← get).localReserve
  if scope.stackArgs + reserve ≤ 65535 && reserve + 1 ≤ 65535 then
    modify fun b => { b with localReserve := reserve + 1 }
    return .stack (UInt16.ofNat (scope.stackArgs + reserve))
  else
    complain scope .limitExceeded s!"function '{scope.name}' has too many stack slots" span
    return .stack 0

def placeLocal (span : Span) : EmitM Storage := do
  if scope.settings.optLevel = .fast && scratchReserve < (← get).pool.available then
    let reg ← allocate scope
    modify fun b => { b with homes := reg :: b.homes }
    return .register reg
  stackSlot scope span

def markInitialized (name : String) : EmitM Unit :=
  modify fun b =>
    match b.locals.find? name with
    | some index =>
      { b with locals := b.locals.modify index fun l => { l with initialized := true } }
    | none => b

end RegisterLang.Emission
