import RegisterLang.CodeBuffer
import RegisterLang.Convention
import RegisterLang.Emission.Settings
import RegisterLang.Source.Text
import RegisterLang.SymbolTable

/-! # What names stand for while code is emitted -/

namespace RegisterLang.Emission

inductive Storage where
  | register (reg : UInt8)
  /-- A slot counted upward from the frame. -/
  | stack (slot : UInt16)
  deriving DecidableEq, Repr, Inhabited

structure Local where
  ty : Ty
  storage : Storage
  /-- Whether a value was stored in it before, in the order of the text. -/
  initialized : Bool
  isParam : Bool
  deriving DecidableEq, Repr, Inhabited

namespace Local

/-- An array that the end of the function has to free. -/
def isOwnedArray (l : Local) : Bool :=
  !l.isParam && l.ty.isOwnedArray

end Local

structure NativeLink where
  library : UInt32
  symbol : UInt32
  deriving DecidableEq, Repr, Inhabited

/-- A function as its callers see it, with its parameters as first locals. -/
structure Function where
  ret : Ty
  params : List Ty
  locals : SymbolTable Local
  convention : Convention
  registerArgs : Nat
  stackArgs : Nat
  native : Option NativeLink
  span : Span
  deriving Repr, Inhabited

namespace Function

def isNative (f : Function) : Bool :=
  f.native.isSome

end Function

/-- The slot of the stack parameter with number `param`. The last argument is pushed first, so it lies
deepest, in slot zero. -/
def paramSlot (registerArgs stackArgs param : Nat) : Nat :=
  stackArgs - 1 - (param - registerArgs)

structure Global where
  ty : Ty
  bits : UInt64
  deriving DecidableEq, Repr, Inhabited

/-- A constant: its bits stand in the code wherever its name does. -/
structure ConstValue where
  ty : Ty
  bits : UInt64
  deriving DecidableEq, Repr, Inhabited

structure Declarations where
  functions : SymbolTable Function
  globals : SymbolTable Global
  consts : SymbolTable ConstValue
  deriving Repr, Inhabited

namespace Declarations

def empty : Declarations :=
  ⟨.empty, .empty, .empty⟩

def isTaken (d : Declarations) (name : String) : Bool :=
  d.functions.contains name || d.globals.contains name || d.consts.contains name

end Declarations

/-- What the body of a function can refer to but not change. -/
structure Scope where
  source : SourceText
  settings : EmitSettings
  decls : Declarations
  name : String
  ret : Ty
  stackArgs : Nat
  /-- The label before the instructions that end the function. -/
  endLabel : Label
  deriving Repr, Inhabited

structure FunctionStats where
  name : String
  index : Nat
  convention : Convention
  registerArgs : Nat
  stackArgs : Nat
  localReserve : Nat
  codeSize : Nat
  shortJumps : Nat
  wideJumps : Nat
  /-- Registers in use at the end that are not the home of a parameter or local. -/
  leakedRegisters : Nat
  deriving DecidableEq, Repr, Inhabited

end RegisterLang.Emission
