import RegisterLang.Machine.ArrayHeap
import RegisterLang.Machine.Flags
import RegisterLang.Machine.Native
import RegisterLang.Machine.Settings
import RegisterLang.RegisterPool

/-! # The state of a run

All frames share the registers, the flags, the stack, the heap and the globals. Registers are not saved
across calls: a caller that needs one pushes it first.
-/

namespace RegisterLang.Machine

structure JumpRecord where
  function : UInt32
  start : Nat
  target : Nat
  deriving DecidableEq, Repr, Inhabited

abbrev Registers : Type := Vector Value registerCount

/-- All that an instruction can read or change. -/
structure State (σ : Type) where
  regs : Registers
  flags : Flags
  stack : Array Value
  arrays : ArrayHeap
  globals : Array Value
  steps : Nat
  jumps : Array JumpRecord
  /-- The world outside of the machine. -/
  world : σ

namespace State

variable {σ : Type}

def initial (globals : Array Value) (world : σ) : State σ :=
  { globals, world
    regs := Vector.replicate registerCount 0
    flags := .clear
    stack := #[]
    arrays := .empty
    steps := 0
    jumps := #[] }

/-- The value of a register; only the low four bits of its number count. -/
def reg (s : State σ) (r : UInt8) : Value :=
  s.regs.get ⟨r.toNat % registerCount, toNat_mod_lt r⟩

def setReg (s : State σ) (r : UInt8) (v : Value) : State σ :=
  { s with regs := s.regs.set (r.toNat % registerCount) v (toNat_mod_lt r) }

/-- The arguments of a native function: registers one to ten. -/
def nativeArgs (s : State σ) : NativeArgs :=
  Vector.ofFn fun i => s.reg (UInt8.ofNat (i.val + 1))

end State

/-- What does not change during a run. -/
structure Env (σ : Type) where
  image : Image
  natives : Array (Option (NativeFn σ))
  settings : VmSettings

/-- The part of the stack that a call works on. -/
structure Frame where
  function : UInt32
  /-- Where the arguments on the stack start. -/
  base : Nat
  /-- Where the locals end: nothing below is popped. -/
  localsEnd : Nat
  deriving DecidableEq, Repr, Inhabited

/-- What a part of a run gives: a result or a fault, and the state it leaves. -/
abbrev Outcome (σ α : Type) : Type := Except Fault α × State σ

end RegisterLang.Machine
