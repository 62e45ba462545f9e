import RegisterLang.Instruction.Codec

/-! # Faults of the machine

A fault ends a run; a program cannot catch it.
-/

namespace RegisterLang

inductive Fault where
  | noImage
  | noEntryPoint
  | link (library symbol reason : String)
  | invalidInstruction (function : UInt32) (cause : DecodeError)
  | fellOffEnd (function : UInt32)
  | badFunction (index : UInt32)
  | badGlobal (function : UInt32) (offset : Nat) (index : UInt32)
  | badString (function : UInt32) (offset : Nat) (index : UInt32)
  | badSlot (function : UInt32) (offset : Nat) (slot : UInt16)
  | stackUnderflow (function : UInt32) (offset : Nat)
  | divisionByZero (function : UInt32) (offset : Nat)
  | callDepthExceeded (limit : Nat)
  | stepLimitExceeded (limit : Nat)
  | nullArray
  | staleArray (handle : UInt32)
  | arrayIndexOutOfBounds (index : UInt64) (length : Nat)
  | arrayTooLarge (length : UInt64) (limit : Nat)
  deriving DecidableEq, Repr, Inhabited

namespace Fault

def site (function : UInt32) (offset : Nat) : String :=
  s!"fn#{function}+0x{Hex.padded 4 offset}"

def message : Fault → String
  | noImage => "no assembly is loaded"
  | noEntryPoint => "the assembly is a module and has no entry point"
  | link library symbol reason => s!"cannot link '{symbol}' from library '{library}': {reason}"
  | invalidInstruction function cause => s!"fn#{function}: {cause.message}"
  | fellOffEnd function => s!"fn#{function}: execution ran past the end of the code"
  | badFunction index => s!"call to nonexistent function #{index}"
  | badGlobal function offset index => s!"{site function offset}: global #{index} does not exist"
  | badString function offset index => s!"{site function offset}: string #{index} does not exist"
  | badSlot function offset slot =>
    s!"{site function offset}: stack slot {slot} is outside the frame"
  | stackUnderflow function offset => s!"{site function offset}: stack underflow"
  | divisionByZero function offset => s!"{site function offset}: integer division by zero"
  | callDepthExceeded limit => s!"call depth exceeded the limit of {limit}"
  | stepLimitExceeded limit => s!"step limit of {limit} instructions exceeded"
  | nullArray => "array operation on a null handle"
  | staleArray handle => s!"array handle {handle} is not live"
  | arrayIndexOutOfBounds index length => s!"array index {index} out of bounds for length {length}"
  | arrayTooLarge length limit => s!"array of {length} elements exceeds the limit of {limit}"

end Fault

end RegisterLang
