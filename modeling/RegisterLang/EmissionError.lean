/-! # Failures that stop the emission of code

Mistakes of a program are reported as diagnostics and emission goes on. These failures end it.
-/

namespace RegisterLang

inductive InternalError where
  | labelUnbound (label : Nat)
  | backwardJump (op : Nat)
  | noFunction (index : Nat)
  | reservedTwice (register : UInt8)
  | noValue
  | noValueFor (register : UInt8)
  | flagsWithoutComparison
  | arrayInRegister
  deriving DecidableEq, Repr, Inhabited

namespace InternalError

def message : InternalError → String
  | labelUnbound label => s!"label {label} never bound"
  | backwardJump op => s!"backward jump at op {op}"
  | noFunction index => s!"no function at index {index}"
  | reservedTwice register => s!"parameter register r{register} reserved twice"
  | noValue => "materialising an expression with no value"
  | noValueFor register => s!"loading an expression with no value into r{register}"
  | flagsWithoutComparison => "flags without a comparison"
  | arrayInRegister => "array local placed in a register"

end InternalError

inductive EmissionError where
  | registersExhausted (function : String)
  | jumpTooLong (offset : Nat)
  | internal (cause : InternalError)
  deriving DecidableEq, Repr, Inhabited

namespace EmissionError

def message : EmissionError → String
  | registersExhausted function => s!"register allocation exhausted in function '{function}'"
  | jumpTooLong offset => s!"limit exceeded: jump of {offset} bytes does not fit in 16 bits"
  | internal cause => s!"internal codegen error: {cause.message}"

end EmissionError

end RegisterLang
