/-! # Calling conventions

Arguments travel in registers one to ten as far as they go and the rest on the stack. Without
optimisation all of them travel on the stack.
-/

namespace RegisterLang

def maxRegisterArgs : Nat := 10

inductive Convention where
  | register
  /-- The first ten in registers and the rest on the stack. -/
  | mixed
  | stack
  deriving DecidableEq, Repr, Inhabited

namespace Convention

def select (params : Nat) (optimize : Bool) : Convention :=
  if !optimize then stack else if params ≤ maxRegisterArgs then register else mixed

def registerArgs (c : Convention) (params : Nat) : Nat :=
  match c with
  | stack => 0
  | register | mixed => min params maxRegisterArgs

def text : Convention → String
  | register => "Register"
  | mixed => "RegS"
  | stack => "Stack"

end Convention

end RegisterLang
