/-! # How programs are run -/

namespace RegisterLang

structure VmSettings where
  maxCallDepth : Nat := 1024
  /-- How many instructions may be executed; none for as many as it takes. -/
  maxSteps : Option Nat := none
  libraryPaths : List String := []
  traceJumps : Bool := false
  deriving DecidableEq, Repr, Inhabited

namespace VmSettings

def withMaxSteps (s : VmSettings) (limit : Nat) : VmSettings :=
  { s with maxSteps := some limit }

def withLibraryPath (s : VmSettings) (dir : String) : VmSettings :=
  { s with libraryPaths := s.libraryPaths ++ [dir] }

end VmSettings

end RegisterLang
