import RegisterLang.Codefile

/-! # How code is emitted -/

namespace RegisterLang

inductive OptLevel where
  /-- Every parameter and local lives on the stack. -/
  | plain
  /-- Arguments travel in registers; locals live on the stack. -/
  | standard
  /-- Scalar locals take free registers, too. -/
  | fast
  deriving DecidableEq, Repr, Inhabited

namespace OptLevel

def word : OptLevel → String
  | plain => "none"
  | standard => "default"
  | fast => "fast"

def ofWord? : String → Option OptLevel
  | "none" => some plain
  | "default" => some standard
  | "fast" => some fast
  | _ => none

end OptLevel

structure EmitSettings where
  optLevel : OptLevel := .standard
  fileType : FileType := .executable
  deriving DecidableEq, Repr, Inhabited

namespace EmitSettings

def optimize (s : EmitSettings) : Bool :=
  s.optLevel ≠ .plain

end EmitSettings

end RegisterLang
