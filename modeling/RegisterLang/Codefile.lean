import RegisterLang.FileError
import RegisterLang.Ty

/-! # Codefiles

A codefile holds a compiled program: a table of functions, a table of global variables with their
initial bits, and a table of strings. An executable names the function to start with.
-/

namespace RegisterLang

inductive FileType where
  | executable
  | library
  deriving DecidableEq, Repr, Inhabited

namespace FileType

def byte : FileType → UInt8
  | executable => 0
  | library => 1

def ofByte? : UInt8 → Option FileType
  | 0 => some executable
  | 1 => some library
  | _ => none

def title : FileType → String
  | executable => "Executable"
  | library => "Module"

def word : FileType → String
  | executable => "executable"
  | library => "module"

def ofWord? : String → Option FileType
  | "executable" => some executable
  | "module" => some library
  | _ => none

end FileType

inductive FunctionEntry where
  /-- Code that runs with `localReserve` slots above the `stackArgs` arguments on the stack. -/
  | bytecode (localReserve stackArgs : UInt16) (code : List UInt8)
  /-- A function of a library; both names are indices into the strings. -/
  | native (library symbol : UInt32)
  deriving DecidableEq, Repr, Inhabited

namespace FunctionEntry

def isNative : FunctionEntry → Bool
  | bytecode .. => false
  | native .. => true

def flags (f : FunctionEntry) : UInt32 :=
  if f.isNative then 1 else 0

end FunctionEntry

structure GlobalEntry where
  primitive : Primitive
  bits : UInt64
  deriving DecidableEq, Repr, Inhabited

structure Codefile where
  fileType : FileType
  major : UInt8
  minor : UInt8
  entry : UInt32
  functions : List FunctionEntry
  globals : List GlobalEntry
  strings : List (List UInt8)
  deriving DecidableEq, Repr, Inhabited

namespace Codefile

def signature : List UInt8 :=
  [0x7F, 0x54, 0x45, 0x52, 0x4E, 0x42, 0x43, 0x00]

def headerSize : Nat := 23

/-- The version that is written, and the only major version that is read. -/
def versionMajor : UInt8 := 1

@[inherit_doc versionMajor]
def versionMinor : UInt8 := 0

inductive WriteError where
  | tooMany (what : String)
  | longString
  deriving DecidableEq, Repr, Inhabited

namespace WriteError

def message : WriteError → String
  | tooMany what => s!"too many {what} for a codefile"
  | longString => "string constant longer than 65535 bytes"

end WriteError

inductive Malformed where
  | tooShort (size : Nat)
  | badSignature
  | unknownFileType (byte : UInt8)
  | unsupportedVersion (major minor : UInt8)
  | truncated (offset : Nat)
  | unknownFlags
  | unknownGlobalTag (tag : UInt8)
  | trailing (count : Nat)
  | entryOutside (entry : UInt32) (count : Nat)
  | namesMissingString (function : Nat)
  | stringOutside (index : UInt32)
  deriving DecidableEq, Repr, Inhabited

namespace Malformed

def message : Malformed → String
  | tooShort size => s!"file is {size} bytes, shorter than the {headerSize}-byte header"
  | badSignature => "bad signature"
  | unknownFileType byte => s!"unknown file type {byte}"
  | unsupportedVersion major minor => s!"unsupported version {major}.{minor}"
  | truncated offset => s!"truncated at offset {offset}"
  | unknownFlags => "unknown function flags"
  | unknownGlobalTag tag => s!"unknown global tag {tag}"
  | trailing count => s!"{count} trailing bytes after string table"
  | entryOutside entry count => s!"entry point {entry} outside function table of {count}"
  | namesMissingString function => s!"native function {function} names a missing string"
  | stringOutside index => s!"string index {index} out of range"

end Malformed

inductive LoadError where
  | notExists (path : String)
  | malformed (cause : Malformed)
  | corrupt (declared actual : UInt64)
  | file (cause : FileError)
  deriving DecidableEq, Repr, Inhabited

namespace LoadError

def message : LoadError → String
  | notExists path => s!"codefile '{path}' does not exist"
  | malformed cause => s!"malformed codefile: {cause.message}"
  | corrupt declared actual =>
    s!"corrupt codefile: header declares {declared} bytes but file has {actual}"
  | file cause => s!"failed to read codefile: {cause.message}"

end LoadError

end Codefile

end RegisterLang
