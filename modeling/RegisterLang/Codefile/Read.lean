import RegisterLang.Bytes.LittleEndian
import RegisterLang.Codefile

/-! # Reading codefiles

A file is refused for the first thing that is wrong with it, in this order: its length, its signature,
its declared size, its type, its version, its tables, bytes after the tables, the entry point of an
executable, and the names of native functions.
-/

namespace RegisterLang.Codefile

structure Input where
  offset : Nat
  rest : List UInt8
  deriving DecidableEq, Repr, Inhabited

/-- A reader of bytes that yields a value or finds the file malformed. -/
abbrev Reader (α : Type) : Type :=
  StateT Input (Except LoadError) α

namespace Reader

variable {α : Type}

def refuse (cause : Malformed) : Reader α :=
  throw (.malformed cause)

def take (n : Nat) : Reader (List UInt8) := fun input =>
  let bytes := input.rest.take n
  if bytes.length = n then .ok (bytes, ⟨input.offset + n, input.rest.drop n⟩)
  else .error (.malformed (.truncated input.offset))

def number (width : Nat) : Reader Nat := do
  return LittleEndian.decode (← take width)

def byte : Reader UInt8 := UInt8.ofNat <$> number 1

def word32 : Reader UInt32 := UInt32.ofNat <$> number 4

def word64 : Reader UInt64 := UInt64.ofNat <$> number 8

/-- Read an item so many times; `found` holds, last first, those read before. -/
def repeated (item : Reader α) : Nat → List α → Reader (List α)
  | 0, found => return found.reverse
  | n + 1, found => do
    let a ← item
    repeated item n (a :: found)

def table (item : Reader α) : Reader (List α) := do
  repeated item (← number 4) []

/-- An entry of the function table. The two sizes of a bytecode function share one field of four bytes,
the local reserve below. -/
def function : Reader FunctionEntry := do
  match ← number 4 with
  | 0 =>
    let sizes ← number 4
    let code ← take (← number 4)
    return .bytecode (UInt16.ofNat sizes) (UInt16.ofNat (sizes / UInt16.size)) code
  | 1 =>
    let library ← word32
    return .native library (← word32)
  | _ => refuse .unknownFlags

def global : Reader GlobalEntry := do
  let tag ← byte
  match Primitive.ofTag? tag with
  | none => refuse (.unknownGlobalTag tag)
  | some p =>
    let bits ← number (if p = .byte then 1 else 8)
    return ⟨p, UInt64.ofNat bits⟩

def string : Reader (List UInt8) := do
  take (← number 2)

end Reader

/-- The number of the first native function whose library or symbol is not in the strings. -/
def nativeWithoutName? (functions : List FunctionEntry) (strings : Nat) : Option Nat :=
  functions.findIdx? fun
    | .bytecode .. => false
    | .native library symbol => strings ≤ library.toNat || strings ≤ symbol.toNat

/-- Read all that follows the declared size. -/
def body : Reader Codefile := do
  let typeByte ← Reader.byte
  let some fileType := FileType.ofByte? typeByte | Reader.refuse (.unknownFileType typeByte)
  let major ← Reader.byte
  let minor ← Reader.byte
  if major ≠ versionMajor then Reader.refuse (.unsupportedVersion major minor)
  let entry ← Reader.word32
  let functions ← Reader.table Reader.function
  let globals ← Reader.table Reader.global
  let strings ← Reader.table Reader.string
  let left := (← get).rest.length
  if left ≠ 0 then Reader.refuse (.trailing left)
  if fileType = .executable && functions.length ≤ entry.toNat then
    Reader.refuse (.entryOutside entry functions.length)
  if let some index := nativeWithoutName? functions strings.length then
    Reader.refuse (.namesMissingString index)
  return ⟨fileType, major, minor, entry, functions, globals, strings⟩

def decode (bytes : List UInt8) : Except LoadError Codefile :=
  if bytes.length < headerSize then .error (.malformed (.tooShort bytes.length))
  else if bytes.take 8 ≠ signature then .error (.malformed .badSignature)
  else
    let declared := LittleEndian.decode ((bytes.drop 8).take 8)
    if declared ≠ bytes.length then
      .error (.corrupt (UInt64.ofNat declared) (UInt64.ofNat bytes.length))
    else (body.run ⟨16, bytes.drop 16⟩).map (·.1)

end RegisterLang.Codefile
