import RegisterLang.Codefile.Read
import RegisterLang.Machine.Value
import RegisterLang.Text.Utf8

/-! # Loaded codefiles

An image is a codefile made ready to run: native functions are known by name, and every string is
followed by a zero byte and has an address.
-/

namespace RegisterLang

inductive ImageFunction where
  | bytecode (localReserve stackArgs : Nat) (code : List UInt8)
  | native (library symbol : String)
  deriving DecidableEq, Repr, Inhabited

structure Image where
  fileType : FileType
  entry : UInt32
  functions : Array ImageFunction
  globals : Array Value
  /-- The strings, each with its closing zero byte. -/
  strings : Array (List UInt8)
  deriving DecidableEq, Repr, Inhabited

namespace Image

def name (f : Codefile) (index : UInt32) : Except Codefile.LoadError String :=
  match f.strings[index.toNat]? with
  | some s => .ok (Utf8.decodeLossy s)
  | none => .error (.malformed (.stringOutside index))

def function (f : Codefile) : FunctionEntry → Except Codefile.LoadError ImageFunction
  | .bytecode localReserve stackArgs code =>
    .ok (.bytecode localReserve.toNat stackArgs.toNat code)
  | .native library symbol => return .native (← name f library) (← name f symbol)

/-- A `Byte` starts with its low eight bits. -/
def globalValue (g : GlobalEntry) : Value :=
  if g.primitive = .byte then g.bits &&& 0xFF else g.bits

def ofCodefile (f : Codefile) : Except Codefile.LoadError Image := do
  let functions ← f.functions.mapM (function f)
  return {
    fileType := f.fileType
    entry := f.entry
    functions := functions.toArray
    globals := (f.globals.map globalValue).toArray
    strings := (f.strings.map (· ++ [0])).toArray }

def ofBytes (bytes : List UInt8) : Except Codefile.LoadError Image := do
  ofCodefile (← Codefile.decode bytes)

/-- Where the first string lies. -/
def addressBase : Nat := 0x7F0000000000

/-- Bytes left free between strings. -/
def addressGap : Nat := 0x1000

def address (image : Image) (index : Nat) : Value :=
  UInt64.ofNat <|
    (image.strings.toList.take index).foldl (fun n s => n + s.length + addressGap) addressBase

/-- The string that an address lies in, and how far. -/
def locate? (image : Image) (v : Value) : Option (Nat × Nat) :=
  (List.range image.strings.size).findSome? fun index =>
    let start := (image.address index).toNat
    let length := (image.strings.getD index []).length
    if start ≤ v.toNat && v.toNat < start + length then some (index, v.toNat - start) else none

/-- The bytes from an address to the next zero byte. -/
def cString? (image : Image) (v : Value) : Option (List UInt8) :=
  (image.locate? v).map fun (index, offset) =>
    ((image.strings.getD index []).drop offset).takeWhile (· ≠ 0)

end Image

end RegisterLang
