import RegisterLang.Bytes.LittleEndian
import RegisterLang.Codefile

/-! # Writing codefiles

The header is followed by the functions, the globals and the strings, each table led by its count. The
header declares the size of the whole file.
-/

namespace RegisterLang.Codefile

open LittleEndian

def encodeCount (n : Nat) (what : String) : Except WriteError (List UInt8) :=
  if n < UInt32.size then .ok (encode 4 n) else .error (.tooMany what)

def encodeFunction (f : FunctionEntry) : Except WriteError (List UInt8) :=
  match f with
  | .bytecode localReserve stackArgs code => do
    let size ← encodeCount code.length "code bytes"
    return word32 f.flags ++ word16 localReserve ++
      word16 stackArgs ++ size ++ code
  | .native library symbol =>
    .ok (word32 f.flags ++ word32 library ++ word32 symbol)

/-- A global takes one byte when it is a `Byte`, else eight. -/
def encodeGlobal (g : GlobalEntry) : List UInt8 :=
  g.primitive.tag ::
    if g.primitive = .byte then [g.bits.toUInt8] else word64 g.bits

def encodeString (s : List UInt8) : Except WriteError (List UInt8) :=
  if s.length < UInt16.size then .ok (encode 2 s.length ++ s) else .error .longString

def encodeTables (f : Codefile) : Except WriteError (List UInt8) := do
  let functionCount ← encodeCount f.functions.length "functions"
  let functions ← f.functions.mapM encodeFunction
  let globalCount ← encodeCount f.globals.length "globals"
  let stringCount ← encodeCount f.strings.length "strings"
  let strings ← f.strings.mapM encodeString
  return functionCount ++ functions.flatten ++ globalCount ++ f.globals.flatMap encodeGlobal ++
    stringCount ++ strings.flatten

def encodeHeader (f : Codefile) (size : Nat) : List UInt8 :=
  signature ++ encode 8 size ++ [f.fileType.byte, f.major, f.minor] ++
    word32 f.entry

def encode (f : Codefile) : Except WriteError (List UInt8) := do
  let tables ← f.encodeTables
  return f.encodeHeader (headerSize + tables.length) ++ tables

end RegisterLang.Codefile
