import RegisterLang.Codefile
import RegisterLang.Instruction.Codec
import RegisterLang.Instruction.Text
import RegisterLang.Text.Quoted
import RegisterLang.Text.Utf8

/-! # Listings of codefiles

A listing shows the header, the globals, the strings and the instructions of every function. The code of
a function is shown up to the first bytes that are not an instruction.
-/

namespace RegisterLang.Codefile

def stringText (f : Codefile) (index : UInt32) : String :=
  match f.strings[index.toNat]? with
  | some s => Utf8.decodeLossy s
  | none => s!"<str#{index}?>"

/-- The line of an instruction at an offset; a jump shows where it goes. -/
def instructionLine (offset : Nat) (i : Instruction) : String :=
  let target :=
    match i.jumpOffset? with
    | some n => "    ; -> " ++ Hex.padded 4 (offset + i.length + n)
    | none => ""
  "  " ++ Hex.padded 4 offset ++ "  " ++ i.text ++ target ++ "\n"

/-- The lines of some code at an offset. The first list bounds their number, and `shown` comes before
them. -/
def codeLines : List UInt8 → Nat → List UInt8 → String → String
  | _ :: bound, offset, code@(_ :: _), shown =>
    match Instruction.decode offset code with
    | .ok (i, rest) =>
      codeLines bound (offset + i.length) rest (shown ++ instructionLine offset i)
    | .error e => shown ++ "  " ++ Hex.padded 4 offset ++ "  <" ++ e.message ++ ">\n"
  | _, _, _, shown => shown

def functionLines (f : Codefile) (index : Nat) (entry : FunctionEntry) : String :=
  match entry with
  | .native library symbol =>
    s!"fn#{index}: native {f.stringText library}!{f.stringText symbol}\n"
  | .bytecode localReserve stackArgs code =>
    codeLines code 0 code
      s!"fn#{index}: locals={localReserve} stack_args={stackArgs} size={code.length}\n"

def numberedLines {α : Type} (items : List α) (line : Nat → α → String) : String :=
  (items.foldl (fun (shown, n) a => (shown ++ line n a, n + 1)) ("", 0)).1

def listing (f : Codefile) : String :=
  let header := s!"; codefile v{f.major}.{f.minor} {f.fileType.title} entry=fn#{f.entry}\n"
  let globals :=
    if f.globals.isEmpty then ""
    else "\n.globals\n" ++ numberedLines f.globals fun n g =>
      s!"  g{n}: {g.primitive.name} = 0x{Hex.digits g.bits.toNat}\n"
  let strings :=
    if f.strings.isEmpty then ""
    else "\n.strings\n" ++ numberedLines f.strings fun n s =>
      s!"  str#{n}: {Text.quoted (Utf8.decodeLossy s)}\n"
  let functions := numberedLines f.functions fun n e => "\n" ++ f.functionLines n e
  header ++ globals ++ strings ++ functions

end RegisterLang.Codefile
