import RegisterLang.Emission.Settings

/-! # Command lines

A command line names a command, then its options and its file in any order. An option's value follows
it as the next word, or in the same word: after an equals sign, or directly after a short name. A word that
starts with a dash is a value only in the same word, and a file only after `--`.
-/

namespace RegisterLang.CommandLine

inductive Verb where
  | build
  | run
  | disasm
  deriving DecidableEq, Repr, Inhabited

namespace Verb

def ofWord? : String → Option Verb
  | "build" => some build
  | "run" => some run
  | "disasm" => some disasm
  | _ => none

end Verb

inductive Flag where
  | output
  | level
  | json
  | libraryPath
  | maxSteps
  | help
  deriving DecidableEq, Repr, Inhabited

namespace Flag

def long : Flag → String
  | output => "output"
  | level => "opt"
  | json => "json"
  | libraryPath => "lib-path"
  | maxSteps => "max-steps"
  | help => "help"

def short? : Flag → Option Char
  | output => some 'o'
  | level => some 'O'
  | json => none
  | libraryPath => some 'L'
  | maxSteps => none
  | help => some 'h'

def takesValue : Flag → Bool
  | json | help => false
  | _ => true

end Flag

def Verb.flags : Verb → List Flag
  | build => [.output, .level, .json, .help]
  | run => [.libraryPath, .maxSteps, .help]
  | disasm => [.output, .help]

structure Given where
  file : Option String := none
  output : Option String := none
  level : Option OptLevel := none
  json : Bool := false
  libraryPaths : List String := []
  maxSteps : Option Nat := none
  deriving DecidableEq, Repr, Inhabited

inductive Command where
  | build (file : String) (output : Option String) (level : OptLevel) (json : Bool)
  | run (file : String) (libraryPaths : List String) (maxSteps : Option Nat)
  | disasm (file : String) (output : Option String)
  deriving DecidableEq, Repr, Inhabited

inductive Request where
  | command (command : Command)
  | version
  | help
  deriving DecidableEq, Repr, Inhabited

inductive Stop where
  | usage (reason : String)
  | help
  deriving DecidableEq, Repr, Inhabited

def path (what text : String) : Except Stop String :=
  if text.isEmpty then .error (.usage s!"a value is required for '{what}'") else .ok text

/-- A number of sixty-four bits in decimal, maybe after a plus sign. -/
def word64? (text : String) : Option Nat :=
  let digits := match text.toList with
    | '+' :: digits => digits
    | digits => digits
  if digits.isEmpty || !digits.all Char.isDigit then none
  else
    let n := digits.foldl (fun n c => 10 * n + (c.toNat - '0'.toNat)) 0
    if n < UInt64.size then some n else none

namespace Given

def once {α : Type} (flag : Flag) : Option α → Except Stop Unit
  | none => .ok ()
  | some _ => .error (.usage s!"the argument '--{flag.long}' cannot be used multiple times")

/-- Take an option and its value; the value of a flag that takes none is empty. -/
def put (g : Given) (flag : Flag) (value : String) : Except Stop Given :=
  let invalid : Stop := .usage s!"invalid value '{value}' for '--{flag.long}'"
  match flag with
  | .output => do
    once flag g.output
    return { g with output := some (← path "--output" value) }
  | .level => do
    once flag g.level
    let some level := OptLevel.ofWord? value | throw invalid
    return { g with level := some level }
  | .json => do
    once flag (if g.json then some () else none)
    return { g with json := true }
  | .libraryPath => do
    return { g with libraryPaths := g.libraryPaths ++ [← path "--lib-path" value] }
  | .maxSteps => do
    once flag g.maxSteps
    let some n := word64? value | throw invalid
    return { g with maxSteps := some n }
  | .help => .error .help

def putFile (g : Given) (word : String) : Except Stop Given := do
  if g.file.isSome then throw (.usage s!"unexpected argument '{word}' found")
  return { g with file := some (← path "FILE" word) }

def command (g : Given) (verb : Verb) : Except Stop Command :=
  match g.file with
  | none => .error (.usage "the following required arguments were not provided: FILE")
  | some file =>
    match verb with
    | .build => .ok (.build file g.output (g.level.getD .standard) g.json)
    | .run => .ok (.run file g.libraryPaths g.maxSteps)
    | .disasm => .ok (.disasm file g.output)

end Given

inductive Word where
  | plain
  /-- All words that follow are plain. -/
  | separator
  | flag (flag : Flag) (value : Option String)
  | unknown
  deriving DecidableEq, Repr, Inhabited

def splitEquals (text : List Char) : String × Option String :=
  let name := String.ofList (text.takeWhile (· ≠ '='))
  match text.dropWhile (· ≠ '=') with
  | [] => (name, none)
  | _ :: value => (name, some (String.ofList value))

def attached : List Char → Option String
  | [] => none
  | '=' :: value => some (String.ofList value)
  | value => some (String.ofList value)

/-- Recognise a word, given the options that are known. -/
def Word.ofString (flags : List Flag) (word : String) : Word :=
  match word.toList with
  | ['-', '-'] => .separator
  | '-' :: '-' :: text =>
    let (name, value) := splitEquals text
    match flags.find? fun f => f.long = name with
    | some f => .flag f value
    | none => .unknown
  | '-' :: c :: value =>
    match flags.find? fun f => f.short? = some c with
    | some f => .flag f (if f.takesValue then attached value else none)
    | none => .unknown
  | _ => .plain

def readPlain : List String → Given → Except Stop Given
  | [], g => .ok g
  | word :: words, g => do readPlain words (← g.putFile word)

/-- Read the words after a command; `waiting` is an option whose value comes next. -/
def readWords (flags : List Flag) : List String → Option Flag → Given → Except Stop Given
  | [], none, g => .ok g
  | [], some flag, _ => .error (.usage s!"a value is required for '--{flag.long}'")
  | word :: words, waiting, g =>
    match Word.ofString flags word, waiting with
    | .plain, some flag => do readWords flags words none (← g.put flag word)
    | .plain, none => do readWords flags words none (← g.putFile word)
    | _, some flag => .error (.usage s!"a value is required for '--{flag.long}'")
    | .separator, none => readPlain words g
    | .unknown, none => .error (.usage s!"unexpected argument '{word}' found")
    | .flag flag value, none =>
      match flag.takesValue, value with
      | true, some value => do readWords flags words none (← g.put flag value)
      | true, none => readWords flags words (some flag) g
      | false, none => do readWords flags words none (← g.put flag "")
      | false, some value =>
        .error (.usage s!"unexpected value '{value}' for '--{flag.long}' found")

/-- Whether a word asks for the version; what follows the short name does not matter. -/
def asksVersion (word : String) : Bool :=
  word = "--version" || word.startsWith "-V"

def asksHelp (word : String) : Bool :=
  word = "--help" || word.startsWith "-h"

def parse : List String → Except String Request
  | [] => .error "a command is required"
  | ["help"] => .ok .help
  | ["help", topic] =>
    if topic = "help" || (Verb.ofWord? topic).isSome then .ok .help
    else .error s!"unrecognized subcommand '{topic}'"
  | word :: words =>
    if asksVersion word then .ok .version
    else if asksHelp word then .ok .help
    else
      match Verb.ofWord? word with
      | none => .error s!"unrecognized subcommand '{word}'"
      | some verb =>
        match readWords verb.flags words none {} >>= fun g => g.command verb with
        | .ok command => .ok (.command command)
        | .error .help => .ok .help
        | .error (.usage reason) => .error reason

end RegisterLang.CommandLine
