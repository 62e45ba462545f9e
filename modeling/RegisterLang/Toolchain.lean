import RegisterLang.Compilation
import RegisterLang.FileSystem

/-! # The toolchain on files

A toolchain compiles source files to codefiles and lists codefiles. It remembers what the last
compilation reported and why the last operation failed.
-/

namespace RegisterLang

inductive ToolError where
  | readSource (path : String) (cause : FileError)
  | writeOutput (path : String) (cause : FileError)
  /-- The source has so many errors. -/
  | diagnostics (count : Nat)
  | load (cause : Codefile.LoadError)
  deriving DecidableEq, Repr, Inhabited

namespace ToolError

def message : ToolError → String
  | readSource path cause => s!"failed to read '{path}': {cause.message}"
  | writeOutput path cause => s!"failed to write '{path}': {cause.message}"
  | diagnostics count => s!"compilation failed with {count} error(s)"
  | load cause => cause.message

end ToolError

def codefilePath (source : String) : String :=
  source ++ ".tbc"

structure Toolchain where
  settings : EmitSettings := {}
  /-- Where codefiles are written, if not beside their sources. -/
  output : Option String := none
  report : Report := .empty
  lastError : Option ToolError := none
  deriving DecidableEq, Repr, Inhabited

namespace Toolchain

variable {m : Type → Type} [Monad m]

def tryCompile (fs : FileSystem m) (t : Toolchain) (path : String) :
    m (Except ToolError String × Toolchain) := do
  let t := { t with report := .empty }
  match ← fs.readText path with
  | .error e => return (.error (.readSource path e), t)
  | .ok text =>
    match compile ⟨path, text⟩ t.settings with
    | .error report =>
      return (.error (.diagnostics report.totalErrors), { t with report })
    | .ok bytes =>
      let out := t.output.getD (codefilePath path)
      match ← fs.write out bytes with
      | .ok () => return (.ok out, t)
      | .error e => return (.error (.writeOutput out e), t)

def tryList (fs : FileSystem m) (path out : String) : m (Except ToolError Unit) := do
  match ← fs.readCodefile path with
  | .error e => return .error (.load e)
  | .ok f => return (← fs.writeText out f.listing).mapError (.writeOutput out)

/-- Remember how an operation ended; whether it succeeded. -/
def remember {α : Type} (t : Toolchain) : Except ToolError α → Bool × Toolchain
  | .ok _ => (true, { t with lastError := none })
  | .error e => (false, { t with lastError := some e })

def compileFile (fs : FileSystem m) (t : Toolchain) (path : String) : m (Bool × Toolchain) := do
  let (result, t) ← t.tryCompile fs path
  return t.remember result

def listFile (fs : FileSystem m) (t : Toolchain) (path out : String) : m (Bool × Toolchain) := do
  return t.remember (← tryList fs path out)

end Toolchain

end RegisterLang
