import RegisterLang.CommandLine.Arguments
import RegisterLang.Json.Text
import RegisterLang.Machine.Vm
import RegisterLang.Toolchain

/-! # Running commands

A command reads and writes files and gives an exit status and the text of two streams. The status of a
program that ran is the low byte of its result.
-/

namespace RegisterLang.CommandLine

structure Outcome where
  status : UInt8
  stdout : String := ""
  stderr : String := ""
  deriving DecidableEq, Repr, Inhabited

namespace Outcome

def success : Outcome := ⟨0, "", ""⟩

def failure (message : String) : Outcome :=
  ⟨1, "", "error: " ++ message ++ "\n"⟩

def usage (reason : String) : Outcome :=
  ⟨2, "", "error: " ++ reason ++ "\n"⟩

end Outcome

def versionText : String := "tern 0.1.0\n"

def helpText : String :=
  "Tern compiler and virtual machine\n\n" ++
  "Usage: tern <COMMAND>\n\n" ++
  "Commands:\n" ++
  "  build   Compile a Tern source file to a codefile\n" ++
  "  run     Execute a codefile's Main function\n" ++
  "  disasm  Print a codefile listing\n"

variable {m : Type → Type} [Monad m]

def build (fs : FileSystem m) (file : String) (output : Option String) (settings : EmitSettings) :
    m Outcome := do
  let (result, t) ← Toolchain.tryCompile fs { settings, output } file
  match result with
  | .ok _ => return .success
  | .error (.diagnostics _) => return ⟨1, "", t.report.text ++ "\n"⟩
  | .error e => return .failure e.message

def buildJson (fs : FileSystem m) (file : String) (output : Option String)
    (settings : EmitSettings) : m Outcome := do
  match ← fs.readText file with
  | .error e => return .failure (ToolError.readSource file e).message
  | .ok text =>
    let result := CompileResult.ofSource ⟨file, text⟩ settings
    let stdout := result.toJson.text ++ "\n"
    match result.codefile with
    | none => return ⟨1, stdout, ""⟩
    | some bytes =>
      let out := output.getD (codefilePath file)
      match ← fs.write out bytes with
      | .ok () => return ⟨0, stdout, ""⟩
      | .error e => return { Outcome.failure (ToolError.writeOutput out e).message with stdout }

/-- Run a codefile on a platform with the given loader of libraries. -/
def runFile (fs : FileSystem m) (loader : Loader Unit) (file : String) (settings : VmSettings) :
    m Outcome := do
  match (← fs.readCodefile file) >>= Image.ofCodefile with
  | .error e => return .failure e.message
  | .ok image =>
    match (((Vm.new settings).setImage image).executeMain loader ()).1 with
    | .ok value => return ⟨value.toUInt8, "", ""⟩
    | .error fault => return .failure fault.message

def disasm (fs : FileSystem m) (file : String) : Option String → m Outcome
  | some out => do
    match ← Toolchain.tryList fs file out with
    | .ok () => return .success
    | .error e => return .failure e.message
  | none => do
    match ← fs.readCodefile file with
    | .ok f => return ⟨0, f.listing, ""⟩
    | .error e => return .failure e.message

def Command.execute (fs : FileSystem m) (loader : Loader Unit) : Command → m Outcome
  | .build file output level json =>
    let settings : EmitSettings := { optLevel := level }
    if json then buildJson fs file output settings else CommandLine.build fs file output settings
  | .run file libraryPaths maxSteps => runFile fs loader file { libraryPaths, maxSteps }
  | .disasm file output => CommandLine.disasm fs file output

def execute (fs : FileSystem m) (loader : Loader Unit) (args : List String) : m Outcome :=
  match parse args with
  | .error reason => return .usage reason
  | .ok .version => return ⟨0, versionText, ""⟩
  | .ok .help => return ⟨0, helpText, ""⟩
  | .ok (.command command) => command.execute fs loader

end RegisterLang.CommandLine
