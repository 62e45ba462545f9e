import RegisterLang.Ast.Parser.Program
import RegisterLang.Bytes.Sha256
import RegisterLang.Codefile.Write
import RegisterLang.Emission.Program
import RegisterLang.Json.Diagnostics

/-! # Compilation: from source text to the bytes of a codefile

Code is emitted only for a text without mistakes in its grammar, and a codefile is written only when the
emission found no mistakes either.
-/

namespace RegisterLang

def EmissionError.code : EmissionError → Code
  | registersExhausted _ => .registerExhausted
  | jumpTooLong _ => .limitExceeded
  | internal _ => .internal

def EmissionError.diagnostic (e : EmissionError) (source : SourceText) (span : Span) : Diagnostic :=
  { Diagnostic.inSource source e.code e.message span with
    suggestion :=
      match e with
      | registersExhausted _ => some "split the expression into smaller statements"
      | _ => none }

/-- The bytes of the codefile that a text compiles to, or what is wrong with the text. -/
def compile (source : SourceText) (settings : EmitSettings) : Except Report (List UInt8) :=
  let (program, report) := parse source
  if report.hasErrors then .error report
  else
    match emit program source settings with
    | .error e => .error (report.error (e.diagnostic source program.span))
    | .ok output =>
      let report := report.extend output.report
      if report.hasErrors then .error report
      else
        match output.codefile.encode with
        | .ok bytes => .ok bytes
        | .error e =>
          let message := s!"cannot serialise codefile: {e.message}"
          .error (report.complain source .limitExceeded message program.span)

structure CompileResult where
  success : Bool
  codefile : Option (List UInt8)
  sha256 : Option String
  report : Report
  deriving DecidableEq, Repr, Inhabited

namespace CompileResult

def ofSource (source : SourceText) (settings : EmitSettings) : CompileResult :=
  match compile source settings with
  | .ok bytes => ⟨true, some bytes, some (Sha256.hex bytes), .empty⟩
  | .error report => ⟨false, none, none, report⟩

def toJson (r : CompileResult) : Json :=
  .obj [
    ("success", .bool r.success),
    ("codefile", .ofOption (r.codefile.map fun bytes => .arr (bytes.map fun b => .nat b.toNat))),
    ("codefile_sha256", .ofOption (r.sha256.map .str)),
    ("errors", r.report.toJson)]

end CompileResult

end RegisterLang
