import RegisterLang.Json
import RegisterLang.Report

/-! # Diagnostics as JSON

Only the suggestion may be missing. The category is read as it stands, whatever the code.
-/

namespace RegisterLang

namespace Severity

def ofText? : String → Option Severity
  | "error" => some error
  | "warning" => some warning
  | _ => none

theorem ofText?_text (s : Severity) : ofText? s.text = some s := by
  cases s <;> rfl

end Severity

namespace Category

def ofText? : String → Option Category
  | "syntax" => some grammar
  | "type" => some typing
  | "name" => some naming
  | "codegen" => some codegen
  | _ => none

theorem ofText?_text (c : Category) : ofText? c.text = some c := by
  cases c <;> rfl

end Category

namespace Diagnostic

def toJson (d : Diagnostic) : Json :=
  .obj ([
    ("file", .str d.file),
    ("code", .nat d.code.number),
    ("severity", .str d.severity.text),
    ("category", .str d.category.text),
    ("message", .str d.message),
    ("line", .nat d.span.start.line),
    ("column", .nat d.span.start.col),
    ("end_line", .nat d.span.stop.line),
    ("end_column", .nat d.span.stop.col),
    ("source_line", .str d.sourceLine)] ++
    d.suggestion.toList.map fun s => ("suggestion", .str s))

/-- A position is a number below two to the thirty-second. -/
def position? (j : Json) (line col : String) : Option Position := do
  let number (key : String) := j.field? key >>= Json.natBelow? UInt32.size
  return ⟨← number line, ← number col⟩

def ofJson? (j : Json) : Option Diagnostic := do
  let str (key : String) := j.field? key >>= Json.str?
  return {
    file := ← str "file"
    code := ⟨← j.field? "code" >>= Json.natBelow? UInt16.size⟩
    severity := ← j.field? "severity" >>= Json.choice? Severity.ofText?
    category := ← j.field? "category" >>= Json.choice? Category.ofText?
    message := ← str "message"
    span := ⟨← position? j "line" "column", ← position? j "end_line" "end_column"⟩
    sourceLine := ← str "source_line"
    suggestion := ← Json.orDefault? (Json.nullable? Json.str?) none (j.field? "suggestion") }

end Diagnostic

namespace Report

def toJson (r : Report) : Json :=
  .obj [
    ("errors", .arr (r.errors.toList.map Diagnostic.toJson)),
    ("warnings", .arr (r.warnings.toList.map Diagnostic.toJson)),
    ("total_errors", .nat r.totalErrors),
    ("total_warnings", .nat r.totalWarnings)]

end Report

end RegisterLang
