import RegisterLang.Emission.Settings
import RegisterLang.Json
import RegisterLang.Machine.Settings

/-! # Settings as JSON

A missing field has its default value.
-/

namespace RegisterLang

namespace EmitSettings

def toJson (s : EmitSettings) : Json :=
  .obj [("opt_level", .str s.optLevel.word), ("file_type", .str s.fileType.word)]

def ofJson? (j : Json) : Option EmitSettings := do
  match ← j.record? ["opt_level", "file_type"] with
  | [optLevel, fileType] =>
    let defaults : EmitSettings := {}
    return {
      optLevel := ← Json.orDefault? (Json.choice? OptLevel.ofWord?) defaults.optLevel optLevel
      fileType := ← Json.orDefault? (Json.choice? FileType.ofWord?) defaults.fileType fileType }
  | _ => none

end EmitSettings

namespace VmSettings

def toJson (s : VmSettings) : Json :=
  .obj [
    ("max_call_depth", .nat s.maxCallDepth),
    ("max_steps", .ofOption (s.maxSteps.map .nat)),
    ("library_paths", .arr (s.libraryPaths.map .str)),
    ("trace_jumps", .bool s.traceJumps)]

def ofJson? (j : Json) : Option VmSettings := do
  match ← j.record? ["max_call_depth", "max_steps", "library_paths", "trace_jumps"] with
  | [maxCallDepth, maxSteps, libraryPaths, traceJumps] =>
    let defaults : VmSettings := {}
    return {
      maxCallDepth := ← Json.orDefault? Json.word? defaults.maxCallDepth maxCallDepth
      maxSteps := ← Json.orDefault? (Json.nullable? Json.word?) defaults.maxSteps maxSteps
      libraryPaths :=
        ← Json.orDefault? (Json.list? Json.str?) defaults.libraryPaths libraryPaths
      traceJumps := ← Json.orDefault? Json.bool? defaults.traceJumps traceJumps }
  | _ => none

end VmSettings

end RegisterLang
