import RegisterLang.Report
import RegisterLang.Text.Utf8

/-! # The strings of a program

Equal strings share one entry: literals, and the names of libraries and symbols.
-/

namespace RegisterLang.Emission

/-- The strings of a program, and the mistakes found so far. -/
structure Strings where
  table : Array String
  report : Report
  deriving Repr, Inhabited

namespace Strings

def empty : Strings := ⟨#[], .empty⟩

def maxLength : Nat := 65535

/-- The index of a text, which is added on its first use. A text that is too long is reported. -/
def intern (s : Strings) (source : SourceText) (text : String) (span : Span) : UInt32 × Strings :=
  let length := text.utf8ByteSize
  let report :=
    if maxLength < length then
      s.report.complain source .limitExceeded
        s!"string of {length} bytes exceeds the {maxLength}-byte limit" span
    else s.report
  match s.table.findIdx? (· = text) with
  | some index => (UInt32.ofNat index, { s with report })
  | none => (UInt32.ofNat s.table.size, ⟨s.table.push text, report⟩)

end Strings

end RegisterLang.Emission
