import RegisterLang.Diagnostic

/-! # Reports: the diagnostics of one compilation

A report stores the first twenty errors and counts all of them; warnings are all stored. Later stages
stop early once the limit is reached.
-/

namespace RegisterLang

structure Report where
  errors : Array Diagnostic
  warnings : Array Diagnostic
  totalErrors : Nat
  totalWarnings : Nat
  stored_le : errors.size ≤ totalErrors
  deriving DecidableEq, Repr

namespace Report

/-- How many errors are stored; further ones are only counted. -/
def limit : Nat := 20

def empty : Report :=
  ⟨#[], #[], 0, 0, Nat.le_refl 0⟩

instance : Inhabited Report :=
  ⟨empty⟩

def hasErrors (r : Report) : Bool :=
  r.totalErrors > 0

def atLimit (r : Report) : Bool :=
  limit ≤ r.totalErrors

def error (r : Report) (d : Diagnostic) : Report :=
  { r with
    errors := if r.errors.size < limit then r.errors.push d else r.errors
    totalErrors := r.totalErrors + 1
    stored_le := by
      have := r.stored_le
      split
      · rw [Array.size_push]
        omega
      · omega }

def warning (r : Report) (d : Diagnostic) : Report :=
  { r with
    warnings := r.warnings.push { d with severity := .warning }
    totalWarnings := r.totalWarnings + 1 }

def dropped (r : Report) : Nat :=
  r.totalErrors - r.errors.size

def extend (r later : Report) : Report :=
  let stored := later.errors.foldl error r
  let counted :=
    { stored with
      totalErrors := stored.totalErrors + later.dropped
      stored_le := Nat.le_add_right_of_le stored.stored_le }
  later.warnings.foldl warning counted

def complain (r : Report) (source : SourceText) (code : Code) (message : String) (span : Span) :
    Report :=
  r.error (.inSource source code message span)

/-- One line for every stored error, in the order of the reports. -/
def text (r : Report) : String :=
  "\n".intercalate (r.errors.toList.map Diagnostic.text)

end Report

end RegisterLang
