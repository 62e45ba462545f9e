import RegisterLang.Source.Text

/-! # Diagnostics

A diagnostic names a mistake in a source text: where it is, what kind it is, and a message. The code
decides the category; both are kept, since a diagnostic read back from a file may pair them freely.
-/

namespace RegisterLang

inductive Severity where
  | error
  | warning
  deriving DecidableEq, Repr, Inhabited

namespace Severity

def text : Severity → String
  | error => "error"
  | warning => "warning"

end Severity

inductive Category where
  | grammar
  | typing
  | naming
  | codegen
  deriving DecidableEq, Repr, Inhabited

namespace Category

def text : Category → String
  | grammar => "syntax"
  | typing => "type"
  | naming => "name"
  | codegen => "codegen"

end Category

structure Code where
  number : Nat
  deriving DecidableEq, Repr, Inhabited

namespace Code

def unexpectedToken : Code := ⟨100⟩
def unterminatedString : Code := ⟨101⟩
def invalidLiteral : Code := ⟨102⟩
def unexpectedCharacter : Code := ⟨103⟩
def invalidAttribute : Code := ⟨104⟩
def unknownType : Code := ⟨200⟩
def typeMismatch : Code := ⟨201⟩
def wrongArgCount : Code := ⟨202⟩
def invalidOperand : Code := ⟨203⟩
def missingReturn : Code := ⟨204⟩
def invalidGlobalInitializer : Code := ⟨205⟩
def undefinedIdentifier : Code := ⟨300⟩
def undefinedFunction : Code := ⟨301⟩
def uninitializedLocal : Code := ⟨302⟩
def redefinition : Code := ⟨303⟩
def shadowedGlobal : Code := ⟨304⟩
def missingEntryPoint : Code := ⟨305⟩
def invalidAssignTarget : Code := ⟨306⟩
def notImplemented : Code := ⟨400⟩
def registerExhausted : Code := ⟨401⟩
def limitExceeded : Code := ⟨402⟩
def internal : Code := ⟨403⟩

/-- The hundreds of a code decide its category. -/
def category (c : Code) : Category :=
  match c.number / 100 with
  | 2 => .typing
  | 3 => .naming
  | 4 => .codegen
  | _ => .grammar

def text (c : Code) : String :=
  s!"E{c.number}"

end Code

structure Diagnostic where
  file : String
  code : Code
  severity : Severity
  category : Category
  message : String
  span : Span
  sourceLine : String
  suggestion : Option String
  deriving DecidableEq, Repr, Inhabited

namespace Diagnostic

def inSource (source : SourceText) (code : Code) (message : String) (span : Span) : Diagnostic where
  file := source.name
  code := code
  severity := .error
  category := code.category
  message := message
  span := span
  sourceLine := (source.line? span.start.line).getD ""
  suggestion := none

def text (d : Diagnostic) : String :=
  s!"{d.file}:{d.span.text}: {d.code.text} [{d.category.text}] {d.message}"

end Diagnostic

end RegisterLang
