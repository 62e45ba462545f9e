import RegisterLang.Ast.Parser.Stmt
import RegisterLang.Token.Scan

/-! # Reading programs

Items are read one after the other. One that cannot be read is skipped, braces and all, up to the start
of the next.
-/

namespace RegisterLang.Parser

/-- Pass a token on the way to the next item, with `depth` braces open. -/
def skipItemRound (depth : Nat) : Parser (Loop Nat) := do
  match ← kind with
  | .eof => return .done depth
  | .kwFn | .kwVar | .kwConst | .atSign =>
    if depth = 0 then return .done depth
    discard advance
    return .again depth
  | .lBrace =>
    discard advance
    return .again (depth + 1)
  | .rBrace =>
    discard advance
    if depth ≤ 1 then return .done depth else return .again (depth - 1)
  | .semicolon =>
    discard advance
    if depth = 0 then return .done depth else return .again depth
  | _ =>
    discard advance
    return .again depth

/-- Skip to the start of the next item. -/
def skipItem : Parser Unit :=
  discard (attempt (iterate skipItemRound 0))

/-- Read one attribute, `@extern("library", "symbol")`, whose symbol may be left out. -/
def linkage (earlier : Option Linkage) : Parser Linkage := do
  let start := (← advance).span
  let name ← ident
  if name.name ≠ "extern" then
    refuseAt .invalidAttribute s!"unknown attribute '@{name.name}'" name.span
  expect .lParen
  let library ← stringLit
  let symbol ← if ← eat .comma then some <$> stringLit else pure none
  expect .rParen
  let span := start.cover (← last)
  if library.isEmpty || symbol = some "" then
    refuseAt .invalidAttribute "@extern library and symbol names must not be empty" span
  if earlier.isSome then
    refuseAt .invalidAttribute "duplicate @extern attribute" span
  return ⟨library, symbol, span⟩

def attributeRound (earlier : Option Linkage) : Parser (Loop (Option Linkage)) := do
  if ← check .atSign then return .again (some (← linkage earlier)) else return .done earlier

def attributes : Parser (Option Linkage) :=
  iterate attributeRound none

def param : Parser Param := do
  let name ← ident
  expect .colon
  let ty ← type
  return ⟨name, ty, name.span.cover (← last)⟩

/-- Read the body of a function. A semicolon stands for none. -/
def functionBody (name : Ident) (linkage : Option Linkage) : Parser (Option Block) := do
  if ← eat .semicolon then return none
  let body ← block
  if let some link := linkage then
    complainAt .invalidAttribute s!"@extern function '{name.name}' cannot have a body" link.span
  return some body

def function (linkage : Option Linkage) : Parser FunctionDecl := do
  let start := (linkage.map Linkage.span).getD (← here)
  expect .kwFn
  let name ← ident
  expect .lParen
  let params ← separated param .rParen
  let ret ← if ← eat .colon then type else pure Ty.void
  let body ← functionBody name linkage
  return ⟨name, params, ret, body, linkage, start.cover (← last)⟩

def constDecl : Parser ConstDecl := do
  let start ← here
  expect .kwConst
  let name ← ident
  expect .colon
  let ty ← type
  expect .eq
  let value ← expression
  expect .semicolon
  return ⟨name, ty.constant, value, start.cover (← last)⟩

def item : Parser Item := do
  let linkage ← attributes
  match ← kind with
  | .kwFn => Item.function <$> function linkage
  | .kwVar =>
    if linkage.isSome then refuse .invalidAttribute "@extern only applies to functions"
    Item.var <$> varDecl
  | .kwConst =>
    if linkage.isSome then refuse .invalidAttribute "@extern only applies to functions"
    Item.const <$> constDecl
  | other =>
    complainAt .unexpectedToken s!"expected 'fn', 'var' or 'const', got '{other.text}'" (← here)
    discard advance
    fail

def program : Parser Program := do
  let start ← here
  let items ← gather (fun s => s.atEnd || s.report.atLimit) item skipItem
  return ⟨items, start.cover (← last)⟩

end RegisterLang.Parser

namespace RegisterLang

def parseTokens (source : SourceText) (tokens : List Token) : Program × Report :=
  match Parser.program (.ofTokens source tokens) with
  | (some program, s) => (program, s.report)
  | (none, s) => (⟨[], .absent⟩, s.report)

/-- The program that a source text spells, and the mistakes in it: first those of the scanner. -/
def parse (source : SourceText) : Program × Report :=
  let (tokens, scanned) := scan source
  let (program, parsed) := parseTokens source tokens.toList
  (program, scanned.extend parsed)

end RegisterLang
