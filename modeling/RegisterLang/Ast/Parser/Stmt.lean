import RegisterLang.Ast.Parser.Expr
import RegisterLang.Ast.Parser.Type

/-! # Reading statements

A statement that cannot be read is skipped up to a place where the next one may start, so that one
mistake does not hide the others. Blocks nest as deep as the text does, so the tokens bound the depth.
-/

namespace RegisterLang.Parser

/-- Pass a token on the way to the next statement. -/
def skipStatementRound (_ : Unit) : Parser (Loop Unit) := do
  match ← kind with
  | .eof | .kwVar | .kwReturn | .kwIf | .lBrace | .rBrace => return .done ()
  | .semicolon =>
    discard advance
    return .done ()
  | _ =>
    discard advance
    return .again ()

/-- Skip to the start of the next statement: past a semicolon, or before a word or brace that opens or
closes one. -/
def skipStatement : Parser Unit :=
  discard (attempt (iterate skipStatementRound ()))

/-- Read a variable, `var name: Type = value;`, whose value may be left out. -/
def varDecl : Parser VarDecl := do
  let start ← here
  expect .kwVar
  let name ← ident
  expect .colon
  let ty ← type
  let init ← if ← eat .eq then some <$> expression else pure none
  expect .semicolon
  return ⟨name, ty, init, start.cover (← last)⟩

def returnStmt : Parser Stmt := do
  let start := (← advance).span
  let value ← if ← check .semicolon then pure none else some <$> expression
  expect .semicolon
  return .ret value (start.cover (← last))

/-- Read an expression or an assignment. A bad target is reported, and the assignment kept. -/
def exprOrAssign : Parser Stmt := do
  let e ← expression
  if ← eat .eq then
    let value ← expression
    expect .semicolon
    let span := e.span.cover (← last)
    unless e.isAssignable do
      complainAt .invalidAssignTarget "only variables and array elements can be assigned to" e.span
    return .assign e value span
  expect .semicolon
  return .expr e (e.span.cover (← last))

/-- Read a conditional, which starts with `if` or `elif`. `block` reads its blocks and `chain` an
`elif` with all that follows it. -/
def conditionalWith (block : Parser Block) (chain : Parser Conditional) : Parser Conditional := do
  let start := (← advance).span
  let cond ← expression
  let body ← block
  let otherwise ← do
    if ← check .kwElif then Otherwise.elif <$> chain
    else if ← eat .kwElse then
      if ← check .kwIf then refuse .unexpectedToken "use 'elif' instead of 'else if'"
      Otherwise.orElse <$> block
    else pure Otherwise.absent
  return .mk cond body otherwise (start.cover (← last))

def statementWith (block : Parser Block) (conditional : Parser Conditional) : Parser Stmt := do
  match ← kind with
  | .kwVar => Stmt.var <$> varDecl
  | .kwReturn => returnStmt
  | .kwIf => Stmt.branch <$> conditional
  | .lBrace => Stmt.block <$> block
  | _ => exprOrAssign

/-- Read statements between braces, skipping those that cannot be read. -/
def blockWith (statement : Parser Stmt) : Parser Block := do
  let start ← here
  expect .lBrace
  let stmts ← gather (fun s => s.kind = .rBrace || s.atEnd || s.report.atLimit) statement skipStatement
  expect .rBrace
  return .mk stmts (start.cover (← last))

mutual

/-- Read a block in which fewer than `n` blocks and conditionals nest. -/
def blockWithin : Nat → Parser Block
  | 0 => fail
  | n + 1 => defer fun _ => blockWith (statementWith (blockWithin n) (chainWithin n))

/-- Read what starts with `if` or `elif`, with the same bound on the nesting. -/
def chainWithin : Nat → Parser Conditional
  | 0 => fail
  | n + 1 => defer fun _ => conditionalWith (blockWithin n) (chainWithin n)

end

/-- Read a block. What nests in it has fewer tokens. -/
def block : Parser Block := do
  blockWithin ((← look State.rest).length + 1)

end RegisterLang.Parser
