import RegisterLang.Ast.Parser.Basic

/-! # Reading expressions

From the loosest to the tightest: comparisons, which do not chain; sums; products; prefix operators;
calls, elements and fields after an expression. Expressions inside expressions and operands of prefix
operators may nest only so deep.
-/

namespace RegisterLang.Parser

def maxNesting : Nat := 64

def nestingExceeded : Parser Expr :=
  refuse .limitExceeded s!"expression nesting deeper than {maxNesting}"

/-- Read what stands one level deeper, unless that is too deep. -/
def nested (p : Parser Expr) : Parser Expr where
  run s :=
    let deeper := { s with depth := s.depth + 1 }
    let (e, s') := if maxNesting < deeper.depth then nestingExceeded deeper else p deeper
    (e, { s' with depth := s'.depth - 1 })
  reaches s := by
    have inside (q : Parser Expr) := q.reaches { s with depth := s.depth + 1 }
    have back {s' : State} (reaches : State.Reaches { s with depth := s.depth + 1 } s') :
        s.Reaches { s' with depth := s'.depth - 1 } :=
      ⟨reaches.rest, by rw [reaches.depth, Nat.add_sub_cancel], reaches.clean⟩
    dsimp only
    split
    · exact back (inside _)
    · exact back (inside p)

/-- A binary expression covers both operands. -/
def joined (op : BinOp) (left right : Expr) : Expr :=
  .binary op left right (left.span.cover right.span)

def comparisonOp? : TokenKind → Option BinOp
  | .eqEq => some .eq
  | .bangEq => some .notEq
  | .less => some .less
  | .greater => some .greater
  | .lessEq => some .lessEq
  | .greaterEq => some .greaterEq
  | _ => none

def sumOp? : TokenKind → Option BinOp
  | .plus => some .add
  | .minus => some .sub
  | _ => none

def productOp? : TokenKind → Option BinOp
  | .star => some .mul
  | .slash => some .div
  | _ => none

def unaryOp? : TokenKind → Option UnaryOp
  | .minus => some .neg
  | .bang => some .not
  | _ => none

/-- Read an operator after `left` and what stands on its right, if an operator follows. -/
def chainRound (op? : TokenKind → Option BinOp) (operand : Parser Expr) (left : Expr) :
    Parser (Loop Expr) := do
  match op? (← kind) with
  | some op =>
    discard advance
    return .again (joined op left (← operand))
  | none => return .done left

def chain (op? : TokenKind → Option BinOp) (operand : Parser Expr) : Parser Expr := do
  let first ← operand
  iterate (chainRound op? operand) first

def comparison (operand : Parser Expr) : Parser Expr := do
  let sum := chain sumOp? (chain productOp? operand)
  let left ← sum
  match comparisonOp? (← kind) with
  | none => return left
  | some op =>
    discard advance
    let right ← sum
    if (comparisonOp? (← kind)).isSome then
      refuse .unexpectedToken "comparison operators cannot be chained"
    return joined op left right

def primary (inner : Parser Expr) : Parser Expr := do
  let start ← here
  match ← kind with
  | .intLit n =>
    discard advance
    return .int n (start.cover (← last))
  | .floatLit bits =>
    discard advance
    return .float bits (start.cover (← last))
  | .stringLit text =>
    discard advance
    return .str text (start.cover (← last))
  | .identifier name =>
    discard advance
    return .name name (start.cover (← last))
  | .lParen =>
    discard advance
    let e ← inner
    expect .rParen
    return .group e (start.cover (← last))
  | .lBracket =>
    discard advance
    let items ← separated inner .rBracket
    return .list items (start.cover (← last))
  | other => refuse .unexpectedToken s!"expected expression, got '{other.text}'"

def suffix (inner : Parser Expr) (e : Expr) : Parser (Loop Expr) := do
  match ← kind with
  | .lParen =>
    match e with
    | .name callee span =>
      discard advance
      let args ← separated inner .rParen
      return .again (.call ⟨callee, span⟩ args (span.cover (← last)))
    | _ => refuse .unexpectedToken "only named functions can be called"
  | .lBracket =>
    discard advance
    let position ← inner
    expect .rBracket
    return .again (.index e position (e.span.cover (← last)))
  | .dot =>
    discard advance
    let field ← ident
    return .again (.dot e field (e.span.cover field.span))
  | _ => return .done e

/-- Read prefix operators and what they apply to. `operand` reads what follows one operator, `inner`
what stands inside parentheses and brackets. -/
def unaryWith (operand inner : Parser Expr) : Parser Expr := do
  match unaryOp? (← kind) with
  | some op =>
    let token ← advance
    let e ← operand
    return .unary op e (token.span.cover e.span)
  | none =>
    let e ← primary inner
    iterate (suffix inner) e

/-- Read an operand with at most `room` levels. -/
def unaryWithin : Nat → Parser Expr
  | 0 => nestingExceeded
  | room + 1 => defer fun _ => unaryWith (nested (unaryWithin room)) (nested (comparison (unaryWithin room)))

/-- Read an expression. No operand in it has more levels than may be open. -/
def expression : Parser Expr :=
  nested (comparison (unaryWithin maxNesting))

end RegisterLang.Parser
