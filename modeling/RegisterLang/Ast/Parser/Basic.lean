import RegisterLang.Ast
import RegisterLang.Report
import RegisterLang.Token

/-! # Reading tokens

A parser looks at the next token, moves forward, and reports mistakes. It either yields a value or gives
up; the report is kept in both cases, so that a caller can skip to a place where parsing may go on. A
loop over the tokens is bounded by the tokens themselves: each round but the last reads at least one.
-/

namespace RegisterLang

namespace Parser

structure State where
  source : SourceText
  last : Span
  /-- The tokens to come, without the end of file that closes them. -/
  rest : List Token
  stop : Span
  /-- How many expressions and operands are open. -/
  depth : Nat
  report : Report
  deriving Repr, Inhabited

namespace State

/-- The state before a list of tokens. A list without an end of file gets one where its last token
stands. -/
def ofTokens (source : SourceText) (tokens : List Token) : State :=
  let start := Span.point ⟨1, 1⟩
  match tokens.getLast? with
  | some ⟨.eof, span⟩ => ⟨source, start, tokens.dropLast, span, 0, .empty⟩
  | some token => ⟨source, start, tokens, token.span, 0, .empty⟩
  | none => ⟨source, start, [], start, 0, .empty⟩

def next (s : State) : Token :=
  match s.rest with
  | token :: _ => token
  | [] => ⟨.eof, s.stop⟩

def kind (s : State) : TokenKind :=
  s.next.kind

def atEnd (s : State) : Bool :=
  s.kind = .eof

/-- The state after the next token; the end of file is never passed. -/
def advance (s : State) : State :=
  match s.rest with
  | token :: rest => { s with last := token.span, rest := rest }
  | [] => s

def complain (s : State) (code : Code) (message : String) (span : Span) : State :=
  { s with report := s.report.complain s.source code message span }

/-- On the way to a state tokens were read and mistakes reported, and what was opened was closed. -/
structure Reaches (s s' : State) : Prop where
  rest : s'.rest <:+ s.rest
  depth : s'.depth = s.depth
  clean : s'.report.hasErrors = false → s.report.hasErrors = false

variable {s s' s'' : State}

theorem Reaches.refl (s : State) : s.Reaches s :=
  ⟨List.suffix_refl _, rfl, id⟩

theorem Reaches.trans (first : s.Reaches s') (second : s'.Reaches s'') : s.Reaches s'' :=
  ⟨second.rest.trans first.rest, second.depth.trans first.depth, fun clean => first.clean (second.clean clean)⟩

theorem reaches_advance (s : State) : s.Reaches s.advance := by
  unfold advance
  split
  · next token rest here => exact ⟨here ▸ List.suffix_cons token rest, rfl, id⟩
  · exact .refl s

theorem reaches_complain (s : State) (code : Code) (message : String) (span : Span) :
    s.Reaches (s.complain code message span) :=
  ⟨List.suffix_refl _, rfl, by simp [complain, Report.complain, Report.error, Report.hasErrors]⟩

end State

end Parser

/-- A reader of tokens that yields a value or gives up. -/
@[ext]
structure Parser (α : Type) where
  run : Parser.State → Option α × Parser.State
  reaches (s : Parser.State) : s.Reaches (run s).2

namespace Parser

variable {α β : Type}

instance : CoeFun (Parser α) fun _ => State → Option α × State :=
  ⟨run⟩

instance : Monad Parser where
  pure a := ⟨fun s => (some a, s), .refl⟩
  bind p f :=
    { run s :=
        match p s with
        | (some a, s') => f a s'
        | (none, s') => (none, s')
      reaches s := by
        have first := p.reaches s
        split
        · next a s' ran =>
          rw [ran] at first
          exact first.trans ((f a).reaches s')
        · next s' ran => rwa [ran] at first }

/-- A parser that is built when it is run. -/
def defer (p : Unit → Parser α) : Parser α :=
  ⟨fun s => p () s, fun s => (p ()).reaches s⟩

def fail : Parser α := ⟨fun s => (none, s), .refl⟩

def look (f : State → α) : Parser α := ⟨fun s => (some (f s), s), .refl⟩

def kind : Parser TokenKind := look State.kind

def here : Parser Span := look fun s => s.next.span

def last : Parser Span := look State.last

def advance : Parser Token := ⟨fun s => (some s.next, s.advance), State.reaches_advance⟩

def check (k : TokenKind) : Parser Bool := look fun s => s.kind = k

def complainAt (code : Code) (message : String) (span : Span) : Parser Unit :=
  ⟨fun s => (some (), s.complain code message span), (State.reaches_complain · code message span)⟩

def refuseAt (code : Code) (message : String) (span : Span) : Parser α := do
  complainAt code message span
  fail

def refuse (code : Code) (message : String) : Parser α := do
  refuseAt code message (← here)

/-- Read the next token if it is of the given kind, and say whether it was. -/
def eat (k : TokenKind) : Parser Bool := do
  if ← check k then
    discard advance
    return true
  else return false

def expect (k : TokenKind) : Parser Unit := do
  let found ← kind
  if found = k then discard advance
  else refuse .unexpectedToken s!"expected '{k.text}', got '{found.text}'"

def ident : Parser Ident := do
  match ← kind with
  | .identifier name =>
    let token ← advance
    return ⟨name, token.span⟩
  | other =>
    if other.isKeyword then
      refuse .unexpectedToken
        s!"'{other.text}' is a reserved word and cannot be used as a name"
    else refuse .unexpectedToken s!"expected identifier, got '{other.text}'"

def stringLit : Parser String := do
  match ← kind with
  | .stringLit text =>
    discard advance
    return text
  | other => refuse .unexpectedToken s!"expected string literal, got '{other.text}'"

def attempt (p : Parser α) : Parser (Option α) :=
  ⟨fun s => let (result, s') := p s; (some result, s'), p.reaches⟩

/-- Whether a loop asks for more, and what it has so far. -/
inductive Loop (β : Type) where
  | again (b : β)
  | done (b : β)

/-- Repeat `body` at most as often as the list is long. -/
def iterateWithin (body : β → Parser (Loop β)) : List Token → β → Parser β
  | [], b => pure b
  | _ :: bound, b => do
    match ← body b with
    | .again b' => iterateWithin body bound b'
    | .done b' => return b'

/-- Repeat `body` while it asks for more. There is a round for each token to come, and one for the end. -/
def iterate (body : β → Parser (Loop β)) (b : β) : Parser β := do
  iterateWithin body (← look fun s => s.next :: s.rest) b

/-- Read an item and the comma behind it. Without a comma the item is the last one. -/
def separatedRound (item : Parser α) (close : TokenKind) (items : Array α) : Parser (Loop (Array α)) := do
  if ← look fun s => s.kind = close || s.atEnd then return .done items
  let items := items.push (← item)
  if ← eat .comma then return .again items else return .done items

/-- Read what stands between here and `close`, separated by commas. A comma may stand before
`close`. -/
def separated (item : Parser α) (close : TokenKind) : Parser (List α) := do
  let items ← iterate (separatedRound item close) #[]
  expect close
  return items.toList

/-- Read an item where `stop` does not say otherwise. After one that cannot be read, `skip` moves on. -/
def gatherRound (stop : State → Bool) (item : Parser α) (skip : Parser Unit) (items : Array α) :
    Parser (Loop (Array α)) := do
  if ← look stop then return .done items
  match ← attempt item with
  | some a => return .again (items.push a)
  | none =>
    skip
    return .again items

/-- Read items up to where `stop` says so. -/
def gather (stop : State → Bool) (item : Parser α) (skip : Parser Unit) : Parser (List α) := do
  let items ← iterate (gatherRound stop item skip) #[]
  return items.toList

end Parser

end RegisterLang
