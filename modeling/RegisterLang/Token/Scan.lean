import RegisterLang.Binary64.OfRatio
import RegisterLang.Report
import RegisterLang.Text.Utf8
import RegisterLang.Token

/-! # Scanning: source text to tokens

The scanner skips blanks and comments and reads one token at a time. It carries on after a mistake, so
the tokens always reach the end of the text and close with an end-of-file token, unless the report has
reached its limit. Each loop runs over text that it shortens, so the text itself bounds the loop.
-/

namespace RegisterLang

structure Cursor where
  pos : Position
  rest : List Char
  deriving DecidableEq, Repr, Inhabited

namespace Cursor

/-- The cursor after reading `text`, when `rest` follows it. -/
def past (pos : Position) (text rest : List Char) : Cursor :=
  ⟨pos.afterAll text, rest⟩

end Cursor

structure Complaint where
  code : Code
  message : String
  span : Span
  deriving DecidableEq, Repr, Inhabited

namespace Report

/-- Add what was found in `source`, in order. -/
def complainAll (r : Report) (source : SourceText) (complaints : List Complaint) : Report :=
  complaints.foldl (fun r c => r.complain source c.code c.message c.span) r

end Report

namespace Scan

/-! ## Blanks and comments -/

def isBlank (c : Char) : Bool :=
  c = ' ' || c = '\t' || c = '\r' || c = '\n'

def blockComment (pos : Position) : List Char → Bool × Cursor
  | [] => (false, ⟨pos, []⟩)
  | '*' :: '/' :: rest => (true, .past pos ['*', '/'] rest)
  | c :: rest => blockComment (pos.after c) rest

def lineComment (pos : Position) (text : List Char) : Cursor :=
  .past pos (text.takeWhile (· ≠ '\n')) (text.dropWhile (· ≠ '\n'))

/-- Skip blanks and comments. The first list bounds the number of pieces skipped. -/
def triviaWithin : List Char → Cursor → List Complaint → Cursor × List Complaint
  | [], cur, found => (cur, found)
  | _ :: bound, cur, found =>
    match cur.rest with
    | '/' :: '/' :: rest => triviaWithin bound (lineComment cur.pos ('/' :: '/' :: rest)) found
    | '/' :: '*' :: rest =>
      match blockComment (cur.pos.afterAll ['/', '*']) rest with
      | (true, next) => triviaWithin bound next found
      | (false, next) =>
        (next, found ++ [⟨.unexpectedToken, "unterminated block comment",
          .upTo cur.pos next.pos⟩])
    | c :: rest =>
      if isBlank c then triviaWithin bound ⟨cur.pos.after c, rest⟩ found else (cur, found)
    | [] => (cur, found)

def trivia (cur : Cursor) : Cursor × List Complaint :=
  triviaWithin cur.rest cur []

/-! ## Literals and words -/

def isDigit (c : Char) : Bool :=
  '0' ≤ c && c ≤ '9'

def isWordStart (c : Char) : Bool :=
  ('a' ≤ c && c ≤ 'z') || ('A' ≤ c && c ≤ 'Z') || c = '_'

def isWordChar (c : Char) : Bool :=
  isWordStart c || isDigit c

def hexValue? (c : Char) : Option Nat :=
  if isDigit c then some (c.toNat - '0'.toNat)
  else if 'a' ≤ c && c ≤ 'f' then some (c.toNat - 'a'.toNat + 10)
  else if 'A' ≤ c && c ≤ 'F' then some (c.toNat - 'A'.toNat + 10)
  else none

/-- The number that digits of the given base spell. -/
def number (base : Nat) (digits : List Char) : Nat :=
  digits.foldl (fun n c => n * base + (hexValue? c).getD 0) 0

/-- What was scanned from one place: the kind of token, the place after it, and the mistakes in it. -/
structure Lexeme where
  kind : TokenKind
  next : Cursor
  complaints : List Complaint

/-- A hexadecimal literal at `pos`; `text` follows its leading `0x`. -/
def hexLiteral (pos : Position) (mark : Char) (text : List Char) : Lexeme :=
  let digits := text.takeWhile fun c => (hexValue? c).isSome
  let next := Cursor.past pos ('0' :: mark :: digits) (text.drop digits.length)
  let value := number 16 digits
  if digits.isEmpty || UInt64.size ≤ value then
    ⟨.intLit 0, next,
      [⟨.invalidLiteral, "invalid hexadecimal literal", .upTo pos next.pos⟩]⟩
  else ⟨.intLit (UInt64.ofNat value), next, []⟩

/-- A decimal literal at `pos`. A point belongs to it only when a digit follows. -/
def decimalLiteral (pos : Position) (text : List Char) : Lexeme :=
  let whole := text.takeWhile isDigit
  let rest := text.dropWhile isDigit
  let integer : Lexeme :=
    let next := Cursor.past pos whole rest
    let value := number 10 whole
    if value < UInt64.size then ⟨.intLit (UInt64.ofNat value), next, []⟩
    else
      ⟨.intLit 0, next,
        [⟨.invalidLiteral,
          s!"integer literal '{String.ofList whole}' does not fit in 64 bits",
          .upTo pos next.pos⟩]⟩
  match rest with
  | '.' :: d :: more =>
    if isDigit d then
      let places := (d :: more).takeWhile isDigit
      ⟨.floatLit (Binary64.ofDecimal (number 10 (whole ++ places)) places.length),
        .past pos (whole ++ '.' :: places) ((d :: more).dropWhile isDigit), []⟩
    else integer
  | _ => integer

def numberLiteral (pos : Position) (text : List Char) : Lexeme :=
  match text with
  | '0' :: 'x' :: rest => hexLiteral pos 'x' rest
  | '0' :: 'X' :: rest => hexLiteral pos 'X' rest
  | _ => decimalLiteral pos text

/-- A word at `pos`: reserved or a name. -/
def word (pos : Position) (text : List Char) : Lexeme :=
  let letters := text.takeWhile isWordChar
  let name := String.ofList letters
  ⟨(TokenKind.ofWord? name).getD (.identifier name),
    .past pos letters (text.dropWhile isWordChar), []⟩

def escape? : Char → Option Char
  | '\"' => some '\"'
  | '\\' => some '\\'
  | 'n' => some '\n'
  | 't' => some '\t'
  | 'r' => some '\r'
  | '0' => some '\x00'
  | _ => none

/-- An unknown escape is reported by the first byte of its character. -/
def badEscape (pos : Position) (c : Char) : Complaint :=
  let first := ((Utf8.encode c.toString).headD 0).toNat
  ⟨.invalidLiteral, "invalid escape sequence '\\" ++ (Char.ofNat first).toString ++ "'",
    ⟨pos, ⟨pos.line, pos.col + 1⟩⟩⟩

/-- What a string literal holds, last character first, after its opening quote. -/
structure StringBody where
  shown : List Char
  next : Cursor
  complaints : List Complaint

def stringBody (start pos : Position) (shown : List Char) (found : List Complaint) :
    List Char → StringBody
  | '\"' :: rest => ⟨shown, .past pos ['\"'] rest, found⟩
  | '\\' :: c :: rest =>
    if c = '\n' then
      let next := pos.after '\\'
      ⟨shown, ⟨next, c :: rest⟩,
        found ++ [⟨.unterminatedString, "unterminated string literal", .upTo start next⟩]⟩
    else
      match escape? c with
      | some d => stringBody start (pos.afterAll ['\\', c]) (d :: shown) found rest
      | none =>
        stringBody start (pos.afterAll ['\\', c]) (c :: shown) (found ++ [badEscape pos c]) rest
  | ['\\'] =>
    let next := pos.after '\\'
    ⟨shown, ⟨next, []⟩,
      found ++ [⟨.unterminatedString, "unterminated string literal", .upTo start next⟩]⟩
  | '\n' :: rest =>
    ⟨shown, ⟨pos, '\n' :: rest⟩,
      found ++ [⟨.unterminatedString, "unterminated string literal", .upTo start pos⟩]⟩
  | [] =>
    ⟨shown, ⟨pos, []⟩,
      found ++ [⟨.unterminatedString, "unterminated string literal", .upTo start pos⟩]⟩
  | c :: rest => stringBody start (pos.after c) (c :: shown) found rest

def stringLiteral (pos : Position) (text : List Char) : Lexeme :=
  let body := stringBody pos (pos.after '\"') [] [] text
  ⟨.stringLit (String.ofList body.shown.reverse), body.next, body.complaints⟩

/-! ## Operators and punctuation -/

/-- The operator or mark at the start of a text, and how many characters it takes. -/
def mark? : List Char → Option (TokenKind × Nat)
  | '=' :: '=' :: _ => some (.eqEq, 2)
  | '!' :: '=' :: _ => some (.bangEq, 2)
  | '<' :: '=' :: _ => some (.lessEq, 2)
  | '>' :: '=' :: _ => some (.greaterEq, 2)
  | '+' :: _ => some (.plus, 1)
  | '-' :: _ => some (.minus, 1)
  | '*' :: _ => some (.star, 1)
  | '/' :: _ => some (.slash, 1)
  | '=' :: _ => some (.eq, 1)
  | '!' :: _ => some (.bang, 1)
  | '<' :: _ => some (.less, 1)
  | '>' :: _ => some (.greater, 1)
  | '(' :: _ => some (.lParen, 1)
  | ')' :: _ => some (.rParen, 1)
  | '\x7b' :: _ => some (.lBrace, 1)
  | '\x7d' :: _ => some (.rBrace, 1)
  | '[' :: _ => some (.lBracket, 1)
  | ']' :: _ => some (.rBracket, 1)
  | ',' :: _ => some (.comma, 1)
  | ':' :: _ => some (.colon, 1)
  | ';' :: _ => some (.semicolon, 1)
  | '.' :: _ => some (.dot, 1)
  | '@' :: _ => some (.atSign, 1)
  | _ => none

/-- The token at the start of a text that neither a blank nor a comment opens. -/
def lexeme? (pos : Position) (text : List Char) : Option Lexeme :=
  match text with
  | [] => none
  | c :: rest =>
    if c = '\"' then some (stringLiteral pos rest)
    else if isDigit c then some (numberLiteral pos text)
    else if isWordStart c then some (word pos text)
    else (mark? text).map fun (kind, n) => ⟨kind, .past pos (text.take n) (text.drop n), []⟩

/-! ## Whole texts -/

/-- Scan from a cursor. The first list bounds the number of characters that start a token or are out of
place, and `tokens` holds what was scanned before. -/
def tokensWithin (source : SourceText) :
    List Char → Cursor → Array Token → Report → Array Token × Report
  | bound, cur, tokens, report =>
    if report.atLimit then (tokens.push ⟨.eof, .point cur.pos⟩, report)
    else
      let (here, found) := trivia cur
      let report := report.complainAll source found
      match bound, here.rest with
      | _ :: bound, c :: rest =>
        match lexeme? here.pos (c :: rest) with
        | some lex =>
          tokensWithin source bound lex.next
            (tokens.push ⟨lex.kind, .upTo here.pos lex.next.pos⟩)
            (report.complainAll source lex.complaints)
        | none =>
          let next := here.pos.after c
          tokensWithin source bound ⟨next, rest⟩ tokens
            (report.complain source .unexpectedCharacter
              ("unexpected character '" ++ c.toString ++ "'") (.upTo here.pos next))
      | _, _ => (tokens.push ⟨.eof, .point here.pos⟩, report)

end Scan

def scan (source : SourceText) : Array Token × Report :=
  let text := source.text.toList
  Scan.tokensWithin source text ⟨⟨1, 1⟩, text⟩ #[] .empty

end RegisterLang
