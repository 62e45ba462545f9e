import RegisterLang.Binary64.Text
import RegisterLang.Source.Span
import RegisterLang.Ty

/-! # Tokens -/

namespace RegisterLang

inductive TokenKind where
  | intLit (value : UInt64)
  | floatLit (bits : UInt64)
  | stringLit (text : String)
  | identifier (name : String)
  | kwFn
  | kwVar
  | kwConst
  | kwReturn
  | kwIf
  | kwElif
  | kwElse
  | typeName (primitive : Primitive)
  | plus
  | minus
  | star
  | slash
  | eqEq
  | bangEq
  | less
  | greater
  | lessEq
  | greaterEq
  | bang
  | eq
  | lParen
  | rParen
  | lBrace
  | rBrace
  | lBracket
  | rBracket
  | comma
  | colon
  | semicolon
  | dot
  | atSign
  | eof
  deriving DecidableEq, Repr, Inhabited

namespace TokenKind

/-- The reserved word that a text spells. The names of the primitive types are reserved. -/
def ofWord? : String → Option TokenKind
  | "fn" => some kwFn
  | "var" => some kwVar
  | "const" => some kwConst
  | "return" => some kwReturn
  | "if" => some kwIf
  | "elif" => some kwElif
  | "else" => some kwElse
  | word => (Primitive.ofName? word).map typeName

def isKeyword : TokenKind → Bool
  | kwFn | kwVar | kwConst | kwReturn | kwIf | kwElif | kwElse | typeName _ => true
  | _ => false

def text : TokenKind → String
  | intLit n => toString n
  | floatLit bits => Binary64.plainText bits
  | stringLit s => "\"" ++ s ++ "\""
  | identifier name => name
  | kwFn => "fn"
  | kwVar => "var"
  | kwConst => "const"
  | kwReturn => "return"
  | kwIf => "if"
  | kwElif => "elif"
  | kwElse => "else"
  | typeName p => p.name
  | plus => "+"
  | minus => "-"
  | star => "*"
  | slash => "/"
  | eqEq => "=="
  | bangEq => "!="
  | less => "<"
  | greater => ">"
  | lessEq => "<="
  | greaterEq => ">="
  | bang => "!"
  | eq => "="
  | lParen => "("
  | rParen => ")"
  | lBrace => "\x7b"
  | rBrace => "\x7d"
  | lBracket => "["
  | rBracket => "]"
  | comma => ","
  | colon => ":"
  | semicolon => ";"
  | dot => "."
  | atSign => "@"
  | eof => "end of file"

end TokenKind

structure Token where
  kind : TokenKind
  span : Span
  deriving DecidableEq, Repr, Inhabited

end RegisterLang
