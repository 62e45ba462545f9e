import RegisterLang.Ast.Parser.Basic

/-! # Reading types

A type is a primitive name, perhaps after `const`, followed by any number of stars and perhaps by an
array length in brackets.
-/

namespace RegisterLang.Parser

def arrayLength : Parser Nat := do
  match ← kind with
  | .intLit n =>
    let token ← advance
    if 0 < n.toNat && n.toNat < UInt32.size then return n.toNat
    complainAt .invalidLiteral s!"array length {n} is out of range" token.span
    return 0
  | _ => return 0

def primitive : Parser Primitive := do
  match ← kind with
  | .typeName p =>
    discard advance
    return p
  | .identifier name =>
    complainAt .unknownType s!"unknown type '{name}'" (← here)
    discard advance
    fail
  | other => refuse .unexpectedToken s!"expected type, got '{other.text}'"

def starRound (ty : Ty) : Parser (Loop Ty) := do
  if ← eat .star then return .again ty.pointerTo else return .done ty

def type : Parser Ty := do
  let isConst ← eat .kwConst
  let p ← primitive
  let base := if isConst then (Ty.scalar p).constant else Ty.scalar p
  let ty ← iterate starRound base
  if ← eat .lBracket then
    let len ← arrayLength
    expect .rBracket
    return ty.arrayOf len
  return ty

end RegisterLang.Parser
