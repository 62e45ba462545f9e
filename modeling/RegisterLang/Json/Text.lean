import RegisterLang.Bytes.Hex
import RegisterLang.Json

/-! # Writing JSON

Every item of a list and every field of an object stands on a line of its own, two columns further in
than the bracket that encloses it.
-/

namespace RegisterLang.Json

def charText (c : Char) : String :=
  match c with
  | '\"' => "\\\""
  | '\\' => "\\\\"
  | '\n' => "\\n"
  | '\r' => "\\r"
  | '\t' => "\\t"
  | '\x08' => "\\b"
  | '\x0c' => "\\f"
  | c => if c.toNat < 0x20 then "\\u" ++ Hex.padded 4 c.toNat else c.toString

def strText (s : String) : String :=
  "\"" ++ String.join (s.toList.map charText) ++ "\""

def numText (mantissa : Int) (places : Nat) : String :=
  if places = 0 then toString mantissa
  else
    let digits := toString mantissa.natAbs
    let padded := "".pushn '0' (places + 1 - digits.length) ++ digits
    let whole := padded.length - places
    (if mantissa < 0 then "-" else "") ++ (padded.take whole).toString ++ "." ++
      (padded.drop whole).toString

def newLine (depth : Nat) : String :=
  "".pushn ' ' (2 * depth) |> ("\n" ++ ·)

mutual

/-- The pieces of the text of a value at a depth of nesting. -/
def pieces (depth : Nat) : Json → List String
  | null => ["null"]
  | bool value => [if value then "true" else "false"]
  | num mantissa places => [numText mantissa places]
  | str value => [strText value]
  | arr [] => ["[]"]
  | arr (item :: items) =>
    "[" :: newLine (depth + 1) :: (pieces (depth + 1) item ++
      (itemPieces (depth + 1) items ++ [newLine depth, "]"]))
  | obj [] => ["\x7b\x7d"]
  | obj ((key, value) :: fields) =>
    "\x7b" :: newLine (depth + 1) :: strText key :: ": " :: (pieces (depth + 1) value ++
      (fieldPieces (depth + 1) fields ++ [newLine depth, "\x7d"]))

def itemPieces (depth : Nat) : List Json → List String
  | [] => []
  | item :: items => "," :: newLine depth :: (pieces depth item ++ itemPieces depth items)

def fieldPieces (depth : Nat) : List (String × Json) → List String
  | [] => []
  | (key, value) :: fields =>
    "," :: newLine depth :: strText key :: ": " :: (pieces depth value ++ fieldPieces depth fields)

end

def text (j : Json) : String :=
  String.join (pieces 0 j)

end RegisterLang.Json
