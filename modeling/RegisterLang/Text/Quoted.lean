import RegisterLang.Bytes.Hex
import RegisterLang.Text.Invisible

/-! # Quoted text

A quoted text stands between double quotes. Quotes, backslashes and the common control characters are
written with a backslash, and every other invisible character as `\\u` with its code point.
-/

namespace RegisterLang.Text

def quotedChar (c : Char) : String :=
  match c with
  | '\x00' => "\\0"
  | '\t' => "\\t"
  | '\r' => "\\r"
  | '\n' => "\\n"
  | '\"' => "\\\""
  | '\\' => "\\\\"
  | c => if isInvisible c then "\\u\x7b" ++ Hex.digits c.toNat ++ "\x7d" else c.toString

def quoted (text : String) : String :=
  text.foldl (fun out c => out ++ quotedChar c) "\"" ++ "\""

end RegisterLang.Text
