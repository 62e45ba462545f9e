/-! # Hexadecimal text -/

namespace RegisterLang.Hex

def digits (n : Nat) : String :=
  String.ofList (Nat.toDigits 16 n)

/-- The hexadecimal digits of a number, filled up with zeros to at least `width` digits. -/
def padded (width n : Nat) : String :=
  let text := Nat.toDigits 16 n
  String.ofList (List.replicate (width - text.length) '0' ++ text)

def bytes (bs : List UInt8) : String :=
  bs.foldl (fun text b => text ++ padded 2 b.toNat) ""

end RegisterLang.Hex
