import RegisterLang.Binary64.Shortest

/-! # The texts of a binary number

The plain text never has an exponent. The listing text always shows that the number is not a whole
number, by a point or an exponent, and has an exponent for sizes from ten to the sixteenth on and for
sizes below one ten-thousandth.
-/

namespace RegisterLang.Binary64

def Decimal.positional (d : Decimal) : String :=
  let ds := Nat.toDigits 10 d.digits
  if 0 ≤ d.scale then String.ofList (ds ++ List.replicate d.scale.toNat '0')
  else
    let places := (-d.scale).toNat
    let filled := List.replicate (places + 1 - ds.length) '0' ++ ds
    let whole := filled.length - places
    String.ofList (filled.take whole ++ '.' :: filled.drop whole)

/-- A decimal written with one digit before the point and a power of ten. -/
def Decimal.scientific (d : Decimal) : String :=
  match Nat.toDigits 10 d.digits with
  | [] => ""
  | first :: rest =>
    let fraction := if rest.isEmpty then [] else '.' :: rest
    String.ofList (first :: fraction) ++ s!"e{d.scale + rest.length}"

def Decimal.leading (d : Decimal) : Int :=
  d.scale + (Nat.toDigits 10 d.digits).length - 1

/-- The text of a number whose positive finite sizes are written by `write`, and zero as `zero`. -/
def textWith (write : Decimal → String) (zero : String) (bits : UInt64) : String :=
  if isNaN bits then "NaN"
  else
    (if isNegative bits then "-" else "") ++
      if isInfinite bits then "inf"
      else if isZero bits then zero
      else write (shortest bits)

/-- The plain text, as error messages and token texts show it. -/
def plainText (bits : UInt64) : String :=
  textWith Decimal.positional "0" bits

def listingText (bits : UInt64) : String :=
  textWith (fun d =>
    if d.leading < -4 || 16 ≤ d.leading then d.scientific
    else if 0 ≤ d.scale then d.positional ++ ".0"
    else d.positional) "0.0" bits

end RegisterLang.Binary64
