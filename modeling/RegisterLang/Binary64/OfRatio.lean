import RegisterLang.Binary64.Basic

/-! # The nearest binary number to a fraction

A fraction is scaled by a power of two so that its whole part has fifty-three bits, or as many as the
smallest numbers allow, and that part is rounded to the nearest, a half to the even neighbour.
-/

namespace RegisterLang.Binary64

/-- The quotient rounded to the nearest whole number, a half to the even one. -/
def roundDiv (num den : Nat) : Nat :=
  let q := num / den
  let r := 2 * (num % den)
  if den < r || (r = den && q % 2 = 1) then q + 1 else q

def atLeastPow (num den : Nat) (e : Int) : Bool :=
  den <<< e.toNat ≤ num <<< (-e).toNat

/-- The largest power of two that a positive fraction reaches. -/
def floorLog2 (num den : Nat) : Int :=
  let guess : Int := (Nat.log2 num : Int) - Nat.log2 den
  if atLeastPow num den guess then guess else guess - 1

/-- The number nearest to `num / den`, or infinity when that is too large. -/
def ofRatio (num den : Nat) : UInt64 :=
  if num = 0 then 0
  else
    let e : Int := max (floorLog2 num den - 52) (-1074)
    let m := roundDiv (num <<< (-e).toNat) (den <<< e.toNat)
    UInt64.ofNat (min ((e + 1074).toNat * fractions + m) infinity)

/-- The number nearest to `digits * 10 ^ (-places)`. -/
def ofDecimal (digits places : Nat) : UInt64 :=
  ofRatio digits (Nat.pow 10 places)

end RegisterLang.Binary64
