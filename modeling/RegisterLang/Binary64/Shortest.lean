import RegisterLang.Binary64.Basic

/-! # The shortest decimal that reads back

A positive number is written with the fewest decimal digits that still round to it. For each number of
digits from one to seventeen the two neighbours on that decimal grid are tried; the first grid with a hit
wins, the nearer neighbour goes first, and an exact tie goes to the larger one.
-/

namespace RegisterLang.Binary64

/-- A positive decimal number, `digits * 10 ^ scale`. -/
structure Decimal where
  digits : Nat
  scale : Int
  deriving DecidableEq, Repr, Inhabited

/-- Quarters of the last bit: a number and the ends of the interval of reals that round to it, all to
be multiplied by `2 ^ power`. -/
structure Rounding where
  value : Nat
  low : Nat
  high : Nat
  power : Int
  /-- Whether the ends belong to the interval. -/
  closed : Bool

namespace Rounding

def ofBits (bits : UInt64) : Rounding :=
  let m := significand bits
  let narrow := m = fractions && -1074 < exponent bits
  { value := 4 * m
    low := if narrow then 4 * m - 1 else 4 * m - 2
    high := 4 * m + 2
    power := exponent bits - 2
    closed := m % 2 = 0 }

/-- The size of `x` quarters, multiplied by `10 ^ (-scale)`, as a fraction. -/
def fraction (r : Rounding) (scale : Int) (x : Nat) : Nat × Nat :=
  ((x <<< r.power.toNat) * Nat.pow 10 (-scale).toNat, Nat.pow 10 scale.toNat <<< (-r.power).toNat)

/-- Whether `digits * 10 ^ scale` rounds to the number. -/
def holds (r : Rounding) (scale : Int) (digits : Nat) : Bool :=
  let (low, den) := r.fraction scale r.low
  let (high, _) := r.fraction scale r.high
  if r.closed then low ≤ digits * den && digits * den ≤ high
  else low < digits * den && digits * den < high

/-- The best multiple of `10 ^ scale` that rounds to the number. -/
def onGrid? (r : Rounding) (scale : Int) : Option Nat :=
  let (num, den) := r.fraction scale r.value
  let floor := num / den
  let lowerFirst := 2 * (num % den) < den
  let candidates := if lowerFirst then [floor, floor + 1] else [floor + 1, floor]
  candidates.find? fun digits => 0 < digits && r.holds scale digits

def reaches (r : Rounding) (scale : Int) : Bool :=
  let (num, den) := r.fraction scale r.value
  den ≤ num

/-- The least power of ten above the number, from a guess that is too small by at most `steps`. -/
def magnitude10 (r : Rounding) : Nat → Int → Int
  | 0, guess => guess
  | steps + 1, guess => if r.reaches guess then r.magnitude10 steps (guess + 1) else guess

end Rounding

/-- A decimal without trailing zeros; `steps` bounds how many are dropped. -/
def Decimal.trim : Nat → Decimal → Decimal
  | 0, d => d
  | steps + 1, d =>
    if d.digits % 10 = 0 then trim steps ⟨d.digits / 10, d.scale + 1⟩ else d

def shortest (bits : UInt64) : Decimal :=
  let r := Rounding.ofBits bits
  let guess : Int := ((Nat.log2 r.value : Int) + r.power) * 30103 / 100000
  let top := r.magnitude10 4 (guess - 1)
  let found := (List.range 17).findSome? fun (n : Nat) =>
    (r.onGrid? (top - 1 - n)).map fun digits => (⟨digits, top - 1 - n⟩ : Decimal)
  (found.getD ⟨significand bits, 0⟩).trim 20

end RegisterLang.Binary64
