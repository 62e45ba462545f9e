/-! # Binary floating-point numbers by their bits

A number of sixty-four bits has a sign, an exponent of eleven bits and a fraction of fifty-two. Its
size is a whole number times a power of two. Everything here works on the bits, so that each rule can be
reasoned about with whole numbers; the order is the usual one, in which zeros of both signs are equal
and a NaN is not comparable to anything.
-/

namespace RegisterLang.Binary64

def signBit : UInt64 := 0x8000000000000000

/-- The bits of positive infinity; larger sizes are not numbers. -/
def infinity : Nat := 0x7FF0000000000000

/-- The number of fractions that go with one exponent. -/
def fractions : Nat := 0x10000000000000

def magnitude (bits : UInt64) : Nat :=
  bits.toNat % signBit.toNat

def isNegative (bits : UInt64) : Bool :=
  signBit.toNat ≤ bits.toNat

def isNaN (bits : UInt64) : Bool :=
  infinity < magnitude bits

def isInfinite (bits : UInt64) : Bool :=
  magnitude bits = infinity

def isZero (bits : UInt64) : Bool :=
  magnitude bits = 0

def negate (bits : UInt64) : UInt64 :=
  bits ^^^ signBit

/-- A whole number that grows with the number the bits stand for. -/
def rank (bits : UInt64) : Int :=
  if isNegative bits then -(magnitude bits : Int) else magnitude bits

/-- How two numbers compare; none when one of them is a NaN. -/
def compare? (a b : UInt64) : Option Ordering :=
  if isNaN a || isNaN b then none else some (compare (rank a) (rank b))

/-- A finite size is `significand bits * 2 ^ (exponent bits)`. -/
def significand (bits : UInt64) : Nat :=
  if magnitude bits / fractions = 0 then magnitude bits
  else magnitude bits % fractions + fractions

def exponent (bits : UInt64) : Int :=
  (max (magnitude bits / fractions) 1 : Nat) - 1075

/-- The sum, difference, product and quotient as the hardware rounds them. -/
def add (a b : UInt64) : UInt64 := (Float.ofBits a + Float.ofBits b).toBits

@[inherit_doc add]
def sub (a b : UInt64) : UInt64 := (Float.ofBits a - Float.ofBits b).toBits

@[inherit_doc add]
def mul (a b : UInt64) : UInt64 := (Float.ofBits a * Float.ofBits b).toBits

@[inherit_doc add]
def div (a b : UInt64) : UInt64 := (Float.ofBits a / Float.ofBits b).toBits

end RegisterLang.Binary64
