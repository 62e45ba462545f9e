/-! # The pool of registers

Register zero carries results and is never handed out. The other fifteen are handed out lowest first;
there is no spilling, so the pool can run dry.
-/

namespace RegisterLang

def registerCount : Nat := 16

theorem toNat_mod_lt (r : UInt8) : r.toNat % registerCount < registerCount :=
  Nat.mod_lt _ (by decide)

def returnReg : UInt8 := 0

/-- Which registers are in use. -/
structure RegisterPool where
  taken : Vector Bool registerCount
  deriving DecidableEq, Repr

namespace RegisterPool

def empty : RegisterPool :=
  ⟨Vector.replicate registerCount false⟩

instance : Inhabited RegisterPool := ⟨empty⟩

def isAllocated (p : RegisterPool) (reg : UInt8) : Bool :=
  p.taken[reg.toNat]?.getD false

def mark (p : RegisterPool) (reg : UInt8) (inUse : Bool) : RegisterPool :=
  ⟨p.taken.setIfInBounds reg.toNat inUse⟩

/-- All registers that can be handed out, lowest first. -/
def candidates : List UInt8 :=
  [1, 2, 3, 4, 5, 6, 7, 8, 9, 10, 11, 12, 13, 14, 15]

def allocate? (p : RegisterPool) : Option (UInt8 × RegisterPool) :=
  (candidates.find? fun reg => !p.isAllocated reg).map fun reg => (reg, p.mark reg true)

/-- Take a given register, if it can be handed out and is free. -/
def reserve? (p : RegisterPool) (reg : UInt8) : Option RegisterPool :=
  if candidates.contains reg && !p.isAllocated reg then some (p.mark reg true) else none

def free (p : RegisterPool) (reg : UInt8) : RegisterPool :=
  p.mark reg false

def allocated (p : RegisterPool) : List UInt8 :=
  (0 :: candidates).filter p.isAllocated

def inUse (p : RegisterPool) : Nat :=
  p.allocated.length

def available (p : RegisterPool) : Nat :=
  registerCount - 1 - p.inUse

end RegisterPool

end RegisterLang
