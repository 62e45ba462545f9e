import RegisterLang.Machine.Value

/-! # The outcome of a comparison -/

namespace RegisterLang

/-- What the last comparison found. All flags are clear when the operands cannot be ordered. -/
structure Flags where
  zero : Bool
  equal : Bool
  less : Bool
  greater : Bool
  deriving DecidableEq, Repr, Inhabited

namespace Flags

def clear : Flags :=
  ⟨false, false, false, false⟩

def ofOrdering : Option Ordering → Flags
  | some .eq => ⟨true, true, false, false⟩
  | some .lt => ⟨false, false, true, false⟩
  | some .gt => ⟨false, false, false, true⟩
  | none => clear

def compare (kind : NumKind) (a b : Value) : Flags :=
  ofOrdering <|
    match kind with
    | .signed => some (Ord.compare a.signed b.signed)
    | .unsigned => some (Ord.compare a.toNat b.toNat)
    | .float => Binary64.compare? a b

def holds (f : Flags) : Condition → Bool
  | .always => true
  | .eq => f.equal
  | .ne => !f.equal
  | .lt => f.less
  | .ge => f.greater || f.equal
  | .gt => f.greater
  | .le => f.less || f.equal

end Flags

end RegisterLang
