import RegisterLang.CodeBuffer
import RegisterLang.EmissionError
import RegisterLang.Instruction.Codec

/-! # Laying out jumps

A jump takes two bytes when the code it skips is at most 255 bytes long, else three. Every jump starts
short; those that turn out too long are widened, which may push others over the limit, until nothing
changes. What widens only ever moves later code further away, so the outcome is the shortest layout.
-/

namespace RegisterLang

/-- An instruction, or a jump to the operation with a given number. -/
inductive ResolvedOp where
  | plain (i : Instruction)
  | jump (cond : Condition) (target : Nat)
  deriving DecidableEq, Repr, Inhabited

structure FinishedCode where
  bytes : List UInt8
  shortJumps : Nat
  wideJumps : Nat
  deriving DecidableEq, Repr, Inhabited

namespace FinishedCode

def allWideSize (f : FinishedCode) : Nat :=
  f.bytes.length + f.shortJumps

end FinishedCode

namespace Layout

def jumpLength (wide : Bool) : Nat :=
  if wide then 3 else 2

def shortLimit : Nat := 255

def wideLimit : Nat := 65535

def opLength (op : ResolvedOp) (wide : Bool) : Nat :=
  match op with
  | .plain i => i.length
  | .jump _ _ => jumpLength wide

/-- Where each operation starts when the given ones are wide, and where the code ends. -/
def addresses (ops : List ResolvedOp) (wide : List Bool) : Array Nat :=
  let (starts, stop) := (ops.zip wide).foldl
    (fun (starts, here) (op, w) => (Array.push starts here, here + opLength op w)) (#[], 0)
  starts.push stop

def distance (addrs : Array Nat) (i target : Nat) (wide : Bool) : Nat :=
  addrs.getD target 0 - (addrs.getD i 0 + jumpLength wide)

/-- Whether operation `i` has to be wide, by the addresses of the last round. -/
def mustWiden (addrs : Array Nat) (i : Nat) (op : ResolvedOp) (wide : Bool) : Bool :=
  match op with
  | .plain _ => wide
  | .jump _ target => wide || shortLimit < distance addrs i target false

def widen (ops : List ResolvedOp) (wide : List Bool) : List Bool :=
  let addrs := addresses ops wide
  (ops.zip wide).mapIdx fun i (op, w) => mustWiden addrs i op w

/-- Widen until nothing changes. A round that changes something widens a jump, so there are at most as
many such rounds as operations. -/
def settleWithin (ops : List ResolvedOp) : List Bool → List Bool → List Bool
  | [], wide => wide
  | _ :: bound, wide =>
    let wider := widen ops wide
    if wider = wide then wide else settleWithin ops bound wider

def settle (ops : List ResolvedOp) : List Bool :=
  let narrow := List.replicate ops.length false
  settleWithin ops narrow narrow

def instruction (addrs : Array Nat) (i : Nat) (op : ResolvedOp) (wide : Bool) :
    Except EmissionError Instruction :=
  match op with
  | .plain insn => .ok insn
  | .jump cond target =>
    let n := distance addrs i target wide
    if wide then
      if n ≤ wideLimit then .ok (.jump16 cond (UInt16.ofNat n)) else .error (.jumpTooLong n)
    else .ok (.jump8 cond (UInt8.ofNat n))

def isJump : ResolvedOp → Bool
  | .plain _ => false
  | .jump _ _ => true

/-- Lay out operations whose jumps all go forward. -/
def assemble (ops : List ResolvedOp) : Except EmissionError FinishedCode := do
  let wide := settle ops
  let addrs := addresses ops wide
  let insns ← ((ops.zip wide).zipIdx).mapM fun ((op, w), i) => instruction addrs i op w
  return {
    bytes := insns.flatMap Instruction.encode
    shortJumps := (ops.zip wide).countP fun (op, w) => isJump op && !w
    wideJumps := (ops.zip wide).countP fun (op, w) => isJump op && w }

end Layout

namespace CodeBuffer

/-- Replace the label of an operation by the number of the operation it stands before. -/
def resolve (c : CodeBuffer) : Op → Except EmissionError ResolvedOp
  | .plain i => .ok (.plain i)
  | .jump cond label =>
    match c.target? label with
    | some target => .ok (.jump cond target)
    | none => .error (.internal (.labelUnbound label.index))

def backwardJump? (ops : List ResolvedOp) : Option Nat :=
  ops.zipIdx.findSome? fun (op, i) =>
    match op with
    | .jump _ target => if target ≤ i then some i else none
    | .plain _ => none

/-- Lay out a body. Every label in use has to be bound, and bound after its jumps. -/
def finish (c : CodeBuffer) : Except EmissionError FinishedCode := do
  let ops ← c.ops.toList.mapM c.resolve
  if let some i := backwardJump? ops then throw (.internal (.backwardJump i))
  Layout.assemble ops

end CodeBuffer

end RegisterLang
