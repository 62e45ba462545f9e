import RegisterLang.Instruction

/-! # Code with symbolic jumps

While a function body is built, a jump names a label instead of an offset. A label is bound to the place
before the next instruction; binding it again moves it.
-/

namespace RegisterLang

structure Label where
  index : Nat
  deriving DecidableEq, Repr, Inhabited

/-- An instruction, or a jump whose distance is not known yet. -/
inductive Op where
  | plain (i : Instruction)
  | jump (cond : Condition) (label : Label)
  deriving DecidableEq, Repr, Inhabited

/-- Code under construction, whose jumps name labels. -/
structure CodeBuffer where
  ops : Array Op
  /-- For each label the number of the operation it stands before, once it is bound. -/
  labels : Array (Option Nat)
  deriving DecidableEq, Repr, Inhabited

namespace CodeBuffer

def empty : CodeBuffer :=
  ⟨#[], #[]⟩

def isEmpty (c : CodeBuffer) : Bool :=
  c.ops.isEmpty

def emit (c : CodeBuffer) (i : Instruction) : CodeBuffer :=
  { c with ops := c.ops.push (.plain i) }

def jump (c : CodeBuffer) (cond : Condition) (label : Label) : CodeBuffer :=
  { c with ops := c.ops.push (.jump cond label) }

def newLabel (c : CodeBuffer) : Label × CodeBuffer :=
  (⟨c.labels.size⟩, { c with labels := c.labels.push none })

/-- Bind a label to the next operation. A label of another buffer is left alone. -/
def bind (c : CodeBuffer) (label : Label) : CodeBuffer :=
  { c with labels := c.labels.setIfInBounds label.index (some c.ops.size) }

def target? (c : CodeBuffer) (label : Label) : Option Nat :=
  c.labels[label.index]?.join

def last? (c : CodeBuffer) : Option Instruction :=
  match c.ops.back? with
  | some (.plain i) => some i
  | _ => none

end CodeBuffer

end RegisterLang
