import RegisterLang.Proofs.Emits
import RegisterLang.Proofs.Pool
import RegisterLang.Proofs.Simulation
import RegisterLang.Proofs.Tables

/-! # Where values are

The value of an expression stays in its place until an instruction needs it. It is still there as long as
the registers in use, the stack and, for a global, the globals are left alone.
-/

namespace RegisterLang

namespace Machine

variable {σ : Type}

/-- Code that leaves the stack and the registers of a pool alone. It may have called functions. -/
structure Keeps (p : RegisterPool) (c c' : Core σ) : Prop where
  stack : c'.stack = c.stack
  regs : ∀ q, p.isAllocated q = true → c'.reg q = c.reg q
  globals : c'.globals.size = c.globals.size

/-- Code that only writes flags and registers outside of a pool. -/
structure Still (p : RegisterPool) (c c' : Core σ) : Prop where
  stack : c'.stack = c.stack
  arrays : c'.arrays = c.arrays
  globals : c'.globals = c.globals
  world : c'.world = c.world
  regs : ∀ q, p.isAllocated q = true → c'.reg q = c.reg q

/-- Code that only writes one register. -/
structure Sets (r : UInt8) (v : Value) (c c' : Core σ) : Prop where
  stack : c'.stack = c.stack
  arrays : c'.arrays = c.arrays
  globals : c'.globals = c.globals
  world : c'.world = c.world
  value : c'.reg r = v
  others : ∀ q, q.toNat < registerCount → q ≠ r → c'.reg q = c.reg q

namespace Keeps

variable {p p' : RegisterPool} {c c' c'' : Core σ}

theorem refl (p : RegisterPool) (c : Core σ) : Keeps p c c :=
  ⟨rfl, fun _ _ => rfl, rfl⟩

theorem trans (first : Keeps p c c') (second : Keeps p c' c'') : Keeps p c c'' :=
  ⟨second.stack.trans first.stack,
    fun q used => (second.regs q used).trans (first.regs q used),
    second.globals.trans first.globals⟩

theorem mono (keeps : Keeps p' c c') (le : p ≤ p') : Keeps p c c' :=
  ⟨keeps.stack, fun q used => keeps.regs q (le q used), keeps.globals⟩

end Keeps

namespace Still

variable {p p' : RegisterPool} {c c' c'' : Core σ}

theorem refl (p : RegisterPool) (c : Core σ) : Still p c c :=
  ⟨rfl, rfl, rfl, rfl, fun _ _ => rfl⟩

theorem trans (first : Still p c c') (second : Still p c' c'') : Still p c c'' :=
  ⟨second.stack.trans first.stack, second.arrays.trans first.arrays,
    second.globals.trans first.globals, second.world.trans first.world,
    fun q used => (second.regs q used).trans (first.regs q used)⟩

theorem mono (still : Still p' c c') (le : p ≤ p') : Still p c c' :=
  ⟨still.stack, still.arrays, still.globals, still.world, fun q used => still.regs q (le q used)⟩

theorem keeps (still : Still p c c') : Keeps p c c' :=
  ⟨still.stack, still.regs, congrArg Array.size still.globals⟩

theorem store {ω : Type} {l : Link σ ω} (still : Still p c c') : l.store c' = l.store c := by
  rw [Link.store, Link.store, still.globals, still.arrays, still.world]

theorem setFlags (p : RegisterPool) (c : Core σ) (flags : Flags) : Still p c { c with flags } :=
  ⟨rfl, rfl, rfl, rfl, fun _ _ => rfl⟩

end Still

namespace Sets

variable {p : RegisterPool} {r : UInt8} {v w : Value} {c c' c'' : Core σ}

theorem setReg (c : Core σ) (v : Value) (small : r.toNat < registerCount) : Sets r v c (c.setReg r v) :=
  ⟨rfl, rfl, rfl, rfl, c.reg_setReg_self r v,
    fun _ q_small apart => c.reg_setReg_of_ne v small q_small apart⟩

theorem still (sets : Sets r v c c') (spare : p.isAllocated r = false) : Still p c c' := by
  refine ⟨sets.stack, sets.arrays, sets.globals, sets.world, fun q used => ?_⟩
  refine sets.others q (RegisterPool.lt_of_isAllocated used) ?_
  rintro rfl
  rw [spare] at used
  cases used

end Sets

end Machine

namespace Emission

open Machine

variable {σ : Type}

namespace Body

/-- The number of the next operation. -/
def pos (b : Body) : Nat :=
  b.code.ops.size

end Body

/-- Emission that adds plain code only. -/
structure Steady (b b' : Body) : Prop where
  locals : b'.locals = b.locals
  localReserve : b'.localReserve = b.localReserve
  endJumps : b'.endJumps = b.endJumps
  isFinished : b'.isFinished = b.isFinished
  code : b.code.Grows b'.code
  table : Strings.Grows b.strings.table b'.strings.table

namespace Steady

theorem refl (b : Body) : Steady b b :=
  ⟨rfl, rfl, rfl, rfl, .refl _, .refl _⟩

theorem trans {b b' b'' : Body} (first : Steady b b') (second : Steady b' b'') : Steady b b'' :=
  ⟨second.locals.trans first.locals, second.localReserve.trans first.localReserve,
    second.endJumps.trans first.endJumps, second.isFinished.trans first.isFinished,
    first.code.trans second.code, first.table.trans second.table⟩

theorem setPool (b : Body) (pool : RegisterPool) : Steady b { b with pool } :=
  ⟨rfl, rfl, rfl, rfl, .refl _, .refl _⟩

theorem setCode {b : Body} {code : CodeBuffer} (grows : b.code.Grows code) : Steady b { b with code } :=
  ⟨rfl, rfl, rfl, rfl, grows, .refl _⟩

end Steady

/-- The registers that a value is in are in use. -/
def Placed (b : Body) (v : Lowered) : Prop :=
  ∀ r, v.place = .temporary r ∨ v.place = .home r → b.pool.isAllocated r = true

/-- The register that a value owns is not one of the pool. -/
def Spare (p : RegisterPool) (v : Lowered) : Prop :=
  ∀ r, v.place = .temporary r → p.isAllocated r = false

theorem Placed.mono {b b' : Body} {v : Lowered} (placed : Placed b v) (le : b.pool ≤ b'.pool) : Placed b' v :=
  fun r here => le r (placed r here)

theorem Spare.mono {p p' : RegisterPool} {v : Lowered} (spare : Spare p' v) (le : p ≤ p') : Spare p v :=
  fun r here => RegisterPool.isAllocated_eq_false_of_le le (spare r here)

/-- The value that bits in the code stand for: the address of a string, else the bits themselves. -/
def ConstantIs (image : Image) (bits : UInt64) (ty : Ty) (x : Value) : Prop :=
  if ty.isConstString then
    bits.toUInt32.toNat < image.strings.size ∧ x = image.address bits.toUInt32.toNat
  else x = bits

/-- The value of an expression is `x`, read from its place. -/
def Lowered.Holds (a : Activation σ) (c : Core σ) (v : Lowered) (x : Value) : Prop :=
  match v.place with
  | .temporary r | .home r => c.reg r = x
  | .slot k => c.stack[a.frame.base + k.toNat]? = some x
  | .global i => c.globals[i.toNat]? = some x
  | .constant bits => ConstantIs a.env.image bits v.ty x
  | .failed | .nothing | .flags => False

/-- A value is still in its place after code that leaves the registers in use alone. -/
theorem Lowered.Holds.keeps {a : Activation σ} {b : Body} {v : Lowered} {x : Value} {c c' : Core σ}
    (holds : v.Holds a c x) (placed : Placed b v) (keeps : Keeps b.pool c c')
    (globals : ∀ i, v.place = .global i → c'.globals = c.globals) : v.Holds a c' x := by
  unfold Lowered.Holds at holds ⊢
  split at holds
  · next r here => exact (keeps.regs r (placed r (.inl here))).trans holds
  · next r here => exact (keeps.regs r (placed r (.inr here))).trans holds
  · rw [keeps.stack]
    exact holds
  · next i here =>
    rw [globals i here]
    exact holds
  · exact holds
  · exact holds
  · exact holds
  · exact holds

theorem Lowered.Holds.still {a : Activation σ} {b : Body} {v : Lowered} {x : Value} {c c' : Core σ}
    (holds : v.Holds a c x) (placed : Placed b v) (still : Still b.pool c c') : v.Holds a c' x :=
  holds.keeps placed still.keeps fun _ _ => still.globals

end Emission

end RegisterLang
