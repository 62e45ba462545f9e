import RegisterLang.Proofs.Operands
import RegisterLang.Proofs.Reading

/-! # A function body beside its meaning

The locals of a body live in slots and registers of their own. While the code of the body runs, what is
stored there is what evaluation has stored in the locals; a slot that nothing was stored in is zero.
-/

namespace RegisterLang

open Machine Evaluation

namespace Emission

variable {σ ω : Type}

/-! ## Bodies that grow -/

/-- Two states of a local that differ only in whether a value was stored in it. -/
structure Local.Same (l l' : Local) : Prop where
  ty : l'.ty = l.ty
  storage : l'.storage = l.storage
  isParam : l'.isParam = l.isParam

theorem Local.Same.refl (l : Local) : l.Same l :=
  ⟨rfl, rfl, rfl⟩

theorem Local.Same.trans {l l' l'' : Local} (first : l.Same l') (second : l'.Same l'') : l.Same l'' :=
  ⟨second.ty.trans first.ty, second.storage.trans first.storage, second.isParam.trans first.isParam⟩

/-- Every local has a slot or a register of its own. -/
structure Tidy (scope : Scope) (b : Body) : Prop where
  slot : ∀ x l k, b.locals.lookup? x = some l → l.storage = .stack k → k.toNat < scope.stackArgs + b.localReserve
  home : ∀ x l r, b.locals.lookup? x = some l → l.storage = .register r → b.pool.isAllocated r = true
  apart : ∀ x y l l', b.locals.lookup? x = some l → b.locals.lookup? y = some l' → l'.storage = l.storage → y = x
  small : scope.stackArgs + b.localReserve ≤ 65536
  few : b.localReserve ≤ 65535

/-- Emission goes on from one body to another; registers may be given back. Locals do not hide globals and
constants. -/
structure Precedes (scope : Scope) (b b' : Body) : Prop where
  code : b.code.Within b'.code
  table : Strings.Grows b.strings.table b'.strings.table
  reserve : b.localReserve ≤ b'.localReserve
  jumps : b.endJumps ≤ b'.endJumps
  kept : ∀ x l, b.locals.lookup? x = some l → ∃ l', b'.locals.lookup? x = some l' ∧ l.Same l'
  new : ∀ x l, b.locals.lookup? x = none → b'.locals.lookup? x = some l →
    scope.decls.globals.lookup? x = none ∧ scope.decls.consts.lookup? x = none

namespace Precedes

variable {scope : Scope} {b b' b'' : Body}

theorem of_steady (steady : Steady b b') : Precedes scope b b' where
  code := steady.code.within
  table := steady.table
  reserve := Nat.le_of_eq steady.localReserve.symm
  jumps := Nat.le_of_eq steady.endJumps.symm
  kept x l found := ⟨l, by rw [steady.locals]; exact found, .refl l⟩
  new x l missing found := by
    rw [steady.locals, missing] at found
    cases found

theorem trans (first : Precedes scope b b') (second : Precedes scope b' b'') : Precedes scope b b'' where
  code := first.code.trans second.code
  table := first.table.trans second.table
  reserve := Nat.le_trans first.reserve second.reserve
  jumps := Nat.le_trans first.jumps second.jumps
  kept x l found := by
    obtain ⟨l', found', same⟩ := first.kept x l found
    obtain ⟨l'', found'', same'⟩ := second.kept x l' found'
    exact ⟨l'', found'', same.trans same'⟩
  new x l missing found := by
    cases found' : b'.locals.lookup? x with
    | some l' => exact first.new x l' missing found'
    | none => exact second.new x l found' found

end Precedes

theorem Sees.back {m : Meaning ω} {scope : Scope} {b b' : Body} (sees : Sees m scope b'.locals)
    (grown : Precedes scope b b') : Sees m scope b.locals where
  local_some x l found := by
    obtain ⟨l', found', same⟩ := grown.kept x l found
    rw [sees.local_some x l' found', same.ty]
  local_none x missing outer := by
    cases found : b'.locals.lookup? x with
    | none => exact sees.local_none x found outer
    | some l =>
      obtain ⟨no_global, no_const⟩ := grown.new x l missing found
      exact outer.elim (absurd no_global) (absurd no_const)
  global_some := sees.global_some
  global_none := sees.global_none
  const_eq := sees.const_eq
  function_some := sees.function_some

/-- A name that no array has: a local of another kind has it, or a global, which no local hides. -/
inductive Scalar (scope : Scope) (b : Body) (x : String) : Prop where
  | ofLocal {l : Local} (found : b.locals.lookup? x = some l) (other : l.ty.isArray = false)
  | ofGlobal (missing : b.locals.lookup? x = none) (outside : scope.decls.globals.lookup? x ≠ none)

namespace Scalar

variable {scope : Scope} {b b' : Body} {x : String}

theorem mono (scalar : Scalar scope b x) (rest : Precedes scope b b') : Scalar scope b' x := by
  cases scalar with
  | ofLocal found other =>
    obtain ⟨l', found', same⟩ := rest.kept x _ found
    exact .ofLocal found' (same.ty ▸ other)
  | ofGlobal missing outside =>
    cases found : b'.locals.lookup? x with
    | some l => exact absurd (rest.new x l missing found).1 outside
    | none => exact .ofGlobal found outside

theorem isArray (scalar : Scalar scope b x) {l : Local} (found : b.locals.lookup? x = some l) :
    l.ty.isArray = false := by
  cases scalar with
  | ofLocal found' other =>
    cases found.symm.trans found'
    exact other
  | ofGlobal missing _ =>
    rw [missing] at found
    cases found

end Scalar

/-- A local that was declared after `b`: only some of those that are not arrays live in registers. -/
structure Newcomer (scope : Scope) (b : Body) (l : Local) : Prop where
  own : l.isParam = false
  slot : ∀ k, l.storage = .stack k → scope.stackArgs + b.localReserve ≤ k.toNat
  home : ∀ r, l.storage = .register r →
    b.pool.isAllocated r = false ∧ scope.settings.optLevel = .fast ∧ l.ty.isArray = false

/-- Whole statements were emitted between one body and another. -/
structure Extends (scope : Scope) (b b' : Body) : Prop extends Precedes scope b b' where
  pool : b.pool ≤ b'.pool
  newcomer : ∀ x l, b.locals.lookup? x = none → b'.locals.lookup? x = some l → Newcomer scope b l

namespace Extends

variable {scope : Scope} {b b' b'' : Body}

theorem of_steady (steady : Steady b b') (pool : b.pool ≤ b'.pool) : Extends scope b b' where
  toPrecedes := .of_steady steady
  pool := pool
  newcomer x l missing found := by
    rw [steady.locals, missing] at found
    cases found

theorem refl (scope : Scope) (b : Body) : Extends scope b b :=
  .of_steady (.refl b) le_rfl

theorem trans (first : Extends scope b b') (second : Extends scope b' b'') : Extends scope b b'' where
  toPrecedes := first.toPrecedes.trans second.toPrecedes
  pool := le_trans first.pool second.pool
  newcomer x l missing found := by
    cases found' : b'.locals.lookup? x with
    | some l' =>
      have newcomer := first.newcomer x l' missing found'
      obtain ⟨l2, found2, same⟩ := second.kept x l' found'
      cases found.symm.trans found2
      exact ⟨same.isParam.trans newcomer.own,
        fun k at_k => newcomer.slot k (same.storage.symm.trans at_k),
        fun r at_r => same.ty ▸ newcomer.home r (same.storage.symm.trans at_r)⟩
    | none =>
      have newcomer := second.newcomer x l found' found
      refine ⟨newcomer.own, fun k at_k => ?_, fun r at_r => ?_⟩
      · have := newcomer.slot k at_k
        have := first.reserve
        omega
      · obtain ⟨free, rest⟩ := newcomer.home r at_r
        exact ⟨RegisterPool.isAllocated_eq_false_of_le first.pool free, rest⟩

theorem absent (grown : Extends scope b b') {x : String}
    (missing : b'.locals.lookup? x = none) : b.locals.lookup? x = none := by
  cases found : b.locals.lookup? x with
  | none => rfl
  | some l =>
    obtain ⟨l', found', -⟩ := grown.kept x l found
    rw [missing] at found'
    cases found'

end Extends

theorem Tidy.steady {scope : Scope} {b b' : Body} (tidy : Tidy scope b) (steady : Steady b b')
    (pool : b.pool ≤ b'.pool) : Tidy scope b' where
  slot x l k found at_k := by
    rw [steady.localReserve]
    exact tidy.slot x l k (steady.locals ▸ found) at_k
  home x l r found at_r := pool r (tidy.home x l r (steady.locals ▸ found) at_r)
  apart x y l l' found found' same :=
    tidy.apart x y l l' (steady.locals ▸ found) (steady.locals ▸ found') same
  small := by
    rw [steady.localReserve]
    exact tidy.small
  few := by
    rw [steady.localReserve]
    exact tidy.few

/-- What holds of the globals and functions that a body can refer to. -/
structure Regular (scope : Scope) : Prop where
  scalar : ∀ x g, scope.decls.globals.lookup? x = some g → g.ty.isArray = false
  few : ∀ x f, scope.decls.functions.lookup? x = some f → f.registerArgs ≤ maxRegisterArgs

/-! ## Runs of a body -/

/-- Calling the function with an index does what evaluation says. The arguments that are not in registers
are on the stack, the last one deepest. -/
def Serves (l : Link σ ω) (invoke : Nat → List Value → Eval ω Value) (globals index : Nat)
    (f : Function) : Prop :=
  ∀ (s : State σ) (args : List Value) (below : Array Value), args.length = f.params.length →
    (∀ i v, i < f.registerArgs → args[i]? = some v → s.core.reg (UInt8.ofNat (i + 1)) = v) →
    s.stack = below ++ (args.drop f.registerArgs).reverse.toArray →
    s.globals.size = globals → s.arrays.Consistent →
    Limited l.code.env (l.code.callee (UInt32.ofNat index) s).1 ∨
    (∃ v s', l.code.callee (UInt32.ofNat index) s = ((.ok v, s'), none) ∧
      l.Gives s.core (invoke index args) (.ok v) s'.core ∧ s'.arrays.Consistent ∧
      s'.stack = below ∧ s'.core.reg returnReg = v ∧ s'.globals.size = s.globals.size) ∨
    ∃ t fault s' culprit, l.code.callee (UInt32.ofNat index) s = ((.error fault, s'), culprit) ∧
      fault.trap? = some t ∧ l.Gives s.core (invoke index args) (.error (.trap t)) s'.core ∧
      Spares culprit

/-- A run of the code of a body, beside the evaluation of the body. -/
structure Setting (σ ω : Type) where
  scope : Scope
  link : Link σ ω
  meaning : Meaning ω
  /-- The body when all statements were emitted. -/
  last : Body
  /-- What lies on the stack below the frame. -/
  below : Array Value

namespace Setting

variable (w : Setting σ ω)

/-- The names of a body mean what they stand for while it is emitted, and its code is laid out in full. -/
structure Sound : Prop where
  code : w.last.code.Within w.link.code.buffer
  frame : w.link.code.frame.localsEnd = w.link.code.frame.base + w.scope.stackArgs + w.last.localReserve
  stop : w.link.code.buffer.target? w.scope.endLabel = some w.last.pos
  tidy : Tidy w.scope w.last
  /-- When a return has ended the function by itself, no other one jumps to the end. -/
  finished : w.last.isFinished = true → w.last.endJumps = 0
  names : Sees w.meaning w.scope w.last.locals
  few : ∀ x i, w.scope.decls.globals.find? x = some i → i < 2 ^ 32
  const_string : ∀ x c, w.scope.decls.consts.lookup? x = some c → c.ty.isConstString = true →
    c.bits.toUInt32.toNat < w.link.code.env.image.strings.size ∧
      w.meaning.address c.bits.toUInt32.toNat = w.link.code.env.image.address c.bits.toUInt32.toNat
  serves : ∀ x i f, w.scope.decls.functions.find? x = some i → w.scope.decls.functions.lookup? x = some f →
    Serves w.link w.meaning.invoke w.scope.decls.globals.size i f
  text : ∀ t i, w.last.strings.table.findIdx? (· = t) = some i →
    w.meaning.text t = w.link.code.env.image.address i ∧ i < 2 ^ 32 ∧ i < w.link.code.env.image.strings.size
  unassigned : ∀ (c : Core σ) ty v,
    v = 0 ∨ w.scope.settings.optLevel = .fast ∧ ty.isArray = false →
      w.link.Gives c (w.meaning.unassigned ty) (.ok v) c
  quiet : ∀ ty store choices, (w.meaning.unassigned ty store choices).2.1 = store

/-- The slots of a run hold what evaluation has stored in the locals that live there. -/
structure Slots (b : Body) (locals : Locals) (c : Core σ) : Prop where
  high : w.link.code.frame.localsEnd ≤ c.stack.size
  below : ∀ i < w.link.code.frame.base, c.stack[i]? = w.below[i]?
  globals : c.globals.size = w.scope.decls.globals.size
  slot : ∀ x l k, b.locals.lookup? x = some l → l.storage = .stack k →
    c.stack[w.link.code.frame.base + k.toNat]? = some ((locals x).getD 0)
  fresh : ∀ x, b.locals.lookup? x = none → locals x = none
  zeros : ∀ k, w.scope.stackArgs + b.localReserve ≤ k →
    w.link.code.frame.base + k < w.link.code.frame.localsEnd →
    c.stack[w.link.code.frame.base + k]? = some 0

/-- The locals of a run hold what evaluation has stored in them. -/
structure Matches (b : Body) (locals : Locals) (c : Core σ) : Prop extends
    w.Slots b locals c where
  home : ∀ x l r v, b.locals.lookup? x = some l → l.storage = .register r → locals x = some v → c.reg r = v
  /-- Only a local that the fast level keeps in a register can be read before anything was stored in it
  and not be zero. -/
  assigned : ∀ x l r, b.locals.lookup? x = some l → l.storage = .register r → locals x = none →
    w.scope.settings.optLevel = .fast ∧ l.ty.isArray = false

variable {w}

theorem Sound.sees (sound : w.Sound) {b : Body} (rest : Precedes w.scope b w.last) :
    Sees w.meaning w.scope b.locals :=
  sound.names.back rest

namespace Slots

variable {b b' : Body} {locals : Locals} {c c' : Core σ}

section
variable (same : w.Slots b locals c)
include same

theorem of_stack (stack : c'.stack = c.stack) (globals : c'.globals.size = c.globals.size) :
    w.Slots b locals c' where
  high := by rw [stack]; exact same.high
  below := by rw [stack]; exact same.below
  globals := globals.trans same.globals
  slot := by rw [stack]; exact same.slot
  fresh := same.fresh
  zeros := by rw [stack]; exact same.zeros

theorem of_locals (equal : b'.locals = b.locals) (reserve : b'.localReserve = b.localReserve) :
    w.Slots b' locals c where
  high := same.high
  below := same.below
  globals := same.globals
  slot := by rw [equal]; exact same.slot
  fresh := by rw [equal]; exact same.fresh
  zeros := by rw [reserve]; exact same.zeros

theorem above (tidy : Tidy w.scope b) (sound : w.Sound)
    (high : w.link.code.frame.localsEnd ≤ c'.stack.size)
    (stack : ∀ i < w.link.code.frame.localsEnd, c'.stack[i]? = c.stack[i]?)
    (globals : c'.globals.size = c.globals.size) (rest : Precedes w.scope b w.last) : w.Slots b locals c' where
  high := high
  below i low := by
    have ends := sound.frame
    rw [stack i (by omega)]
    exact same.below i low
  globals := globals.trans same.globals
  slot x l k found at_k := by
    have inside := tidy.slot x l k found at_k
    have more := rest.reserve
    have ends := sound.frame
    rw [stack _ (by omega)]
    exact same.slot x l k found at_k
  fresh := same.fresh
  zeros k low inside := by
    rw [stack _ inside]
    exact same.zeros k low inside

/-- Locals that were declared in code that was not run are zero in their slots. -/
theorem skip (sound : w.Sound) (grown : Extends w.scope b b')
    (tidy : Tidy w.scope b') (rest : Precedes w.scope b' w.last) : w.Slots b' locals c where
  high := same.high
  below := same.below
  globals := same.globals
  slot x l k found at_k := by
    cases found' : b.locals.lookup? x with
    | some l' =>
      obtain ⟨l2, found2, kept⟩ := grown.kept x l' found'
      cases found.symm.trans found2
      exact same.slot x l' k found' (kept.storage.symm.trans at_k)
    | none =>
      have low := (grown.newcomer x l found' found).slot k at_k
      have high := tidy.slot x l k found at_k
      have more := rest.reserve
      have ends := sound.frame
      rw [same.fresh x found']
      exact same.zeros k.toNat low (by omega)
  fresh x missing := same.fresh x (grown.absent missing)
  zeros k low high := by
    have more := grown.reserve
    exact same.zeros k (by omega) high

end

end Slots

namespace Matches

variable {b b' : Body} {locals : Locals} {c c' : Core σ}

section
variable (same : w.Matches b locals c)
include same

/-- Code that leaves the registers in use and the stack alone leaves the locals alone. -/
theorem keeps (tidy : Tidy w.scope b) (keeps : Keeps b.pool c c') : w.Matches b locals c' where
  toSlots := same.toSlots.of_stack keeps.stack keeps.globals
  home x l r v found at_r stored :=
    (keeps.regs r (tidy.home x l r found at_r)).trans (same.home x l r v found at_r stored)
  assigned := same.assigned

theorem steady (steady : Steady b b') : w.Matches b' locals c where
  toSlots := same.toSlots.of_locals steady.locals steady.localReserve
  home := by rw [steady.locals]; exact same.home
  assigned := by rw [steady.locals]; exact same.assigned

theorem above (tidy : Tidy w.scope b) (sound : w.Sound)
    (high : w.link.code.frame.localsEnd ≤ c'.stack.size)
    (stack : ∀ i < w.link.code.frame.localsEnd, c'.stack[i]? = c.stack[i]?)
    (regs : ∀ q, b.pool.isAllocated q = true → c'.reg q = c.reg q)
    (globals : c'.globals.size = c.globals.size) (rest : Precedes w.scope b w.last) : w.Matches b locals c' where
  toSlots := same.toSlots.above tidy sound high stack globals rest
  home x l r v found at_r stored :=
    (regs r (tidy.home x l r found at_r)).trans (same.home x l r v found at_r stored)
  assigned := same.assigned

/-- Locals that were declared in code that was not run have nothing stored in them. -/
theorem skip (sound : w.Sound) (grown : Extends w.scope b b')
    (tidy : Tidy w.scope b') (rest : Precedes w.scope b' w.last) : w.Matches b' locals c where
  toSlots := same.toSlots.skip sound grown tidy rest
  home x l r v found at_r stored := by
    cases found' : b.locals.lookup? x with
    | some l' =>
      obtain ⟨l2, found2, kept⟩ := grown.kept x l' found'
      cases found.symm.trans found2
      exact same.home x l' r v found' (kept.storage.symm.trans at_r) stored
    | none =>
      rw [same.fresh x found'] at stored
      cases stored
  assigned x l r found at_r missing := by
    cases found' : b.locals.lookup? x with
    | some l' =>
      obtain ⟨l2, found2, kept⟩ := grown.kept x l' found'
      cases found.symm.trans found2
      rw [kept.ty]
      exact same.assigned x l' r found' (kept.storage.symm.trans at_r) missing
    | none => exact ((grown.newcomer x l found' found).home r at_r).2

/-- Storing a value in the register of a local stores it in no other local. -/
theorem setHome (tidy : Tidy w.scope b) {x : String} {l : Local}
    {r : UInt8} {v : Value} (found : b.locals.lookup? x = some l) (at_r : l.storage = .register r)
    (sets : Sets r v c c') : w.Matches b (locals.set x v) c' where
  high := by rw [sets.stack]; exact same.high
  below := by rw [sets.stack]; exact same.below
  globals := by rw [sets.globals]; exact same.globals
  slot y l' k found' at_k := by
    have apart : y ≠ x := by
      rintro rfl
      cases found.symm.trans found'
      cases at_r.symm.trans at_k
    rw [sets.stack, locals.set_of_ne v apart]
    exact same.slot y l' k found' at_k
  home y l' r' v' found' at_r' stored := by
    obtain ⟨rfl, rfl⟩ | ⟨other, stored⟩ := Locals.set_eq_some stored
    · cases found.symm.trans found'
      cases at_r.symm.trans at_r'
      exact sets.value
    · have small := RegisterPool.lt_of_isAllocated (tidy.home y l' r' found' at_r')
      rw [sets.others r' small fun here => other (tidy.apart x y l l' found found' (by
        rw [at_r, at_r', here]))]
      exact same.home y l' r' v' found' at_r' stored
  assigned y l' r' found' at_r' missing := same.assigned y l' r' found' at_r' (Locals.set_eq_none missing).2
  fresh y missing := by
    have apart : y ≠ x := by
      rintro rfl
      rw [found] at missing
      cases missing
    rw [locals.set_of_ne v apart]
    exact same.fresh y missing
  zeros := by rw [sets.stack]; exact same.zeros

theorem setSlot (tidy : Tidy w.scope b) (sound : w.Sound)
    (rest : Precedes w.scope b w.last) {x : String} {l : Local} {k : UInt16} {v : Value}
    (found : b.locals.lookup? x = some l) (at_k : l.storage = .stack k)
    (stack : c'.stack = c.stack.setIfInBounds (w.link.code.frame.base + k.toNat) v)
    (regs : ∀ q, b.pool.isAllocated q = true → c'.reg q = c.reg q)
    (globals : c'.globals.size = c.globals.size) : w.Matches b (locals.set x v) c' where
  high := by rw [stack, Array.size_setIfInBounds]; exact same.high
  below i low := by
    rw [stack, Array.getElem?_setIfInBounds_ne (by omega)]
    exact same.below i low
  globals := globals.trans same.globals
  slot y l' k' found' at_k' := by
    rw [stack]
    by_cases equal : y = x
    · subst equal
      cases found.symm.trans found'
      cases at_k.symm.trans at_k'
      have inside := tidy.slot y l k found at_k
      have high := same.high
      have ends := sound.frame
      have more := rest.reserve
      rw [locals.set_self, Array.getElem?_setIfInBounds_self_of_lt (by omega), Option.getD_some]
    · have apart : k'.toNat ≠ k.toNat := fun here => equal (tidy.apart x y l l' found found' (by
        rw [at_k, at_k', UInt16.toNat.inj here]))
      rw [locals.set_of_ne v equal, Array.getElem?_setIfInBounds_ne (by omega)]
      exact same.slot y l' k' found' at_k'
  home y l' r v' found' at_r stored := by
    rw [regs r (tidy.home y l' r found' at_r)]
    obtain ⟨rfl, -⟩ | ⟨-, stored⟩ := Locals.set_eq_some stored
    · cases found.symm.trans found'
      cases at_k.symm.trans at_r
    · exact same.home y l' r v' found' at_r stored
  assigned y l' r found' at_r missing := same.assigned y l' r found' at_r (Locals.set_eq_none missing).2
  fresh y missing := by
    have apart : y ≠ x := by
      rintro rfl
      rw [found] at missing
      cases missing
    rw [locals.set_of_ne v apart]
    exact same.fresh y missing
  zeros k' low high := by
    have inside := tidy.slot x l k found at_k
    rw [stack, Array.getElem?_setIfInBounds_ne (by omega)]
    exact same.zeros k' low high

end

end Matches

end Setting

end Emission

end RegisterLang
