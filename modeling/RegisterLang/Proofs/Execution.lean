import RegisterLang.Proofs.Endings
import RegisterLang.Proofs.Evaluation
import RegisterLang.Proofs.Labels

/-! # Running laid-out code

The code of a body is followed from operation to operation. What a program can see of a state is its
`Core`; how many instructions were executed and which jumps were recorded is left out. A run that the step
limit has cut off says nothing, so every rule leaves that way out.
-/

namespace RegisterLang

namespace Machine

variable {σ : Type}

/-! ## What a program sees -/

/-- What a program can see of a state. -/
structure Core (σ : Type) where
  regs : Registers
  flags : Flags
  stack : Array Value
  arrays : ArrayHeap
  globals : Array Value
  world : σ

namespace Core

/-- The value of a register; only the low four bits of its number count. -/
def reg (c : Core σ) (r : UInt8) : Value :=
  c.regs.get ⟨r.toNat % registerCount, toNat_mod_lt r⟩

/-- Write a register. -/
def setReg (c : Core σ) (r : UInt8) (v : Value) : Core σ :=
  { c with regs := c.regs.set (r.toNat % registerCount) v (toNat_mod_lt r) }

section
variable (c : Core σ) (r : UInt8)

@[simp] theorem stack_setReg (v : Value) : (c.setReg r v).stack = c.stack := rfl

@[simp] theorem arrays_setReg (v : Value) : (c.setReg r v).arrays = c.arrays := rfl

@[simp] theorem globals_setReg (v : Value) : (c.setReg r v).globals = c.globals := rfl

@[simp] theorem world_setReg (v : Value) : (c.setReg r v).world = c.world := rfl

@[simp] theorem flags_setReg (v : Value) : (c.setReg r v).flags = c.flags := rfl

@[simp] theorem reg_setReg_self (v : Value) : (c.setReg r v).reg r = v :=
  Vector.getElem_set_self (Nat.mod_lt _ (by decide))

@[simp] theorem setReg_setReg (v w : Value) : (c.setReg r v).setReg r w = c.setReg r w := by
  simp [setReg]

theorem setReg_reg : c.setReg r (c.reg r) = c := by
  have same : c.regs.set (r.toNat % registerCount) (c.reg r) (toNat_mod_lt r) = c.regs := Vector.set_getElem_self _
  rw [setReg, same]

end

theorem reg_setReg_of_ne (c : Core σ) {r q : UInt8} (v : Value) (r_lt : r.toNat < registerCount)
    (q_lt : q.toNat < registerCount) (apart : q ≠ r) : (c.setReg r v).reg q = c.reg q := by
  have different : r.toNat % registerCount ≠ q.toNat % registerCount := by
    rw [Nat.mod_eq_of_lt r_lt, Nat.mod_eq_of_lt q_lt]
    exact fun same => apart (UInt8.toNat.inj same.symm)
  exact Vector.getElem_set_ne (Nat.mod_lt _ (by decide)) (Nat.mod_lt _ (by decide)) different

end Core

namespace State

def core (s : State σ) : Core σ :=
  ⟨s.regs, s.flags, s.stack, s.arrays, s.globals, s.world⟩

end State

/-- A run that the step limit has cut off. -/
def Limited {α : Type} (env : Env σ) (out : Outcome σ α) : Prop :=
  env.settings.maxSteps ≠ none ∧ ∃ limit, out.1 = .error (.stepLimitExceeded limit)

/-- The instruction that a run fails in is none that destroys an array. -/
def Spares (culprit : Option Instruction) : Prop :=
  ∀ r, culprit ≠ some (.arrayDestroy r)

theorem spares_none : Spares none := by
  intro r same
  cases same

/-! ## Runs of a body -/

/-- What stays the same while the code of a body runs: its frame, how it calls other functions, and the
instructions that its code was laid out as. -/
structure Activation (σ : Type) where
  env : Env σ
  callee : UInt32 → State σ → Ending σ
  frame : Frame
  buffer : CodeBuffer
  is : List Instruction
  laid : buffer.Laid is
  encodable : ∀ i ∈ is, i.Encodable

namespace Activation

open Instruction

variable (a : Activation σ) {c : Core σ} {k : Nat} {i : Instruction} {v : Value} {cond : Condition} {arrays : ArrayHeap}

/-- Run the code from operation `k` on. -/
def runFrom (k : Nat) (s : State σ) : Ending σ :=
  let code := (a.is.drop k).flatMap encode
  runEnding a.env a.callee a.frame code (address a.is k) code s

/-- How a run goes on after an instruction. -/
def follow (k : Nat) (i : Instruction) : Outcome σ Effect → Ending σ
  | (.error fault, s) => ((.error fault, s), some i)
  | (.ok .next, s) => a.runFrom (k + 1) s
  | (.ok (.skip n), s) =>
    let code := ((a.is.drop (k + 1)).flatMap encode).drop n
    runEnding a.env a.callee a.frame code (address a.is (k + 1) + n) code s
  | (.ok (.call function), s) =>
    match a.callee function s with
    | ((.error fault, s), culprit) => ((.error fault, s), culprit)
    | ((.ok _, s), _) => a.runFrom (k + 1) s
  | (.ok (.ret v), s) => ((.ok v, s), none)

theorem runFrom_eq (found : a.is[k]? = some i) (s : State σ) : a.runFrom k s =
      if a.env.settings.maxSteps.any (· < s.tick.steps) then
        ((.error (.stepLimitExceeded (a.env.settings.maxSteps.getD 0)), s.tick), none)
      else
        a.follow k i (step a.env a.frame (address a.is k) (address a.is (k + 1)) i s.tick) := by
  have here : a.is.drop k = i :: a.is.drop (k + 1) := by
    obtain ⟨inside, rfl⟩ := List.getElem?_eq_some_iff.1 found
    exact List.drop_eq_getElem_cons inside
  have fits : i.Encodable := a.encodable i (List.mem_of_getElem? found)
  have decoded := decode_encode fits (address a.is k) ((a.is.drop (k + 1)).flatMap encode)
  have next := address_succ found
  simp only [runFrom, here, List.flatMap_cons]
  simp only [encode, List.cons_append] at decoded ⊢
  simp only [runEnding, decoded, ← next]
  -- The bound is longer than the code that is left, which does not matter.
  have bounded : ∀ (n offset : Nat) (s : State σ),
      runEnding a.env a.callee a.frame (i.operandBytes ++ (a.is.drop (k + 1)).flatMap encode) offset
        (((a.is.drop (k + 1)).flatMap encode).drop n) s =
      runEnding a.env a.callee a.frame (((a.is.drop (k + 1)).flatMap encode).drop n) offset
        (((a.is.drop (k + 1)).flatMap encode).drop n) s :=
    fun n offset s => runEnding_bound _ _ _ (by simp; omega) (Nat.le_refl _) offset s
  split
  · rfl
  generalize step a.env a.frame (address a.is k) (address a.is (k + 1)) i _ = out
  obtain ⟨fault | effect, s'⟩ := out
  · rfl
  · cases effect with
    | next => exact bounded 0 _ s'
    | skip n => exact bounded n _ s'
    | call function =>
      simp only [follow]
      generalize a.callee function s' = called
      obtain ⟨⟨fault | v, t⟩, culprit⟩ := called
      · rfl
      · exact bounded 0 _ t
    | ret v => rfl

/-- What an instruction at operation `k` did leads to operation `k'`: the next one, the one that a jump lands at, or
the next one once a function that was called has returned. -/
inductive Leads (k : Nat) : Outcome σ Effect → Nat → State σ → Prop where
  | next (s : State σ) : Leads k (.ok .next, s) (k + 1) s
  | skip {n k' : Nat} (lands : address a.is (k + 1) + n = address a.is k') (s : State σ) :
      Leads k (.ok (.skip n), s) k' s
  | call {function : UInt32} {s s' : State σ} {v : Value} {culprit : Option Instruction}
      (returned : a.callee function s = ((.ok v, s'), culprit)) : Leads k (.ok (.call function), s) (k + 1) s'

/-- A run that is at operation `k` in state `s` gets to operation `k'` in state `s'`, instruction by instruction. -/
inductive Reaches : Nat → State σ → Nat → State σ → Prop where
  | refl (k : Nat) (s : State σ) : Reaches k s k s
  | step {k k' k'' : Nat} {i : Instruction} {s s' s'' : State σ} (found : a.is[k]? = some i)
      (allowed : a.env.settings.maxSteps.any (· < s.tick.steps) = false)
      (leads : a.Leads k (Machine.step a.env a.frame (address a.is k) (address a.is (k + 1)) i s.tick) k' s')
      (rest : Reaches k' s' k'' s'') : Reaches k s k'' s''

theorem limited_or_allowed (found : a.is[k]? = some i) (s : State σ) : Limited a.env (a.runFrom k s).1 ∨
    a.env.settings.maxSteps.any (· < s.tick.steps) = false := by
  rw [a.runFrom_eq found]
  split
  · next past =>
    refine .inl ⟨?_, _, rfl⟩
    intro unlimited
    rw [unlimited] at past
    cases past
  · next below => exact .inr (Bool.eq_false_iff.2 below)

/-- A run follows the step that the instruction takes, unless the step limit cuts it off. -/
theorem runFrom_plain (found : a.buffer.ops[k]? = some (.plain i)) (s : State σ) :
    ∃ offset next, Limited a.env (a.runFrom k s).1 ∨
      a.runFrom k s = a.follow k i (step a.env a.frame offset next i s.tick) := by
  have placed := a.laid.plain k i found
  refine ⟨address a.is k, address a.is (k + 1), (a.limited_or_allowed placed s).imp id fun allowed => ?_⟩
  rw [a.runFrom_eq placed, allowed, if_neg Bool.false_ne_true]

/-- From operation `k` a run gets to operation `k'`, unless the step limit cuts it off. -/
def Goes (k : Nat) (c : Core σ) (k' : Nat) (c' : Core σ) : Prop :=
  ∀ s : State σ, s.core = c → ∃ s' : State σ, s'.core = c' ∧
    (s.arrays.Consistent → s'.arrays.Consistent) ∧ (Limited a.env (a.runFrom k s).1 ∨ a.Reaches k s k' s')

variable {a}

theorem follow_skip {n target : Nat} (lands : address a.is (k + 1) + n = address a.is target) (i : Instruction)
    (s : State σ) : a.follow k i (.ok (.skip n), s) = a.runFrom target s := by
  simp only [follow, runFrom]
  rw [← drop_flatMap_encode, List.drop_drop, lands, drop_flatMap_encode]

theorem Leads.follow_eq {out : Outcome σ Effect} {k' : Nat} {s : State σ} (leads : a.Leads k out k' s)
    (i : Instruction) : a.follow k i out = a.runFrom k' s := by
  cases leads with
  | next => rfl
  | skip lands => exact follow_skip lands i s
  | call returned => simp only [follow, returned]

namespace Reaches

variable {k' k'' : Nat} {s s' s'' : State σ}

/-- A run ends as it does from any place that it gets to. -/
theorem runFrom_eq (reaches : a.Reaches k s k' s') : a.runFrom k s = a.runFrom k' s' := by
  induction reaches with
  | refl => rfl
  | step found allowed leads rest ih =>
    rw [a.runFrom_eq found, allowed, if_neg Bool.false_ne_true, leads.follow_eq, ih]

theorem trans (first : a.Reaches k s k' s') (second : a.Reaches k' s' k'' s'') : a.Reaches k s k'' s'' := by
  induction first with
  | refl => exact second
  | step found allowed leads rest ih => exact .step found allowed leads (ih second)

/-- An instruction is executed, unless the step limit cuts the run off. -/
theorem of_leads (found : a.is[k]? = some i)
    (leads : a.Leads k (Machine.step a.env a.frame (address a.is k) (address a.is (k + 1)) i s.tick) k' s') :
    Limited a.env (a.runFrom k s).1 ∨ a.Reaches k s k' s' :=
  (a.limited_or_allowed found s).imp id fun allowed => .step found allowed leads (.refl k' s')

end Reaches

theorem Goes.refl (k : Nat) (c : Core σ) : a.Goes k c k c :=
  fun s same => ⟨s, same, id, .inr (.refl k s)⟩

theorem Goes.trans {k' k'' : Nat} {c' c'' : Core σ} (first : a.Goes k c k' c') (second : a.Goes k' c' k'' c'') :
    a.Goes k c k'' c'' := by
  intro s same
  obtain ⟨s', same', kept, went⟩ := first s same
  obtain ⟨s'', same'', kept', went'⟩ := second s' same'
  refine ⟨s'', same'', kept' ∘ kept, ?_⟩
  obtain limited | reaches := went
  · exact .inl limited
  · rw [reaches.runFrom_eq]
    exact went'.imp id reaches.trans

variable (a) in
/-- An instruction that changes what a program sees from `c` to `c'` and goes on with the next one. -/
def Does (i : Instruction) (c c' : Core σ) : Prop :=
  ∀ (s : State σ) (offset next : Nat), s.core = c →
    ∃ s' : State σ, s'.core = c' ∧ step a.env a.frame offset next i s = (.ok .next, s')

theorem Does.goes {c' : Core σ} (does : a.Does i c c') (found : a.buffer.ops[k]? = some (.plain i)) :
    a.Goes k c (k + 1) c' := by
  intro s same
  obtain ⟨s', same', stepped⟩ := does s.tick (address a.is k) (address a.is (k + 1)) same
  refine ⟨s', same', fun consistent => ?_, Reaches.of_leads (a.laid.plain k i found) (stepped ▸ .next s')⟩
  have kept := consistent_step (s := s.tick) consistent a.env a.frame (address a.is k) (address a.is (k + 1)) i
  rwa [stepped] at kept

variable (a) in
/-- A run from operation `k` ends in a fault that the program has caused, not by destroying an array. -/
def Traps (k : Nat) (c : Core σ) (t : Trap) (c' : Core σ) : Prop :=
  ∀ s : State σ, s.core = c → Limited a.env (a.runFrom k s).1 ∨
    ∃ fault s' culprit, a.runFrom k s = ((.error fault, s'), culprit) ∧ fault.trap? = some t ∧
      s'.core = c' ∧ Spares culprit

variable (a) in
/-- A run from operation `k` ends in a result. -/
def Returns (k : Nat) (c : Core σ) (v : Value) (c' : Core σ) : Prop :=
  ∀ s : State σ, s.core = c → Limited a.env (a.runFrom k s).1 ∨
    ∃ s', a.runFrom k s = ((.ok v, s'), none) ∧ s'.core = c'

variable {t : Trap} {target : Nat} {dst : UInt8} {fault : Fault}

section
variable (found : a.buffer.ops[k]? = some (.plain i))
include found

theorem traps_of_step {c' : Core σ} (other : Spares (some i))
    (faults : ∀ (s : State σ) (offset next : Nat), s.core = c → ∃ fault s',
      step a.env a.frame offset next i s = (.error fault, s') ∧ fault.trap? = some t ∧ s'.core = c') :
    a.Traps k c t c' := by
  intro s same
  obtain ⟨offset, next, limited | ran⟩ := a.runFrom_plain found s
  · exact .inl limited
  · obtain ⟨fault, s', stepped, kind, done⟩ := faults s.tick offset next same
    rw [stepped] at ran
    exact .inr ⟨fault, s', some i, ran, kind, done, other⟩

theorem returns_of_step
    (returned : ∀ (s : State σ) (offset next : Nat), s.core = c →
      step a.env a.frame offset next i s = (.ok (.ret v), s)) : a.Returns k c v c := by
  intro s same
  obtain ⟨offset, next, limited | ran⟩ := a.runFrom_plain found s
  · exact .inl limited
  · rw [returned s.tick offset next same] at ran
    exact .inr ⟨s.tick, ran, same⟩

theorem runFrom_call {function : UInt32}
    (calls : ∀ (s : State σ) (offset next : Nat),
      step a.env a.frame offset next i s = (.ok (.call function), s)) (s : State σ) :
    Limited a.env (a.runFrom k s).1 ∨ a.runFrom k s = a.follow k i (.ok (.call function), s.tick) := by
  obtain ⟨offset, next, ran⟩ := a.runFrom_plain found s
  rwa [calls] at ran

theorem reaches_call {function : UInt32} {s s' : State σ} {culprit : Option Instruction}
    (calls : ∀ (s : State σ) (offset next : Nat), step a.env a.frame offset next i s = (.ok (.call function), s))
    (returned : a.callee function s.tick = ((.ok v, s'), culprit)) :
    Limited a.env (a.runFrom k s).1 ∨ a.Reaches k s (k + 1) s' := by
  apply Reaches.of_leads (a.laid.plain k i found)
  rw [calls]
  exact .call returned

end

/-! ## Jumps -/

theorem step_jump {distance : Nat} (form : i.IsShortJump cond distance ∨ i.IsWideJump cond distance) (env : Env σ)
    (frame : Frame) (offset next : Nat) (s : State σ) :
    step env frame offset next i s = jump env frame.function offset next cond distance s := by
  obtain ⟨n, rfl, rfl⟩ | ⟨n, rfl, rfl⟩ := form <;> rfl

/-- A jump whose condition holds goes on where its label stands, else with the next operation. -/
theorem goes_jump {label : Label} (found : a.buffer.ops[k]? = some (.jump cond label))
    (bound : a.buffer.target? label = some target) (c : Core σ) :
    a.Goes k c (if c.flags.holds cond then target else k + 1) c := by
  obtain ⟨i, distance, target', placed, form, bound', -, -, lands⟩ := a.laid.jump k cond label found
  cases bound.symm.trans bound'
  rw [← address_succ placed] at lands
  rintro s rfl
  have stepped := step_jump form a.env a.frame (address a.is k) (address a.is (k + 1)) s.tick
  rw [jump] at stepped
  change ∃ s', _ ∧ _ ∧ (_ ∨ a.Reaches k s (if s.tick.flags.holds cond then target else k + 1) s')
  split at stepped
  · next holds =>
    rw [if_pos holds]
    refine ⟨_, ?_, ?_, Reaches.of_leads placed (by rw [stepped]; exact .skip lands _)⟩
    · split <;> rfl
    · split <;> exact id
  · next fails =>
    rw [if_neg fails]
    exact ⟨s.tick, rfl, id, Reaches.of_leads placed (stepped ▸ .next _)⟩

theorem goes_jump_taken {label : Label} (found : a.buffer.ops[k]? = some (.jump cond label))
    (bound : a.buffer.target? label = some target) (holds : c.flags.holds cond = true) : a.Goes k c target c := by
  simpa [holds] using goes_jump found bound c

/-! ## What single instructions do -/

theorem does_mov (dst src : UInt8) (c : Core σ) : a.Does (.mov dst src) c (c.setReg dst (c.reg src)) := by
  rintro s offset next rfl
  exact ⟨_, rfl, rfl⟩

theorem does_load {dst : UInt8} {w : Value}
    (steps : ∀ s offset next, step a.env a.frame offset next i s = (.ok .next, s.setReg dst w)) (same : w = v) :
    a.Does i c (c.setReg dst v) := by
  rintro s offset next rfl
  exact ⟨_, rfl, same ▸ steps s offset next⟩

theorem does_ldstr (dst : UInt8) {index : UInt32} (c : Core σ) (inside : index.toNat < a.env.image.strings.size) :
    a.Does (.ldstr dst index) c (c.setReg dst (a.env.image.address index.toNat)) := by
  rintro s offset next rfl
  refine ⟨s.setReg dst (a.env.image.address index.toNat), rfl, ?_⟩
  simp only [step, if_pos inside, advance]

theorem does_neg (dst src : UInt8) (c : Core σ) : a.Does (.neg dst src) c (c.setReg dst (-(c.reg src))) := by
  rintro s offset next rfl
  exact ⟨_, rfl, rfl⟩

theorem does_fneg (dst src : UInt8) (c : Core σ) :
    a.Does (.fneg dst src) c (c.setReg dst (Binary64.negate (c.reg src))) := by
  rintro s offset next rfl
  exact ⟨_, rfl, rfl⟩

theorem does_arithImm8 (op : ImmOp) (dst src : UInt8) (imm : UInt8) (c : Core σ) :
    a.Does (.arithImm8 op dst src imm) c (c.setReg dst (Value.arithImm op (c.reg src) imm.toUInt64)) := by
  rintro s offset next rfl
  exact ⟨_, rfl, rfl⟩

theorem does_arithImm16 (op : ImmOp) (dst src : UInt8) (imm : UInt16) (c : Core σ) :
    a.Does (.arithImm16 op dst src imm) c (c.setReg dst (Value.arithImm op (c.reg src) imm.toUInt64)) := by
  rintro s offset next rfl
  exact ⟨_, rfl, rfl⟩

theorem does_inc (r : UInt8) (c : Core σ) : a.Does (.inc r) c (c.setReg r (c.reg r + 1)) := by
  rintro s offset next rfl
  exact ⟨_, rfl, rfl⟩

theorem does_dec (r : UInt8) (c : Core σ) : a.Does (.dec r) c (c.setReg r (c.reg r - 1)) := by
  rintro s offset next rfl
  exact ⟨_, rfl, rfl⟩

theorem does_compare (kind : NumKind) (x y : UInt8) (c : Core σ) :
    a.Does (.compare kind x y) c { c with flags := .compare kind (c.reg x) (c.reg y) } := by
  rintro s offset next rfl
  exact ⟨_, rfl, rfl⟩

theorem does_testz (r : UInt8) (c : Core σ) :
    a.Does (.testz r) c { c with flags := .compare .signed (c.reg r) 0 } := by
  rintro s offset next rfl
  exact ⟨_, rfl, rfl⟩

theorem does_push (r : UInt8) (c : Core σ) : a.Does (.push r) c { c with stack := c.stack.push (c.reg r) } := by
  rintro s offset next rfl
  exact ⟨_, rfl, rfl⟩

theorem does_pop (r : UInt8) {stack : Array Value} (top : c.stack = stack.push v)
    (above : a.frame.localsEnd ≤ stack.size) : a.Does (.pop r) c ({ c with stack := stack }.setReg r v) := by
  rintro s offset next rfl
  have top' : s.stack = stack.push v := top
  have high : ¬ s.stack.size ≤ a.frame.localsEnd := by
    rw [top', Array.size_push]
    omega
  refine ⟨{ s with stack := stack }.setReg r v, rfl, ?_⟩
  simp only [step, if_neg high]
  simp [top', advance]

theorem does_localGet (r : UInt8) (slot : UInt16) (found : c.stack[a.frame.base + slot.toNat]? = some v) :
    a.Does (.localGet r slot) c (c.setReg r v) := by
  rintro s offset next rfl
  refine ⟨s.setReg r v, rfl, ?_⟩
  have found' : s.stack[a.frame.base + slot.toNat]? = some v := found
  simp only [step, found', advance]

theorem does_localSet (r : UInt8) (slot : UInt16) (inside : a.frame.base + slot.toNat < c.stack.size) :
    a.Does (.localSet r slot) c { c with stack := c.stack.setIfInBounds (a.frame.base + slot.toNat) (c.reg r) } := by
  rintro s offset next rfl
  have inside' : a.frame.base + slot.toNat < s.stack.size := inside
  refine ⟨{ s with stack := s.stack.setIfInBounds (a.frame.base + slot.toNat) (s.reg r) }, rfl, ?_⟩
  simp only [step, if_pos inside', advance]

theorem does_globalGet (r : UInt8) (index : UInt32) (found : c.globals[index.toNat]? = some v) :
    a.Does (.globalGet r index) c (c.setReg r v) := by
  rintro s offset next rfl
  refine ⟨s.setReg r v, rfl, ?_⟩
  have found' : s.globals[index.toNat]? = some v := found
  simp only [step, found', advance]

theorem does_globalSet (r : UInt8) (index : UInt32) (inside : index.toNat < c.globals.size) :
    a.Does (.globalSet r index) c { c with globals := c.globals.setIfInBounds index.toNat (c.reg r) } := by
  rintro s offset next rfl
  have inside' : index.toNat < s.globals.size := inside
  refine ⟨{ s with globals := s.globals.setIfInBounds index.toNat (s.reg r) }, rfl, ?_⟩
  simp only [step, if_pos inside', advance]

theorem does_arith {op : ArithOp} {kind : NumKind} (dst x y : UInt8)
    (result : Value.arith? op kind (c.reg x) (c.reg y) = some v) :
    a.Does (.arith op kind dst x y) c (c.setReg dst v) := by
  rintro s offset next rfl
  refine ⟨s.setReg dst v, rfl, ?_⟩
  have result' : Value.arith? op kind (s.reg x) (s.reg y) = some v := result
  simp only [step, result', advance]

theorem traps_arith {op : ArithOp} {kind : NumKind} {x y : UInt8}
    (found : a.buffer.ops[k]? = some (.plain (.arith op kind dst x y)))
    (result : Value.arith? op kind (c.reg x) (c.reg y) = none) : a.Traps k c .divisionByZero c := by
  refine traps_of_step found nofun ?_
  rintro s offset next rfl
  have result' : Value.arith? op kind (s.reg x) (s.reg y) = none := result
  exact ⟨.divisionByZero a.frame.function offset, s, by simp only [step, result'], rfl, rfl⟩

/-! ## Arrays -/

section
variable {α : Type} (use : Core σ → Except Fault α × ArrayHeap) (go : α → State σ → State σ)
  (steps : ∀ (s : State σ) offset next, step a.env a.frame offset next i s = onArrays (use s.core) go s)
include steps

theorem does_onArrays {x : α} {c' : Core σ} (used : use c = (.ok x, arrays))
    (done : ∀ s : State σ, s.core = { c with arrays } → (go x s).core = c') : a.Does i c c' := by
  rintro s offset next rfl
  refine ⟨go x { s with arrays }, done _ rfl, ?_⟩
  rw [steps, used]
  rfl

theorem traps_onArrays (found : a.buffer.ops[k]? = some (.plain i)) (other : Spares (some i))
    (failed : use c = (.error fault, arrays)) (kind : fault.trap? = some t) : a.Traps k c t { c with arrays } := by
  refine traps_of_step found other ?_
  rintro s offset next rfl
  refine ⟨fault, { s with arrays }, ?_, kind, rfl⟩
  rw [steps, failed]
  rfl

end

theorem does_arrayNew (dst len : UInt8) {handle : UInt32}
    (created : c.arrays.create (c.reg len) = (.ok handle, arrays)) :
    a.Does (.arrayNew dst len) c ({ c with arrays }.setReg dst (Value.ofHandle handle)) :=
  does_onArrays (fun c => c.arrays.create (c.reg len)) (fun handle s => s.setReg dst (Value.ofHandle handle))
    (fun _ _ _ => rfl) created fun _ same => congrArg (Core.setReg · dst _) same

theorem does_arrayGet (dst array index : UInt8)
    (read : c.arrays.get (c.reg array).handle (c.reg index) = (.ok v, arrays)) :
    a.Does (.arrayGet dst array index) c ({ c with arrays }.setReg dst v) :=
  does_onArrays (fun c => c.arrays.get (c.reg array).handle (c.reg index)) (fun v s => s.setReg dst v)
    (fun _ _ _ => rfl) read fun _ same => congrArg (Core.setReg · dst _) same

theorem does_arraySet (array index value : UInt8)
    (written : c.arrays.set (c.reg array).handle (c.reg index) (c.reg value) = (.ok (), arrays)) :
    a.Does (.arraySet array index value) c { c with arrays } :=
  does_onArrays (fun c => c.arrays.set (c.reg array).handle (c.reg index) (c.reg value)) _ (fun _ _ _ => rfl) written
    fun _ => id

theorem does_arrayDestroy (r : UInt8) (destroyed : c.arrays.destroy (c.reg r).handle = (.ok (), arrays)) :
    a.Does (.arrayDestroy r) c { c with arrays } :=
  does_onArrays (fun c => c.arrays.destroy (c.reg r).handle) _ (fun _ _ _ => rfl) destroyed fun _ => id

theorem traps_arrayNew {len : UInt8} (found : a.buffer.ops[k]? = some (.plain (.arrayNew dst len)))
    (failed : c.arrays.create (c.reg len) = (.error fault, arrays)) (kind : fault.trap? = some t) :
    a.Traps k c t { c with arrays } :=
  traps_onArrays (fun c => c.arrays.create (c.reg len)) (fun handle s => s.setReg dst (Value.ofHandle handle))
    (fun _ _ _ => rfl) found nofun failed kind

theorem traps_arrayGet {array index : UInt8} (found : a.buffer.ops[k]? = some (.plain (.arrayGet dst array index)))
    (failed : c.arrays.get (c.reg array).handle (c.reg index) = (.error fault, arrays))
    (kind : fault.trap? = some t) : a.Traps k c t { c with arrays } :=
  traps_onArrays (fun c => c.arrays.get (c.reg array).handle (c.reg index)) (fun v s => s.setReg dst v)
    (fun _ _ _ => rfl) found nofun failed kind

theorem traps_arraySet {array index value : UInt8}
    (found : a.buffer.ops[k]? = some (.plain (.arraySet array index value)))
    (failed : c.arrays.set (c.reg array).handle (c.reg index) (c.reg value) = (.error fault, arrays))
    (kind : fault.trap? = some t) : a.Traps k c t { c with arrays } :=
  traps_onArrays (fun c => c.arrays.set (c.reg array).handle (c.reg index) (c.reg value)) _ (fun _ _ _ => rfl) found
    nofun failed kind

/-! ## Returns -/

theorem returns_ret (found : a.buffer.ops[k]? = some (.plain .ret)) : a.Returns k c (c.reg returnReg) c := by
  refine returns_of_step found ?_
  rintro s offset next rfl
  rfl

theorem returns_retVoid (found : a.buffer.ops[k]? = some (.plain .retVoid)) : a.Returns k c 0 c := by
  refine returns_of_step found ?_
  rintro s offset next rfl
  rfl

theorem returns_retLocal {slot : UInt16} (found : a.buffer.ops[k]? = some (.plain (.retLocal slot)))
    (stored : c.stack[a.frame.base + slot.toNat]? = some v) : a.Returns k c v c := by
  refine returns_of_step found ?_
  rintro s offset next rfl
  have stored' : s.stack[a.frame.base + slot.toNat]? = some v := stored
  simp only [step, stored']

end Activation

end Machine

end RegisterLang
