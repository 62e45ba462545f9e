import RegisterLang.Proofs.Values

/-! # Calls

Around a call the registers in use are saved on the stack. Arguments wait on the stack or where they are
until all are computed, and are then brought into their registers.
-/

namespace RegisterLang

open Machine Evaluation List RegisterPool Activation

namespace Emission

open Instruction CodeBuffer

variable {σ ω : Type} {i n j : Nat} {v : Lowered} {b b' : Body} {args args' : Arguments}

/-! ## Saving and restoring registers -/

/-- Code that only writes some registers, and possibly the stack. -/
structure Assigns (regs : List UInt8) (want : UInt8 → Value) (c c' : Core σ) : Prop where
  arrays : c'.arrays = c.arrays
  globals : c'.globals = c.globals
  world : c'.world = c.world
  values : ∀ r ∈ regs, c'.reg r = want r
  others : ∀ q, q.toNat < registerCount → q ∉ regs → c'.reg q = c.reg q

variable {c : Core σ}

theorem Assigns.store {regs : List UInt8} {want : UInt8 → Value} {c' : Core σ} (assigns : Assigns regs want c c')
    (l : Link σ ω) : l.store c' = l.store c := by
  rw [Link.store, Link.store, assigns.globals, assigns.arrays, assigns.world]

/-- Registers were pushed. -/
structure Pushes (regs : List UInt8) (b b' : Body) : Prop where
  steady : Steady b b'
  pool : b'.pool = b.pool
  runs : ∀ {σ : Type} (a : Activation σ) (c : Core σ), b'.code.Within a.buffer →
    a.Goes b.pos c b'.pos { c with stack := c.stack ++ (regs.map c.reg).toArray }

theorem emits_pushAll (regs : List UInt8) : Emits (pushAll regs) fun b _ b' =>
      (∀ r ∈ regs, r.toNat < registerCount) → Pushes regs b b' := by
  induction regs with
  | nil =>
    refine .mono (.of_pure ()) ?_
    rintro b _ b' ⟨-, rfl⟩ -
    refine ⟨.refl b', rfl, fun a c _ => ?_⟩
    simpa using Activation.Goes.refl (a := a) b'.pos c
  | cons r regs ih =>
    refine .mono (.bind (emits_emitInsn (.push r)) fun _ => ih) ?_
    rintro b _ b' ⟨_, _, rfl, pushes⟩ small
    have fits : (Instruction.push r).Encodable := .one (small r (by simp)) rfl
    have pushes := pushes fun q member => small q (by simp [member])
    refine ⟨(Steady.setCode (.emit _ fits)).trans pushes.steady, pushes.pool, fun a c within => ?_⟩
    have within1 := pushes.steady.code.within.trans within
    have went := (goes_emit (does_push r c) within1).trans (pushes.runs a _ within)
    have stack : c.stack.push (c.reg r) ++ (regs.map c.reg).toArray =
        c.stack ++ ((r :: regs).map c.reg).toArray := by simp
    rw [← stack]
    exact went

/-- Registers were popped. -/
structure Pops (regs : List UInt8) (b b' : Body) : Prop where
  steady : Steady b b'
  pool : b'.pool = b.pool
  runs : ∀ {σ : Type} (a : Activation σ) (c : Core σ) (stack : Array Value)
    (want : UInt8 → Value), b'.code.Within a.buffer → regs.Nodup →
    c.stack = stack ++ (regs.map want).reverse.toArray → a.frame.localsEnd ≤ stack.size →
    ∃ c', a.Goes b.pos c b'.pos c' ∧ c'.stack = stack ∧ Assigns regs want c c'

theorem emits_popAll (regs : List UInt8) : Emits (popAll regs) fun b _ b' =>
      (∀ r ∈ regs, r.toNat < registerCount) → Pops regs b b' := by
  induction regs with
  | nil =>
    refine .mono (.of_pure ()) ?_
    rintro b _ b' ⟨-, rfl⟩ -
    refine ⟨.refl b', rfl, fun a c stack want _ _ held _ => ?_⟩
    exact ⟨c, .refl _ c, by simpa using held, rfl, rfl, rfl, nofun, fun _ _ _ => rfl⟩
  | cons r regs ih =>
    refine .mono (.bind (emits_emitInsn (.pop r)) fun _ => ih) ?_
    rintro b _ b' ⟨_, _, rfl, pops⟩ small
    have r_small := small r (by simp)
    have fits : (Instruction.pop r).Encodable := .one r_small rfl
    have pops := pops fun q member => small q (by simp [member])
    refine ⟨(Steady.setCode (.emit _ fits)).trans pops.steady, pops.pool, ?_⟩
    intro σ a c stack want within distinct held above
    obtain ⟨absent, distinct⟩ := nodup_cons.1 distinct
    have top : c.stack = (stack ++ (regs.map want).reverse.toArray).push (want r) := by
      rw [held]
      simp
    have does := does_pop (a := a) r top (by simp; omega)
    have within1 := pops.steady.code.within.trans within
    obtain ⟨c', went, stack_eq, assigns⟩ := pops.runs a
      ({ c with stack := stack ++ (regs.map want).reverse.toArray }.setReg r (want r))
      stack want within distinct rfl above
    refine ⟨c', (goes_emit does within1).trans went, stack_eq, assigns.arrays, assigns.globals, assigns.world, ?_, ?_⟩
    · intro q member
      obtain rfl | member := mem_cons.1 member
      · rw [assigns.others q r_small absent, Core.reg_setReg_self]
      · exact assigns.values q member
    · intro q q_small outside
      rw [mem_cons, not_or] at outside
      rw [assigns.others q q_small outside.2, Core.reg_setReg_of_ne _ _ r_small q_small outside.1]
      rfl

/-! ## Loading arguments that have waited where they are -/

theorem Lowered.Holds.direct {a : Activation σ} {x : Value} {c' : Core σ} (holds : v.Holds a c x)
    (direct : v.isDirect = true) (inside : ∀ k, v.place = .slot k → a.frame.base + k.toNat < a.frame.localsEnd)
    (stack : ∀ i < a.frame.localsEnd, c'.stack[i]? = c.stack[i]?) : v.Holds a c' x := by
  unfold Lowered.isDirect at direct
  unfold Lowered.Holds at holds ⊢
  split at direct
  · next bits place =>
    rw [place] at holds ⊢
    exact holds
  · next k place =>
    rw [place] at holds ⊢
    exact (stack _ (inside k place)).trans holds
  · cases direct

/-- Values were loaded into registers. -/
structure Loads (deferred : List (UInt8 × Lowered)) (b b' : Body) : Prop where
  steady : Steady b b'
  pool : b.pool ≤ b'.pool
  runs : ∀ {σ : Type} (a : Activation σ) (c : Core σ) (want : UInt8 → Value),
    b'.code.Within a.buffer → (deferred.map Prod.fst).Nodup →
    (∀ r v, (r, v) ∈ deferred → v.Holds a c (want r) ∧
      ∀ k, v.place = .slot k → a.frame.base + k.toNat < a.frame.localsEnd) →
    ∃ c', a.Goes b.pos c b'.pos c' ∧ c'.stack = c.stack ∧ Assigns (deferred.map Prod.fst) want c c'

theorem emits_loadAll (deferred : List (UInt8 × Lowered)) :
    Emits (deferred.forM fun (reg, v) => loadInto reg v) fun b _ b' =>
      (∀ r v, (r, v) ∈ deferred → r.toNat < registerCount ∧ v.isDirect = true) →
        Loads deferred b b' := by
  induction deferred with
  | nil =>
    refine .mono (.of_pure ()) ?_
    rintro b _ b' ⟨-, rfl⟩ -
    refine ⟨.refl b', le_refl _, fun a c want _ _ _ => ?_⟩
    exact ⟨c, .refl _ c, rfl, rfl, rfl, rfl, nofun, fun _ _ _ => rfl⟩
  | cons d deferred ih =>
    obtain ⟨r, v⟩ := d
    refine .mono (.bind (emits_loadInto r v) fun _ => ih) ?_
    rintro b _ b' ⟨_, b1, fills, loads⟩ good
    obtain ⟨r_small, direct⟩ := good r v (by simp)
    have loads := loads fun q u member => good q u (by simp [member])
    have not_register : ∀ q, ¬ (v.place = .temporary q ∨ v.place = .home q) := by
      rintro q (here | here) <;> simp [Lowered.isDirect, here] at direct
    have fills := fills r_small fun q here => absurd here (not_register q)
    have pool := fills.pool b.pool le_rfl
      fun q here => absurd (.inl here) (not_register q)
    refine ⟨fills.steady.trans loads.steady, le_trans pool loads.pool, ?_⟩
    intro σ a c want within distinct held
    obtain ⟨absent, distinct⟩ := nodup_cons.1 distinct
    obtain ⟨c1, went1, sets⟩ := fills.runs a c (want r)
      (loads.steady.code.within.trans within) (held r v (by simp)).1
    obtain ⟨c', went, stack_eq, assigns⟩ := loads.runs a c1 want within distinct (by
      intro q u member
      obtain ⟨holds, inside⟩ := held q u (by simp [member])
      refine ⟨holds.direct (good q u (by simp [member])).2 inside fun i _ => ?_, inside⟩
      rw [sets.stack])
    refine ⟨c', went1.trans went, stack_eq.trans sets.stack, assigns.arrays.trans sets.arrays,
      assigns.globals.trans sets.globals, assigns.world.trans sets.world, ?_, ?_⟩
    · intro q member
      obtain rfl | member := mem_cons.1 member
      · rw [assigns.others q r_small absent, sets.value]
      · exact assigns.values q member
    · intro q q_small outside
      rw [map_cons, mem_cons, not_or] at outside
      rw [assigns.others q q_small outside.2, sets.others q q_small outside.1]

/-! ## Arguments that wait -/

/-- The register of the argument with number `j`. -/
def argReg (j : Nat) : UInt8 :=
  UInt8.ofNat (j + 1)

theorem toNat_argReg (small : j < maxRegisterArgs) : (argReg j).toNat = j + 1 := by
  have small : j < 10 := small
  exact UInt8.toNat_ofNat_of_lt' (by change j + 1 < 256; omega)

theorem argReg_small (small : j < maxRegisterArgs) : (argReg j).toNat < registerCount := by
  rw [toNat_argReg small]
  have small : j < 10 := small
  change j + 1 < 16
  omega

theorem argReg_inj {j' : Nat} (small : j < maxRegisterArgs) (small' : j' < maxRegisterArgs)
    (same : argReg j = argReg j') : j = j' := by
  have numbers := congrArg UInt8.toNat same
  rw [toNat_argReg small, toNat_argReg small'] at numbers
  exact Nat.succ.inj numbers

/-- The argument that a register is for, given the arguments from number `i` on. -/
def wanted (i : Nat) (vs : List Value) (r : UInt8) : Value :=
  vs[r.toNat - 1 - i]?.getD 0

theorem wanted_argReg {vs : List Value} {v : Value} (small : j < maxRegisterArgs) (found : vs[j - i]? = some v) :
    wanted i vs (argReg j) = v := by
  rw [wanted, toNat_argReg small, Nat.add_sub_cancel, found, Option.getD_some]

theorem wanted_cons (v : Value) (vs : List Value) (small : j < maxRegisterArgs) (later : i + 1 ≤ j) :
    wanted i (v :: vs) (argReg j) = wanted (i + 1) vs (argReg j) := by
  rw [wanted, wanted, toNat_argReg small, Nat.add_sub_cancel,
    show j - i = (j - (i + 1)) + 1 by omega, getElem?_cons_succ]

/-- The registers that arguments will go into. -/
def Arguments.regs (args : Arguments) : List UInt8 :=
  args.waiting ++ args.deferred.map Prod.fst

/-- The value of an argument was left where it is, or pushed. -/
inductive PlacedArgument (n i : Nat) (v : Lowered) (args : Arguments) (b : Body) :
    Arguments → Body → Prop where
  | deferred (early : i < n) (direct : v.isDirect = true) :
      PlacedArgument n i v args b { args with deferred := args.deferred ++ [(argReg i, v)] } b
  | waiting {o : Operand} {b₁ : Body} (early : i < n) (fetches : Fetches v b o b₁) :
      PlacedArgument n i v args b { args with waiting := argReg i :: args.waiting }
        { b₁ with code := b₁.code.emit (.push o.reg), pool := o.leave b₁.pool }
  | stacked {o : Operand} {b₁ : Body} (late : n ≤ i) (fetches : Fetches v b o b₁) :
      PlacedArgument n i v args b args { b₁ with code := b₁.code.emit (.push o.reg), pool := o.leave b₁.pool }

theorem emits_placeArgument (scope : Scope) (callee : String) (n i : Nat) (expected : Ty)
    (span : Span) (v : Lowered) (args : Arguments) :
    Emits (placeArgument scope callee n i expected span v args) fun b args' b' =>
      v.place ≠ .failed → Placed b v → expected.accepts v.ty v.isLiteral = true ∧
        PlacedArgument n i v args b args' b' := by
  refine .of_ite (fun failed => ?_) fun _ => .of_ite (fun _ => ?_) fun accepts => .of_ite (fun now => ?_)
    fun _ => ?_
  · refine .mono (.of_pure _) ?_
    intro b args' b' _ found
    simp [Lowered.isFailed, found] at failed
  · exact .bind_never (emits_complain scope _ _ span) fun _ =>
      .bind (emits_drop v) fun _ => .of_pure _
  · rw [Bool.and_eq_true, decide_eq_true_eq] at now
    refine .mono (.of_pure _) ?_
    rintro b args' b' ⟨rfl, rfl⟩ - -
    exact ⟨by simpa using accepts, .deferred now.1 now.2⟩
  · have rest : Emits (if i < n then return { args with waiting := UInt8.ofNat (i + 1) :: args.waiting }
        else return args)
        fun b args' b' => b' = b ∧
          args' = if i < n then { args with waiting := argReg i :: args.waiting } else args := by
      split
      · exact .mono (.of_pure _) fun b args' b' same => ⟨same.2, same.1⟩
      · exact .mono (.of_pure _) fun b args' b' same => ⟨same.2, same.1⟩
    refine .mono (.bind (emits_operand scope v) fun o => .bind (emits_emitInsn _) fun _ =>
      .bind (emits_release o) fun _ => rest) ?_
    rintro b args' b' ⟨o, b1, fetches, _, _, rfl, _, _, rfl, rfl, rfl⟩ - placed
    refine ⟨by simpa using accepts, ?_⟩
    split
    · next early => exact .waiting early (fetches placed)
    · next late => exact .stacked (Nat.le_of_not_lt late) (fetches placed)

section
variable (placed : PlacedArgument n i v args b args' b')
include placed

theorem PlacedArgument.steady : Steady b b' := by
  cases placed with
  | deferred early direct => exact .refl b
  | @waiting o b1 early fetches | @stacked o b1 late fetches =>
    have fits : (Instruction.push o.reg).Encodable := .one fetches.small rfl
    exact (fetches.steady.trans (.setCode (.emit _ fits))).trans (.setPool _ _)

theorem PlacedArgument.pool {p : RegisterPool} (le : p ≤ b.pool) (spare : Spare p v) :
    p ≤ b'.pool := by
  cases placed with
  | deferred early direct => exact le
  | waiting early fetches | stacked late fetches =>
    exact (fetches.spare spare le).le_leave fetches.small (le_trans le fetches.pool)

theorem PlacedArgument.hasFailed : args'.hasFailed = args.hasFailed := by
  cases placed <;> rfl

theorem PlacedArgument.regs :
    n ≤ i ∧ args'.regs = args.regs ∨ i < n ∧ args'.regs.Perm (argReg i :: args.regs) := by
  cases placed with
  | deferred early direct =>
    refine .inr ⟨early, ?_⟩
    simp only [Arguments.regs, map_append, map_cons, map_nil, ← append_assoc]
    exact perm_append_singleton ..
  | waiting early fetches => exact .inr ⟨early, .refl _⟩
  | stacked late fetches => exact .inl ⟨late, rfl⟩

theorem PlacedArgument.mem_regs {r : UInt8} :
    r ∈ args'.regs ↔ r ∈ args.regs ∨ i < n ∧ r = argReg i := by
  obtain ⟨late, same⟩ | ⟨early, perm⟩ := placed.regs
  · rw [same]
    exact ⟨.inl, fun here => here.resolve_right fun ⟨early, _⟩ => by omega⟩
  · rw [perm.mem_iff, mem_cons, or_comm, and_iff_right early]

theorem PlacedArgument.deferred_cases (r : UInt8) (u : Lowered) (member : (r, u) ∈ args'.deferred) :
    (r, u) ∈ args.deferred ∨ u = v ∧ v.isDirect = true := by
  cases placed with
  | deferred early direct =>
    obtain before | here := mem_append.1 member
    · exact .inl before
    · cases mem_singleton.1 here
      exact .inr ⟨rfl, direct⟩
  | waiting _ _ | stacked _ _ => exact .inl member

end

namespace Setting

variable (w : Setting σ ω)

/-- The arguments from number `i` on were computed, `n` of all of which go into registers. -/
structure Waits (n i : Nat) (p : RegisterPool) (args : Arguments) (c : Core σ) (vs : List Value)
    (c' : Core σ) : Prop where
  stack : c'.stack = c.stack ++ ((vs.drop (n - i)).reverse ++ (args.waiting.map (wanted i vs)).reverse).toArray
  deferred : ∀ r v, (r, v) ∈ args.deferred → v.Holds w.link.code c' (wanted i vs r)
  regs : ∀ q, p.isAllocated q = true → c'.reg q = c.reg q
  globals : c'.globals.size = c.globals.size

/-- What is known of the code of the arguments from number `i` on, and what it does. -/
structure PlacesArgs (n i : Nat) (es : List Expr) (b : Body) (args : Arguments) (b' : Body) :
    Prop where
  steady : Steady b b'
  pool : b.pool ≤ b'.pool
  succeeded : args.hasFailed = false
  range : ∀ r ∈ args.regs, ∃ j, i ≤ j ∧ j < n ∧ r = argReg j
  distinct : args.regs.Nodup
  covers : ∀ j, i ≤ j → j < i + es.length → j < n → argReg j ∈ args.regs
  direct : ∀ r v, (r, v) ∈ args.deferred → v.isDirect = true ∧
    ∀ k, v.place = .slot k → k.toNat < w.scope.stackArgs + b.localReserve
  sim : w.Sound → Precedes w.scope b' w.last → ∀ locals c, w.Matches b locals c →
    w.link.Sim b.pos c (w.meaning.evalArgs locals es) fun vs k c' =>
      k = b'.pos ∧ vs.length = es.length ∧ w.Waits n i b.pool args c vs c'

variable {w}

theorem placesArgs_nil (n i : Nat) (b : Body) : w.PlacesArgs n i [] b {} b where
  steady := .refl b
  pool := le_refl _
  succeeded := rfl
  range := by simp [Arguments.regs]
  distinct := by simp [Arguments.regs]
  covers j low high _ := by
    simp at high
    omega
  direct := by simp
  sim _ _ locals c _ := by
    refine .pure ⟨rfl, rfl, ?_, by simp, fun _ _ => rfl, rfl⟩
    simp

theorem getElem?_grown {stack stack' more : Array Value} (grown : stack' = stack ++ more) (high : n ≤ stack.size) :
    ∀ i < n, stack'[i]? = stack[i]? := by
  intro i low
  rw [grown, Array.getElem?_append_left (by omega)]

theorem map_wanted_cons (few : n ≤ maxRegisterArgs) {regs : List UInt8}
    (range : ∀ r ∈ regs, ∃ j, i + 1 ≤ j ∧ j < n ∧ r = argReg j) (v : Value) (vs : List Value) :
    regs.map (wanted i (v :: vs)) = regs.map (wanted (i + 1) vs) := by
  refine map_congr_left fun r member => ?_
  obtain ⟨j, low, high, rfl⟩ := range r member
  exact wanted_cons v vs (by omega) low

/-- Where the arguments wait once one more was computed and put in its place. -/
theorem Waits.cons {es : List Expr} {b1 b2 : Body} {c c1 c2 : Core σ} {vs : List Value} {x : Value}
    (waits : w.Waits n (i + 1) b.pool args c vs c1) (places : w.PlacesArgs n (i + 1) es b args b1)
    (few : n ≤ maxRegisterArgs) (placed : PlacedArgument n i v args b2 args' b') (sound : w.Sound)
    (rest : Precedes w.scope b' w.last) (rest1 : Precedes w.scope b w.last)
    (high : w.link.code.frame.localsEnd ≤ c.stack.size) (pool : b.pool ≤ b2.pool) (keeps : Keeps b.pool c1 c2)
    (holds : v.Holds w.link.code c2 x) :
    ∃ c3, w.link.code.Goes b2.pos c2 b'.pos c3 ∧ w.link.store c3 = w.link.store c2 ∧
      w.Waits n i b.pool args' c (x :: vs) c3 := by
  have frame := sound.frame
  have reserve := rest1.reserve
  -- What was deferred before is found where it was, as the stack is only added to.
  have deferred : ∀ c3 : Core σ, (∃ more, c3.stack = c.stack ++ more) →
      ∀ r u, (r, u) ∈ args.deferred → u.Holds w.link.code c3 (wanted i (x :: vs) r) := by
    rintro c3 ⟨more, grown⟩ r u member
    obtain ⟨direct, inside⟩ := places.direct r u member
    have listed : r ∈ args.regs :=
      mem_append_right _ (mem_map.2 ⟨_, member, rfl⟩)
    obtain ⟨j, low, below, rfl⟩ := places.range r listed
    rw [wanted_cons x vs (by omega) low]
    refine (waits.deferred _ u member).direct direct (fun k here => ?_) fun q low => ?_
    · have := inside k here
      omega
    · rw [getElem?_grown grown high q low, getElem?_grown waits.stack high q low]
  have waiting := map_wanted_cons few
    (fun r member => places.range r (mem_append_left _ member)) x vs
  have stack2 := keeps.stack.trans waits.stack
  have regs2 : ∀ q, b.pool.isAllocated q = true → c2.reg q = c.reg q := fun q used =>
    (keeps.regs q used).trans (waits.regs q used)
  have globals2 := keeps.globals.trans waits.globals
  -- Pushing a value leaves the registers in use alone.
  have pushes : ∀ {o : Operand} {b3 : Body}, Fetches v b2 o b3 →
      (b3.code.emit (.push o.reg)).Within w.link.code.buffer →
      ∃ c3, w.link.code.Goes b2.pos c2 (b3.code.emit (.push o.reg)).ops.size c3 ∧
        w.link.store c3 = w.link.store c2 ∧ c3.stack = c2.stack.push x ∧
        (∀ q, b.pool.isAllocated q = true → c3.reg q = c.reg q) ∧
        c3.globals.size = c.globals.size := by
    intro o b3 fetches within
    have fits : (Instruction.push o.reg).Encodable := .one fetches.small rfl
    obtain ⟨c3, went, read, still⟩ :=
      fetches.runs w.link.code c2 x ((Grows.emit _ fits).within.trans within) holds
    refine ⟨_, went.trans (goes_emit (does_push o.reg c3) within), still.store, ?_, ?_, ?_⟩
    · simp only [still.stack, read]
    · exact fun q used => (still.regs q (pool q used)).trans (regs2 q used)
    · exact (congrArg Array.size still.globals).trans globals2
  cases placed with
  | deferred early direct =>
    refine ⟨c2, .refl _ c2, rfl, ?_, ?_, regs2, globals2⟩
    · rw [stack2, waiting, show n - i = n - (i + 1) + 1 by omega, drop_succ_cons]
    · intro r u member
      obtain before | here := mem_append.1 member
      · exact deferred c2 ⟨_, stack2⟩ r u before
      · cases mem_singleton.1 here
        rw [wanted_argReg (by omega) (by simp : (x :: vs)[i - i]? = some x)]
        exact holds
  | waiting early fetches =>
    obtain ⟨c3, went, store, stack, regs, globals⟩ :=
      pushes fetches (rest.code.trans sound.code)
    have grown : c3.stack = c.stack ++ ((List.drop (n - i) (x :: vs)).reverse ++
        ((argReg i :: args.waiting).map (wanted i (x :: vs))).reverse).toArray := by
      rw [stack, stack2, show n - i = n - (i + 1) + 1 by omega, map_cons,
        waiting, wanted_argReg (by omega) (by simp : (x :: vs)[i - i]? = some x)]
      simp
    exact ⟨c3, went, store, grown, deferred c3 ⟨_, grown⟩, regs, globals⟩
  | stacked late fetches =>
    obtain ⟨c3, went, store, stack, regs, globals⟩ :=
      pushes fetches (rest.code.trans sound.code)
    -- No argument goes into a register that has a number so high.
    have none_waiting : args.waiting = [] := by
      refine eq_nil_iff_forall_not_mem.2 fun r member => ?_
      obtain ⟨j, low, below, -⟩ := places.range r (mem_append_left _ member)
      omega
    have grown : c3.stack = c.stack ++ ((List.drop (n - i) (x :: vs)).reverse ++
        (args.waiting.map (wanted i (x :: vs))).reverse).toArray := by
      rw [stack, stack2, show n - i = 0 by omega, show n - (i + 1) = 0 by omega, none_waiting]
      simp
    exact ⟨c3, went, store, grown, deferred c3 ⟨_, grown⟩, regs, globals⟩

theorem PlacesArgs.cons {e : Expr} {es : List Expr} {b1 b2 : Body} (places : w.PlacesArgs n (i + 1) es b args b1)
    (computes : w.Computes e b1 v b2) (placed : PlacedArgument n i v args b2 args' b') (few : n ≤ maxRegisterArgs)
    (tidy : Tidy w.scope b) : w.PlacesArgs n i (e :: es) b args' b' := by
  have pool2 := le_trans places.pool computes.delivers.pool
  have steady2 := places.steady.trans computes.delivers.steady
  have steady := steady2.trans placed.steady
  have pool : b.pool ≤ b'.pool :=
    placed.pool pool2 (computes.delivers.spare.mono places.pool)
  have fresh : i < n → argReg i ∉ args.regs := by
    intro early member
    obtain ⟨j, low, high, same⟩ := places.range _ member
    have := argReg_inj (by omega) (by omega) same
    omega
  have sim : w.Sound → Precedes w.scope b' w.last → ∀ locals c, w.Matches b locals c →
      w.link.Sim b.pos c (w.meaning.evalArgs locals (e :: es)) fun vs k c' =>
        k = b'.pos ∧ vs.length = (e :: es).length ∧ w.Waits n i b.pool args' c vs c' := by
    intro sound rest locals c same
    have grown : Precedes w.scope b b' := .of_steady steady
    have rest2 : Precedes w.scope b2 w.last := (Precedes.of_steady placed.steady).trans rest
    have unfolded : w.meaning.evalArgs locals (e :: es) = do
        let vs ← w.meaning.evalArgs locals es
        let x ← w.meaning.value locals e
        return x :: vs := by
      simp only [Meaning.evalArgs, Meaning.value, bind_assoc]
    rw [unfolded]
    refine (places.sim sound (computes.grown.trans rest2) locals c same).bind ?_
    rintro vs k c1 ⟨rfl, length, waits⟩
    have high := same.high
    have same1 : w.Matches b1 locals c1 := by
      refine (same.above tidy sound ?_ (getElem?_grown waits.stack high) waits.regs waits.globals
        (grown.trans rest)).steady places.steady
      rw [waits.stack, Array.size_append]
      omega
    refine (computes.sim sound rest2 locals c1 same1).bind ?_
    rintro x k c2 ⟨rfl, holds, keeps⟩
    obtain ⟨c3, went, store, waits⟩ := waits.cons places few placed sound rest (grown.trans rest)
      high pool2 (keeps.mono places.pool) holds
    exact .goes went store (.pure ⟨rfl, by simp [length], waits⟩)
  refine ⟨steady, pool, placed.hasFailed.trans places.succeeded, ?_, ?_, ?_, ?_, sim⟩
  · intro r member
    obtain before | ⟨early, rfl⟩ := placed.mem_regs.1 member
    · obtain ⟨j, low, high, rfl⟩ := places.range r before
      exact ⟨j, by omega, high, rfl⟩
    · exact ⟨i, Nat.le_refl _, early, rfl⟩
  · obtain ⟨-, same⟩ | ⟨early, perm⟩ := placed.regs
    · rw [same]
      exact places.distinct
    · rw [perm.nodup_iff, nodup_cons]
      exact ⟨fresh early, places.distinct⟩
  · intro j low high below
    rw [placed.mem_regs]
    by_cases here : j = i
    · subst here
      exact .inr ⟨below, rfl⟩
    · rw [length_cons] at high
      exact .inl (places.covers j (by omega) (by omega) below)
  · intro r u member
    obtain before | ⟨rfl, direct⟩ := placed.deferred_cases r u member
    · exact places.direct r u before
    · refine ⟨direct, fun k here => ?_⟩
      rw [← places.steady.localReserve]
      exact computes.inside k here

end Setting

/-! ## The call itself -/

/-- The instruction that calls a function. -/
def callInsn (f : UInt32) : Instruction :=
  if f ≤ 0xFF then .call8 f.toUInt8 else .call f

theorem encodable_callInsn (f : UInt32) : (callInsn f).Encodable := by
  rw [callInsn]
  split
  · simp [Instruction.Encodable, nibbles]
  · simp [Instruction.Encodable, nibbles]

theorem step_callInsn (env : Env σ) (frame : Frame) (f : UInt32) (s : State σ) (offset next : Nat) :
    step env frame offset next (callInsn f) s = (.ok (.call f), s) := by
  rw [callInsn]
  split
  · next le =>
    have bound : f.toNat ≤ 255 := le
    have same : f.toUInt8.toUInt32 = f := by
      apply UInt32.toNat.inj
      rw [UInt8.toNat_toUInt32, UInt32.toNat_toUInt8]
      omega
    simp only [step, same]
  · rfl

/-- A run of a call does what evaluation does, and takes the arguments off the stack. -/
theorem Setting.sim_call {w : Setting σ ω} {index : Nat} {f : Function}
    (serves : Serves w.link w.meaning.invoke w.scope.decls.globals.size index f) {k : Nat}
    (found : w.link.code.buffer.ops[k]? = some (.plain (callInsn (UInt32.ofNat index)))) {args : List Value}
    {below : Array Value} (count : args.length = f.params.length)
    (regs : ∀ i v, i < f.registerArgs → args[i]? = some v → c.reg (argReg i) = v)
    (stack : c.stack = below ++ (args.drop f.registerArgs).reverse.toArray)
    (globals : c.globals.size = w.scope.decls.globals.size) :
    w.link.Sim k c (w.meaning.invoke index args) fun v k' c' =>
      k' = k + 1 ∧ c'.stack = below ∧ c'.reg returnReg = v ∧ c'.globals.size = c.globals.size := by
  rintro s rfl consistent
  obtain limited | ran := runFrom_call found (step_callInsn _ _ _) s
  · exact .inl limited
  obtain limited | ⟨v, s', called, given, kept, rest⟩ | ⟨t, fault, s', culprit, called, kind, given, other⟩ :=
    serves s.tick args below count regs stack globals consistent
  · rw [ran]
    refine .inl ⟨limited.1, ?_⟩
    obtain ⟨limit, cut⟩ := limited.2
    refine ⟨limit, ?_⟩
    simp only [follow]
    generalize w.link.code.callee (UInt32.ofNat index) s.tick = out at cut
    obtain ⟨⟨r, s'⟩, culprit⟩ := out
    cases cut
    rfl
  · obtain limited | reaches := reaches_call found (step_callInsn _ _ _) called
    · exact .inl limited
    · exact .inr (.inl ⟨v, k + 1, s', given, reaches, kept, rfl, rest⟩)
  · refine .inr (.inr ⟨t, fault, s', culprit, given, ?_, kind, other⟩)
    rw [ran]
    simp only [follow, called]

/-- A function was called once its arguments had been computed. -/
inductive Finished (index : Nat) (ret : Ty) (saved : List UInt8) (args : Arguments) (b : Body) :
    Lowered → Body → Prop where
  | void {b₁ b₂ b' : Body} (pops : Pops args.waiting b b₁) (loads : Loads args.deferred b₁ b₂)
      (void : ret.isVoid = true)
      (restores : Pops saved.reverse { b₂ with code := b₂.code.emit (callInsn (UInt32.ofNat index)) } b') :
      Finished index ret saved args b ⟨.nothing, ret, none⟩ b'
  | value {b₁ b₂ b' : Body} {dst : UInt8} {pool : RegisterPool} (pops : Pops args.waiting b b₁)
      (loads : Loads args.deferred b₁ b₂) (valued : ret.isVoid = false)
      (taken : b₂.pool.allocate? = some (dst, pool))
      (restores : Pops saved.reverse
        { b₂ with
          pool, code := (b₂.code.emit (callInsn (UInt32.ofNat index))).mov dst returnReg } b') :
      Finished index ret saved args b ⟨.temporary dst, ret, none⟩ b'

theorem emits_finishCall (scope : Scope) (index : Nat) (ret : Ty) (saved : List UInt8) (args : Arguments) :
    Emits (finishCall scope index ret saved args) fun b v b' => args.hasFailed = false →
      (∀ r ∈ args.regs, r.toNat < registerCount) → (∀ r v, (r, v) ∈ args.deferred → v.isDirect = true) →
      (∀ r ∈ saved, r.toNat < registerCount) → Finished index ret saved args b v b' := by
  have drops : ∀ ds : List (UInt8 × Lowered),
      Emits (ds.forM fun (_, v) => drop v) fun _ _ _ => True := by
    intro ds
    induction ds with
    | nil => exact .mono (.of_pure ()) fun _ _ _ _ => trivial
    | cons d ds ih => exact .mono (.bind (emits_drop d.2) fun _ => ih) fun _ _ _ _ => trivial
  refine .mono (.bind (emits_popAll _) fun _ => .ite
    (.bind (drops _) fun _ => .bind (emits_popAll _) fun _ => .of_pure _)
    (.bind (emits_loadAll _) fun _ => .bind (emits_onCode _) fun _ => .ite
      (.bind (emits_popAll _) fun _ => .of_pure _)
      (.bind (emits_allocate scope) fun dst => .bind (emits_onCode _) fun _ =>
        .bind (emits_popAll _) fun _ => .of_pure _))) ?_
  rintro b v b' ⟨_, b1, pops, ⟨failed, -⟩ | ⟨-, _, b2, loads, _, _, rfl, rest⟩⟩ ok small direct saved_small
  · rw [failed] at ok
    cases ok
  have pops := pops fun r member => small r (mem_append_left _ member)
  have loads := loads fun r v member =>
    ⟨small r (mem_append_right _ (mem_map.2 ⟨_, member, rfl⟩)), direct r v member⟩
  have restored : ∀ r ∈ saved.reverse, r.toNat < registerCount :=
    fun r member => saved_small r (mem_reverse.1 member)
  obtain ⟨void, _, b3, restores, rfl, rfl⟩ |
    ⟨valued, dst, _, ⟨pool, taken, rfl⟩, _, _, rfl, _, b3, restores, rfl, rfl⟩ := rest
  · exact .void pops loads void (restores restored)
  · exact .value pops loads (Bool.eq_false_iff.2 valued) taken (restores restored)

theorem grows_callInsn (c : CodeBuffer) (f : UInt32) : c.Grows (c.emit (callInsn f)) :=
  .emit c (encodable_callInsn f)

theorem Finished.delivers {index : Nat} {ret : Ty} {saved : List UInt8}
    (finished : Finished index ret saved args b v b') {p : RegisterPool} (le : p ≤ b.pool) : Delivers p b v b' := by
  cases finished with
  | @void b1 b2 _ pops loads void restores =>
    have steady := (pops.steady.trans loads.steady).trans
      ((Steady.setCode (grows_callInsn b2.code _)).trans restores.steady)
    refine ⟨steady, ?_, by rintro r (⟨⟨⟩⟩ | ⟨⟨⟩⟩), by rintro r ⟨⟩, by rintro ⟨⟩⟩
    rw [restores.pool]
    exact le_trans le (pops.pool ▸ loads.pool)
  | @value b1 b2 _ dst pool pops loads valued taken restores =>
    obtain ⟨member, free, used⟩ := allocate?_eq_some taken
    have dst_small := (mem_candidates member).1
    have grows := (grows_callInsn b2.code (UInt32.ofNat index)).trans
      (CodeBuffer.grows_mov _ dst_small (by decide : returnReg.toNat < registerCount))
    have steady := (pops.steady.trans loads.steady).trans
      (((Steady.setPool b2 pool).trans (.setCode grows)).trans restores.steady)
    have le2 := le_trans le (pops.pool ▸ loads.pool)
    refine .temporary steady ?_ ?_ (isAllocated_eq_false_of_le le2 free)
    · rw [restores.pool]
      exact fun q here => by simp only [used, le2 q here, ite_self]
    · rw [restores.pool]
      simp [used]

namespace Setting

variable {w : Setting σ ω} {es : List Expr} {index : Nat} {f : Function}

/-- Just before a call the arguments are where the function that is called expects them. -/
theorem Waits.loaded {b1 b2 b3 : Body} {vs : List Value} {c c1 : Core σ} (waits : w.Waits n 0 b.pool args c vs c1)
    (places : w.PlacesArgs n 0 es b args b1) (few : n ≤ maxRegisterArgs) (length : vs.length = es.length)
    (pops : Pops args.waiting b1 b2) (loads : Loads args.deferred b2 b3) (sound : w.Sound)
    (rest : Precedes w.scope b3 w.last) (high : w.link.code.frame.localsEnd ≤ c.stack.size) :
    ∃ c3, w.link.code.Goes b1.pos c1 b3.pos c3 ∧ w.link.store c3 = w.link.store c1 ∧
      c3.stack = c.stack ++ (vs.drop n).reverse.toArray ∧ (∀ i v, i < n → vs[i]? = some v → c3.reg (argReg i) = v) ∧
      c3.globals.size = c.globals.size := by
  obtain ⟨distinct, distinct', apart⟩ := nodup_append.1 places.distinct
  have frame := sound.frame
  have reserve := ((Precedes.of_steady (places.steady.trans (pops.steady.trans loads.steady))).trans rest).reserve
  have within := rest.code.trans sound.code
  -- First the arguments that were pushed leave the stack.
  have stack1 : c1.stack = (c.stack ++ (vs.drop n).reverse.toArray) ++
      (args.waiting.map (wanted 0 vs)).reverse.toArray := by
    rw [waits.stack]
    simp
  obtain ⟨c2, went2, stack2, popped⟩ := pops.runs w.link.code c1 _ (wanted 0 vs)
    (loads.steady.code.within.trans within) distinct stack1 (by rw [Array.size_append]; omega)
  -- Then those that stayed where they were are loaded.
  obtain ⟨c3, went3, stack3, loaded⟩ := loads.runs w.link.code c2 (wanted 0 vs) within distinct' (by
    intro r v member
    obtain ⟨direct, inside⟩ := places.direct r v member
    have inside : ∀ k, v.place = .slot k →
        w.link.code.frame.base + k.toNat < w.link.code.frame.localsEnd := by
      intro k here
      have := inside k here
      omega
    refine ⟨(waits.deferred r v member).direct direct inside fun i low => ?_, inside⟩
    rw [getElem?_grown stack2 high i low, getElem?_grown waits.stack high i low])
  refine ⟨c3, went2.trans went3, (loaded.store w.link).trans (popped.store w.link), stack3.trans stack2, ?_, ?_⟩
  · intro i v early found
    have i_lt : i < vs.length := (List.getElem?_eq_some_iff.1 found).1
    have small := argReg_small (j := i) (by omega)
    have here : wanted 0 vs (argReg i) = v := wanted_argReg (by omega) found
    have listed := places.covers i (Nat.zero_le i) (by omega) early
    rw [← here]
    obtain waiting | deferred := mem_append.1 listed
    · rw [loaded.others _ small fun member => apart _ waiting _ member rfl]
      exact popped.values _ waiting
    · exact loaded.values _ deferred
  · rw [loaded.globals, popped.globals]
    exact waits.globals

/-- Just before a call the registers in use are saved on the stack, below the arguments that are not in
registers, the last one of which is deepest. -/
structure Passes (f : Function) (saved : List UInt8) (c : Core σ) (vs : List Value) (c' : Core σ) :
    Prop where
  stack : c'.stack = c.stack ++ (saved.map c.reg).toArray ++ (vs.drop f.registerArgs).reverse.toArray
  regs : ∀ i v, i < f.registerArgs → vs[i]? = some v → c'.reg (argReg i) = v
  globals : c'.globals.size = c.globals.size

/-- The run has got behind a call: the registers in use and the stack are as before it, and a result is in a
register. -/
def Regains (p : RegisterPool) (c : Core σ) (f : Function) (v : Lowered) (b' : Body) (x : Value) (k : Nat)
    (c' : Core σ) : Prop :=
  k = b'.pos ∧ Keeps p c c' ∧
    if f.ret.isVoid then v.place = .nothing else ∃ dst, v.place = .temporary dst ∧ c'.reg dst = x

/-- The code behind the arguments of a call brings them to the function, calls it, and restores the registers
that were saved. -/
theorem Finished.passes {b1 b2 : Body} (finished : Finished index f.ret b.pool.allocated args b2 v b')
    (serves : Serves w.link w.meaning.invoke w.scope.decls.globals.size index f)
    (few : f.registerArgs ≤ maxRegisterArgs) (pool : b1.pool = b.pool)
    (places : w.PlacesArgs f.registerArgs 0 es b1 args b2) (sound : w.Sound) (rest : Precedes w.scope b' w.last) :
    ∃ k, w.link.code.buffer.ops[k]? = some (.plain (callInsn (UInt32.ofNat index))) ∧
      ∀ c : Core σ, w.link.code.frame.localsEnd ≤ c.stack.size →
        c.globals.size = w.scope.decls.globals.size → ∀ vs : List Value,
        (∀ c2, vs.length = es.length → w.Waits f.registerArgs 0 b1.pool args
            { c with stack := c.stack ++ (b.pool.allocated.map c.reg).toArray } vs c2 →
          ∃ c3, w.link.code.Goes b2.pos c2 k c3 ∧ w.link.store c3 = w.link.store c2 ∧
            Passes f b.pool.allocated c vs c3) ∧
        ∀ c3, vs.length = f.params.length → Passes f b.pool.allocated c vs c3 →
          w.link.Sim k c3 (w.meaning.invoke index vs) (Regains b.pool c f v b') := by
  have within := rest.code.trans sound.code
  have distinct : b.pool.allocated.reverse.Nodup :=
    (reverse_perm _).nodup_iff.2 b.pool.nodup_allocated
  -- Up to the call both cases are alike.
  have loaded : ∀ {b3 b4 : Body}, Pops args.waiting b2 b3 → Loads args.deferred b3 b4 →
      Precedes w.scope b4 w.last → ∀ c : Core σ, w.link.code.frame.localsEnd ≤ c.stack.size →
      ∀ vs c2, vs.length = es.length → w.Waits f.registerArgs 0 b1.pool args
        { c with stack := c.stack ++ (b.pool.allocated.map c.reg).toArray } vs c2 →
      ∃ c3, w.link.code.Goes b2.pos c2 b4.pos c3 ∧ w.link.store c3 = w.link.store c2 ∧
        Passes f b.pool.allocated c vs c3 := by
    intro b3 b4 pops loads rest4 c high vs c2 length waits
    obtain ⟨c3, went, store, stack, regs, globals⟩ := waits.loaded places few length pops loads sound rest4
      (by rw [Array.size_append]; omega)
    exact ⟨c3, went, store, stack, regs, globals⟩
  -- Restoring the saved registers closes both cases, too.
  have saved : ∀ c : Core σ, c.stack ++ (b.pool.allocated.map c.reg).toArray =
      c.stack ++ (b.pool.allocated.reverse.map c.reg).reverse.toArray := by
    intro c
    rw [map_reverse, reverse_reverse]
  have keeps : ∀ {c c' c'' : Core σ}, c''.stack = c.stack →
      Assigns b.pool.allocated.reverse c.reg c' c'' → c'.globals.size = c.globals.size →
      Keeps b.pool c c'' := by
    intro c c' c'' stack assigns globals
    refine ⟨stack, fun q used => assigns.values q ?_, assigns.globals ▸ globals⟩
    exact mem_reverse.2 (mem_allocated.2 used)
  cases finished with
  | @void b3 b4 _ pops loads void restores =>
    have grows := grows_callInsn b4.code (UInt32.ofNat index)
    have within5 := restores.steady.code.within.trans within
    have rest4 : Precedes w.scope b4 w.last :=
      (Precedes.of_steady ((Steady.setCode grows).trans restores.steady)).trans rest
    refine ⟨b4.pos, within5.emitted, fun c high total vs => ⟨loaded pops loads rest4 c high vs, ?_⟩⟩
    intro c3 count passes
    refine ((sim_call serves within5.emitted count passes.regs passes.stack
      (passes.globals.trans total)).then_goes ?_)
    rintro x k c4 ⟨rfl, stack4, -, globals4⟩
    obtain ⟨c5, went5, stack5, assigns⟩ := restores.runs w.link.code c4 c.stack c.reg within
      distinct (stack4.trans (saved c)) high
    rw [Body.pos, size_ops_emit] at went5
    refine ⟨_, c5, went5, assigns.store w.link, rfl, keeps stack5 assigns (globals4.trans passes.globals), ?_⟩
    rw [if_pos void]
  | @value b3 b4 _ dst pool' pops loads valued taken restores =>
    obtain ⟨member, free, -⟩ := allocate?_eq_some taken
    have dst_small := (mem_candidates member).1
    have grows := grows_callInsn b4.code (UInt32.ofNat index)
    have grows' := CodeBuffer.grows_mov (b4.code.emit (callInsn (UInt32.ofNat index))) dst_small
      (by decide : returnReg.toNat < registerCount)
    have within5 := restores.steady.code.within.trans within
    have here := (grows'.within.trans within5).emitted
    have rest4 : Precedes w.scope b4 w.last :=
      (Precedes.of_steady (((Steady.setPool b4 pool').trans
        (.setCode (grows.trans grows'))).trans restores.steady)).trans rest
    refine ⟨b4.pos, here, fun c high total vs => ⟨loaded pops loads rest4 c high vs, ?_⟩⟩
    intro c3 count passes
    refine ((sim_call serves here count passes.regs passes.stack (passes.globals.trans total)).then_goes ?_)
    rintro x k c4 ⟨rfl, stack4, result, globals4⟩
    have went5 := CodeBuffer.goes_mov within5 c4
    have sets := Sets.setReg c4 (c4.reg returnReg) dst_small
    generalize c4.setReg dst (c4.reg returnReg) = c5 at went5 sets
    obtain ⟨c6, went6, stack6, assigns⟩ := restores.runs w.link.code c5 c.stack c.reg within
      distinct (sets.stack.trans (stack4.trans (saved c))) high
    rw [size_ops_emit] at went5
    -- The result is in a register that was free before the call.
    have unsaved : dst ∉ b.pool.allocated.reverse := by
      rw [mem_reverse, mem_allocated]
      have le : b.pool ≤ b4.pool :=
        pool ▸ le_trans places.pool (pops.pool ▸ loads.pool)
      exact Bool.eq_false_iff.1 (isAllocated_eq_false_of_le le free)
    have unchanged : w.link.store c6 = w.link.store c4 := by
      rw [assigns.store w.link, Link.store, Link.store, sets.globals, sets.arrays, sets.world]
    refine ⟨_, c6, went5.trans went6, unchanged, rfl, keeps stack6 assigns ?_, ?_⟩
    · rw [sets.globals, globals4, passes.globals]
    · rw [if_neg (Bool.eq_false_iff.1 valued)]
      exact ⟨dst, rfl, by rw [assigns.others dst dst_small unsaved, sets.value, result]⟩

/-- How the code of a call came about. -/
inductive CallCode (w : Setting σ ω) (callee : Ident) (es : List Expr) (index : Nat) (f : Function)
    (b : Body) (v : Lowered) (b' : Body) : Prop where
  | mk {b₁ b₂ : Body} {args : Arguments}
      (at_index : w.scope.decls.functions.find? callee.name = some index)
      (found : w.scope.decls.functions.lookup? callee.name = some f)
      (count : f.params.length = es.length) (few : f.registerArgs ≤ maxRegisterArgs)
      (pushes : Pushes b.pool.allocated b b₁) (places : w.PlacesArgs f.registerArgs 0 es b₁ args b₂)
      (read : ArgumentsRead w.scope w.meaning f.params es b.locals)
      (finished : Finished index f.ret b.pool.allocated args b₂ v b')

/-- The code of a call computes the arguments, gives them to the function, and goes on with its result. -/
theorem CallCode.passes {callee : Ident} (code : w.CallCode callee es index f b v b') (tidy : Tidy w.scope b)
    (sound : w.Sound) (rest : Precedes w.scope b' w.last) :
    ∃ k, w.link.code.buffer.ops[k]? = some (.plain (callInsn (UInt32.ofNat index))) ∧
      ∀ locals c, w.Matches b locals c → (w.link.Sim b.pos c (w.meaning.evalArgs locals es) fun vs k' c' =>
          k' = k ∧ vs.length = es.length ∧ Passes f b.pool.allocated c vs c') ∧
        ∀ vs c', vs.length = es.length → Passes f b.pool.allocated c vs c' →
          w.link.Sim k c' (w.meaning.invoke index vs) (Regains b.pool c f v b') := by
  obtain @⟨b1, b2, args, at_index, found, count, few, pushes, places, -, finished⟩ := code
  have serves := sound.serves callee.name index f at_index found
  have delivers := finished.delivers le_rfl
  have rest2 := (Precedes.of_steady delivers.steady).trans rest
  have rest1 := (Precedes.of_steady (pushes.steady.trans places.steady)).trans rest2
  obtain ⟨k, here, passes⟩ := Finished.passes finished serves few pushes.pool places sound rest
  refine ⟨k, here, fun locals c same => ⟨?_, ?_⟩⟩
  · have high := same.high
    have same1 : w.Matches b locals
        { c with stack := c.stack ++ (b.pool.allocated.map c.reg).toArray } :=
      same.above tidy sound (by simp; omega) (getElem?_grown rfl high) (fun _ _ => rfl) rfl rest1
    have within1 := (places.steady.code.within.trans rest2.code).trans sound.code
    refine .goes (pushes.runs w.link.code c within1) rfl ?_
    refine (places.sim sound rest2 locals _ (same1.steady pushes.steady)).then_goes ?_
    rintro vs _ c2 ⟨rfl, length, waits⟩
    obtain ⟨c3, went, store, passes⟩ := (passes c high same.globals vs).1 c2 length waits
    exact ⟨k, c3, went, store, rfl, length, passes⟩
  · exact fun vs c' length => (passes c same.high same.globals vs).2 c' (length.trans count.symm)

theorem Lowers.call {callee : Ident} (span : Span) (code : w.CallCode callee es index f b v b')
    (tidy : Tidy w.scope b) : w.Lowers (.call callee es span) b v b' := by
  obtain @⟨b1, b2, args, at_index, found, count, few, pushes, places, read, finished⟩ := id code
  have delivers := finished.delivers (pushes.pool ▸ places.pool)
  have steady := (pushes.steady.trans places.steady).trans delivers.steady
  have reads : Reads w.scope w.meaning (.call callee es span) v b.locals :=
    .call span at_index found read (by cases finished <;> exact ⟨rfl, rfl⟩)
  refine ⟨⟨⟨steady, delivers.pool, delivers.placed, delivers.spare, delivers.found⟩, ?_, ?_, reads⟩, ?_⟩
  · intro k here
    cases finished <;> cases here
  · intro i here
    cases finished <;> cases here
  · intro sound rest locals c same
    obtain ⟨decl, function_eq, ret_eq, params_eq⟩ :=
      sound.names.function_some callee.name index f at_index found
    obtain ⟨k, -, passes⟩ := code.passes tidy sound rest
    obtain ⟨gets, calls⟩ := passes locals c same
    refine gets.bind ?_
    rintro vs _ c2 ⟨rfl, length, passes⟩
    have called : w.meaning.call callee.name vs = do
        let x ← w.meaning.invoke index vs
        return if f.ret.isVoid then .nothing else .value x := by
      simp only [Meaning.call, function_eq, ret_eq]
      rw [if_pos (by rw [← length_map (f := (·.ty)), params_eq, count, length])]
    rw [called]
    refine (calls vs c2 length passes).bind ?_
    rintro x _ c3 ⟨rfl, keeps, result⟩
    refine .pure ⟨rfl, ?_, keeps⟩
    split at result
    · next void =>
      rw [if_pos void]
      exact result
    · next valued =>
      obtain ⟨dst, place, holds⟩ := result
      rw [if_neg valued, Lowered.Answers, Lowered.Holds, place]
      exact holds

end Setting

end Emission

end RegisterLang
