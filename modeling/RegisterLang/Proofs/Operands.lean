import RegisterLang.Proofs.Places

/-! # Values in registers

What the choice of instructions amounts to, and what it takes to bring a value into a register.
-/

namespace RegisterLang

open Machine Activation RegisterPool

variable {σ : Type} {dst : UInt8} {a : Activation σ}

/-! ## Choosing instructions -/

variable {v : UInt64}

theorem toUInt8_toUInt64_of_le (small : v ≤ 0xFF) : v.toUInt8.toUInt64 = v := by
  have bound : v.toNat ≤ 255 := small
  apply UInt64.toNat.inj
  rw [UInt8.toNat_toUInt64, UInt64.toNat_toUInt8]
  omega

theorem toUInt16_toUInt64_of_le (small : v ≤ 0xFFFF) : v.toUInt16.toUInt64 = v := by
  have bound : v.toNat ≤ 65535 := small
  apply UInt64.toNat.inj
  rw [UInt16.toNat_toUInt64, UInt64.toNat_toUInt16]
  omega

theorem toUInt32_toUInt64_of_le (small : v ≤ 0xFFFFFFFF) : v.toUInt32.toUInt64 = v := by
  have bound : v.toNat ≤ 4294967295 := small
  apply UInt64.toNat.inj
  rw [UInt32.toNat_toUInt64, UInt64.toNat_toUInt32]
  omega

namespace Instruction

/-- The instruction that loads an integer. -/
def intLoad (dst : UInt8) (value : UInt64) : Instruction :=
  if value ≤ 0xF then .ldi4 dst value.toUInt8
  else if value ≤ 0xFF then .ldi8 dst value.toUInt8
  else if value ≤ 0xFFFF then .ldi16 dst value.toUInt16
  else if value ≤ 0xFFFFFFFF then .ldi32 dst value.toUInt32
  else .ldi64 dst value

theorem encodable_intLoad (small : dst.toNat < registerCount) (value : UInt64) : (intLoad dst value).Encodable := by
  rw [intLoad]
  split
  · next le =>
    have bound : value.toNat ≤ 15 := le
    have value_lt : value.toUInt8 < 16 := by
      change value.toUInt8.toNat < 16
      rw [UInt64.toNat_toUInt8]
      omega
    exact .two small value_lt rfl
  · repeat' split
    all_goals exact .one small rfl

theorem does_intLoad (a : Activation σ) (dst : UInt8) (value : UInt64) (c : Core σ) :
    a.Does (intLoad dst value) c (c.setReg dst value) := by
  rw [intLoad]
  split
  · next le =>
    exact does_load (fun _ _ _ => rfl) (toUInt8_toUInt64_of_le (UInt64.le_trans le (by decide)))
  split
  · next le => exact does_load (fun _ _ _ => rfl) (toUInt8_toUInt64_of_le le)
  split
  · next le => exact does_load (fun _ _ _ => rfl) (toUInt16_toUInt64_of_le le)
  split
  · next le => exact does_load (fun _ _ _ => rfl) (toUInt32_toUInt64_of_le le)
  · exact does_load (fun _ _ _ => rfl) rfl

/-- The instruction that loads a constant of some type. -/
def constLoad (dst : UInt8) (bits : UInt64) (ty : Ty) : Instruction :=
  if ty.isConstString then .ldstr dst bits.toUInt32
  else if ty.isFloat then .ldf dst bits
  else intLoad dst bits

theorem encodable_constLoad (small : dst.toNat < registerCount) (bits : UInt64) (ty : Ty) :
    (constLoad dst bits ty).Encodable := by
  rw [constLoad]
  split
  · exact .one small rfl
  split
  · exact .one small rfl
  · exact encodable_intLoad small bits

theorem does_constLoad (dst : UInt8) {bits : UInt64} {ty : Ty} {x : Value} (c : Core σ)
    (constant : Emission.ConstantIs a.env.image bits ty x) : a.Does (constLoad dst bits ty) c (c.setReg dst x) := by
  rw [Emission.ConstantIs] at constant
  rw [constLoad]
  split at constant
  · next string =>
    obtain ⟨inside, rfl⟩ := constant
    rw [if_pos string]
    exact does_ldstr dst c inside
  · next other =>
    subst constant
    rw [if_neg other]
    split
    · exact does_load (fun _ _ _ => rfl) rfl
    · exact does_intLoad a dst x c

end Instruction

namespace CodeBuffer

open Instruction

theorem loadConst_eq (c : CodeBuffer) (dst : UInt8) (bits : UInt64) (ty : Ty) :
    c.loadConst dst bits ty = c.emit (constLoad dst bits ty) := by
  rw [loadConst, constLoad]
  split
  · rfl
  split
  · rfl
  · rfl

variable {c : CodeBuffer} {src : UInt8}

theorem goes_emit {i : Instruction} {s s' : Core σ} (does : a.Does i s s') (within : (c.emit i).Within a.buffer) :
    a.Goes c.ops.size s (c.emit i).ops.size s' := by
  rw [size_ops_emit]
  exact does.goes within.emitted

theorem grows_mov (c : CodeBuffer) (dst_small : dst.toNat < registerCount) (src_small : src.toNat < registerCount) :
    c.Grows (c.mov dst src) := by
  rw [mov]
  split
  · exact .emit c (.two dst_small src_small rfl)
  · exact .refl c

theorem goes_mov (within : (c.mov dst src).Within a.buffer) (s : Core σ) :
    a.Goes c.ops.size s (c.mov dst src).ops.size (s.setReg dst (s.reg src)) := by
  rw [mov] at within ⊢
  split
  · next apart =>
    rw [if_pos apart] at within
    exact goes_emit (does_mov dst src s) within
  · next same =>
    rw [← Decidable.of_not_not same, s.setReg_reg]
    exact .refl _ s

theorem arith?_of_immOp? {op : ArithOp} {immOp : ImmOp} (form : immOp? op = some immOp)
    {kind : NumKind} (whole : kind ≠ .float) (x imm : Value) :
    Value.arith? op kind x imm = some (Value.arithImm immOp x imm) := by
  cases op <;> cases form <;> cases kind <;> first | rfl | exact absurd rfl whole

theorem goes_arithImm {c' : CodeBuffer} {op : ArithOp} {imm : UInt64} (made : c.arithImm? op dst src imm = some c') :
    (dst.toNat < registerCount → src.toNat < registerCount → c.Grows c') ∧
    ∀ {σ : Type} (a : Activation σ) (s : Core σ) (kind : NumKind), kind ≠ .float → c'.Within a.buffer →
      ∃ v, Value.arith? op kind (s.reg src) imm = some v ∧ a.Goes c.ops.size s c'.ops.size (s.setReg dst v) := by
  rw [arithImm?] at made
  split at made
  · cases made
  next immOp form =>
  split at made
  · next one =>
    obtain ⟨rfl, rfl⟩ : imm = 1 ∧ immOp = .add := by simpa using one
    cases made
    refine ⟨fun dst_lt src_lt => (c.grows_mov dst_lt src_lt).trans (.emit _ (.one dst_lt rfl)),
      fun a s kind whole within => ⟨_, arith?_of_immOp? form whole _ _, ?_⟩⟩
    · have moved := goes_mov ((within_emit _ _).trans within) s
      simpa [Value.arithImm] using moved.trans (goes_emit (does_inc dst _) within)
  split at made
  · next one =>
    obtain ⟨rfl, rfl⟩ : imm = 1 ∧ immOp = .sub := by simpa using one
    cases made
    refine ⟨fun dst_lt src_lt => (c.grows_mov dst_lt src_lt).trans (.emit _ (.one dst_lt rfl)),
      fun a s kind whole within => ⟨_, arith?_of_immOp? form whole _ _, ?_⟩⟩
    · have moved := goes_mov ((within_emit _ _).trans within) s
      simpa [Value.arithImm] using moved.trans (goes_emit (does_dec dst _) within)
  split at made
  · next le =>
    cases made
    refine ⟨fun dst_lt src_lt => .emit c (.two dst_lt src_lt rfl), fun a s kind whole within =>
      ⟨_, arith?_of_immOp? form whole _ _, ?_⟩⟩
    · have went := goes_emit (does_arithImm8 immOp dst src _ s) within
      rwa [toUInt8_toUInt64_of_le le] at went
  split at made
  · next le =>
    cases made
    refine ⟨fun dst_lt src_lt => .emit c (.two dst_lt src_lt rfl), fun a s kind whole within =>
      ⟨_, arith?_of_immOp? form whole _ _, ?_⟩⟩
    · have went := goes_emit (does_arithImm16 immOp dst src _ s) within
      rwa [toUInt16_toUInt64_of_le le] at went
  · cases made

/-- Code that was emitted for a constant leaves what the plain form leaves: a load sets one register, and an operation
on a constant does what it does on a register that holds it. It has no such form for a quotient and for constants of
more than sixteen bits, and then there is no code. -/
theorem goes_shortest_forms {σ : Type} (a : Activation σ) (c : CodeBuffer) (op : ArithOp) (dst src : UInt8)
    (imm : UInt64) (s : Core σ) :
    ((c.loadInt dst imm).Within a.buffer → a.Goes c.ops.size s (c.loadInt dst imm).ops.size (s.setReg dst imm)) ∧
    (∀ c', c.arithImm? op dst src imm = some c' → c'.Within a.buffer → ∀ kind, kind ≠ .float → ∀ r, s.reg r = imm →
      ∃ s', a.Goes c.ops.size s c'.ops.size s' ∧ a.Does (.arith op kind dst src r) s s') ∧
    (c.arithImm? op dst src imm = none ↔ op = .div ∨ 0xFFFF < imm) := by
  refine ⟨goes_emit (does_intLoad a dst imm s), fun c' made within kind whole r held => ?_, ?_⟩
  · obtain ⟨v, result, went⟩ := (goes_arithImm made).2 a s kind whole within
    exact ⟨_, went, Activation.does_arith dst src r (held ▸ result)⟩
  · have short : imm ≤ 0xFF → imm ≤ 0xFFFF := fun le => UInt64.le_trans le (by decide)
    have one : imm = 1 → imm ≤ 0xFF := fun same => same ▸ by decide
    cases op <;> simp [arithImm?, immOp?] <;> grind

/-- One is added to a register by a copy and an increment. -/
theorem goes_shortest_forms_increment : ∃ (a : Activation Unit) (s s' : Core Unit),
    a.Goes 0 s 2 s' ∧ a.Does (.arith .add .signed 1 2 3) s s' := by
  have made : empty.arithImm? .add 1 2 1 = some ((empty.mov 1 2).emit (.inc 1)) := rfl
  have grows := (goes_arithImm made).1 (by decide) (by decide)
  obtain ⟨is, laid, -⟩ := laid_of_finish (grows.inside (labelsInside_build [])) rfl
  have fits := laid.encodable fun i member => (grows.fits i member).resolve_left (by simp [empty])
  let a : Activation Unit := ⟨⟨default, #[], default⟩, fun _ s => ((.ok 0, s), none), default, _, is, laid, fits⟩
  let s : Core Unit := (State.initial #[] ()).core.setReg 3 1
  obtain ⟨s', same⟩ := (goes_shortest_forms a empty .add 1 2 1 s).2.1 _ made (.refl _) .signed (by decide) 3 rfl
  exact ⟨a, s, s', same⟩

end CodeBuffer

namespace Emission

open Instruction CodeBuffer

variable (scope : Scope)

/-! ## Pieces of emission -/

theorem emits_complain (code : Code) (message : String) (span : Span) :
    Emits (complain scope code message span) fun _ _ _ => False := by
  intro b a b' ran
  cases ran
  refine ⟨Nat.le_succ _, fun same => ?_⟩
  exact absurd same (Nat.succ_ne_self _)

theorem emits_reject (code : Code) (message : String) (span : Span)
    {does : Body → Lowered → Body → Prop} : Emits (reject scope code message span) does :=
  .bind_never (emits_complain scope code message span) fun _ => .of_pure _

theorem emits_onCode (f : CodeBuffer → CodeBuffer) :
    Emits (onCode f) fun b _ b' => b' = { b with code := f b.code } :=
  .of_modify fun _ => rfl

theorem emits_emitInsn (i : Instruction) : Emits (emitInsn i) fun b _ b' => b' = { b with code := b.code.emit i } :=
  emits_onCode _

theorem emits_newLabel : Emits newLabel fun b label b' =>
      label = b.code.newLabel.1 ∧ b' = { b with code := b.code.newLabel.2 } := by
  refine .mono (.bind .of_get fun _ => .bind (.of_modify fun _ => rfl) fun _ => .of_pure _) ?_
  rintro b label b' ⟨_, _, ⟨rfl, rfl⟩, _, _, rfl, rfl, rfl⟩
  exact ⟨rfl, rfl⟩

theorem emits_allocate : Emits (allocate scope) fun b r b' =>
      ∃ pool, b.pool.allocate? = some (r, pool) ∧ b' = { b with pool } := by
  refine .mono (.bind .of_get fun b => (?_ : Emits _ fun b0 r b' =>
    ∃ pool, b.pool.allocate? = some (r, pool) ∧ b' = { b0 with pool })) ?_
  · split
    · next reg pool found =>
      refine .mono (.bind (.of_modify fun _ => rfl) fun _ => .of_pure _) ?_
      rintro b0 r b' ⟨_, _, rfl, rfl, rfl⟩
      exact ⟨pool, found, rfl⟩
    · exact .of_throw _
  · rintro b r b' ⟨_, _, ⟨rfl, rfl⟩, pool, found, rfl⟩
    exact ⟨pool, found, rfl⟩

theorem emits_free (r : UInt8) : Emits (free r) fun b _ b' => b' = { b with pool := b.pool.free r } :=
  .of_modify fun _ => rfl

/-- The pool after an operand was given back. -/
def Operand.leave (o : Operand) (p : RegisterPool) : RegisterPool :=
  match o with
  | .owned r => p.free r
  | .borrowed _ => p

theorem emits_release (o : Operand) : Emits (release o) fun b _ b' => b' = { b with pool := o.leave b.pool } := by
  cases o with
  | owned r => exact emits_free r
  | borrowed r =>
    refine .mono (.of_pure ()) ?_
    rintro b _ b' ⟨-, rfl⟩
    rfl

/-! ## Operands -/

/-- The register that an operand owns is not one of the pool. -/
def Operand.Spare (p : RegisterPool) (o : Operand) : Prop :=
  ∀ r, o = .owned r → p.isAllocated r = false

variable {p : RegisterPool} {o : Operand}

/-- Giving back an operand leaves the registers of a pool in use that the operand is not one of. -/
theorem Operand.Spare.le_leave {p' : RegisterPool} (spare : o.Spare p) (small : o.reg.toNat < registerCount)
    (le : p ≤ p') : p ≤ o.leave p' := by
  cases o with
  | owned r => exact le_free le small (spare r rfl)
  | borrowed r => exact le

theorem Operand.isAllocated_leave (small : o.reg.toNat < registerCount) {q : UInt8} (used : p.isAllocated q = true)
    (apart : ∀ r, o = .owned r → q ≠ r) : (o.leave p).isAllocated q = true := by
  cases o with
  | owned r =>
    have small : r.toNat < registerCount := small
    rw [leave, isAllocated_free p small, if_neg (apart r rfl)]
    exact used
  | borrowed r => exact used

/-- A value was brought into a register. -/
structure Fetches (v : Lowered) (b : Body) (o : Operand) (b' : Body) : Prop where
  steady : Steady b b'
  pool : b.pool ≤ b'.pool
  taken : b'.pool.isAllocated o.reg = true
  owned : ∀ r, o = .owned r → v.place = .temporary r ∨ b.pool.isAllocated r = false
  runs : ∀ {σ : Type} (a : Activation σ) (c : Core σ) (x : Value), b'.code.Within a.buffer →
    v.Holds a c x → ∃ c', a.Goes b.pos c b'.pos c' ∧ c'.reg o.reg = x ∧ Still b.pool c c'

namespace Fetches

variable {v : Lowered} {b : Body}

theorem small {b' : Body} {o : Operand} (fetches : Fetches v b o b') : o.reg.toNat < registerCount :=
  lt_of_isAllocated fetches.taken

theorem spare {b' : Body} {o : Operand} {p : RegisterPool} (fetches : Fetches v b o b') (spare : Spare p v)
    (le : p ≤ b.pool) : o.Spare p := by
  intro r here
  obtain temporary | fresh := fetches.owned r here
  · exact spare r temporary
  · exact isAllocated_eq_false_of_le le fresh

theorem of_load {r : UInt8} {pool : RegisterPool} {i : Instruction} (found : b.pool.allocate? = some (r, pool))
    (fits : r.toNat < registerCount → i.Encodable)
    (does : ∀ {σ : Type} (a : Activation σ) (c : Core σ) (x : Value), v.Holds a c x → a.Does i c (c.setReg r x)) :
    Fetches v b (.owned r) { b with pool, code := b.code.emit i } := by
  obtain ⟨member, free, taken⟩ := allocate?_eq_some found
  have small := (mem_candidates member).1
  refine ⟨(Steady.setPool b pool).trans (.setCode (.emit _ (fits small))), ?_, ?_, ?_, ?_⟩
  · intro q used
    simp only [taken, used, ite_self]
  · simp [taken, Operand.reg]
  · rintro q ⟨⟩
    exact .inr free
  · intro σ a c x within holds
    have sets := Sets.setReg c x small
    exact ⟨_, goes_emit (does a c x holds) within, sets.value, sets.still free⟩

end Fetches

theorem emits_operand (v : Lowered) : Emits (operand scope v) fun b o b' => Placed b v → Fetches v b o b' := by
  -- A slot, a global or a constant is loaded into a new register.
  have loads : ∀ (i : UInt8 → Instruction),
      (∀ r, r.toNat < registerCount → (i r).Encodable) →
      (∀ {σ : Type} (a : Activation σ) (c : Core σ) (x : Value) (r : UInt8), v.Holds a c x →
        a.Does (i r) c (c.setReg r x)) →
      Emits (do let r ← allocate scope; emitInsn (i r); return .owned r)
        fun b o b' => Placed b v → Fetches v b o b' := by
    intro i fits does
    refine .mono (.bind (emits_allocate scope) fun r => .bind (emits_emitInsn (i r)) fun _ =>
      .of_pure _) ?_
    rintro b o b' ⟨r, _, ⟨pool, found, rfl⟩, _, _, rfl, rfl, rfl⟩ -
    exact .of_load found (fits r) fun a c x => does a c x r
  rw [operand]
  cases place : v.place with
  | temporary r =>
    refine .mono (.of_pure _) ?_
    rintro b o b' ⟨rfl, rfl⟩ placed
    refine ⟨.refl b', le_refl _, placed r (.inl place), ?_, ?_⟩
    · rintro q ⟨⟩
      exact .inl place
    · intro σ a c x _ holds
      rw [Lowered.Holds, place] at holds
      exact ⟨c, .refl _ c, holds, .refl _ c⟩
  | home r =>
    refine .mono (.of_pure _) ?_
    rintro b o b' ⟨rfl, rfl⟩ placed
    refine ⟨.refl b', le_refl _, placed r (.inr place), ?_, ?_⟩
    · rintro q ⟨⟩
    · intro σ a c x _ holds
      rw [Lowered.Holds, place] at holds
      exact ⟨c, .refl _ c, holds, .refl _ c⟩
  | slot k =>
    refine loads (fun r => .localGet r k) (fun r small => .one small rfl) ?_
    intro σ a c x r holds
    rw [Lowered.Holds, place] at holds
    exact does_localGet r k holds
  | global i =>
    refine loads (fun r => .globalGet r i) (fun r small => .one small rfl) ?_
    intro σ a c x r holds
    rw [Lowered.Holds, place] at holds
    exact does_globalGet r i holds
  | constant bits =>
    simp only [loadConst_eq]
    refine loads (fun r => constLoad r bits v.ty) (fun r small => encodable_constLoad small bits v.ty) ?_
    intro σ a c x r holds
    rw [Lowered.Holds, place] at holds
    exact does_constLoad r c holds
  | failed | nothing | flags => exact .of_throw _

/-- A register for the result of an operation on an operand. -/
structure Results (o : Operand) (b : Body) (dst : UInt8) (b' : Body) : Prop where
  steady : Steady b b'
  code : b'.code = b.code
  pool : b.pool ≤ b'.pool
  taken : b'.pool.isAllocated dst = true
  fresh : o = .owned dst ∨ b.pool.isAllocated dst = false

theorem emits_resultReg (o : Operand) : Emits (resultReg scope o) fun b dst b' =>
      b.pool.isAllocated o.reg = true → Results o b dst b' := by
  cases o with
  | owned r =>
    refine .mono (.of_pure r) ?_
    rintro b dst b' ⟨rfl, rfl⟩ taken
    exact ⟨.refl _, rfl, le_refl _, taken, .inl rfl⟩
  | borrowed r =>
    refine .mono (emits_allocate scope) ?_
    rintro b dst b' ⟨pool, found, rfl⟩ -
    obtain ⟨-, free, taken⟩ := allocate?_eq_some found
    refine ⟨.setPool b pool, rfl, fun q used => ?_, ?_, .inr free⟩
    · simp only [taken, used, ite_self]
    · simp [taken]

theorem Results.spare {b b' : Body} (results : Results o b dst b') (spare : o.Spare p) (le : p ≤ b.pool) :
    p.isAllocated dst = false := by
  obtain own | fresh := results.fresh
  · exact spare dst own
  · exact isAllocated_eq_false_of_le le fresh

/-- A value was brought into a given register. -/
structure Fills (target : UInt8) (v : Lowered) (b b' : Body) : Prop where
  steady : Steady b b'
  pool : ∀ p, p ≤ b.pool → Spare p v → p ≤ b'.pool
  runs : ∀ {σ : Type} (a : Activation σ) (c : Core σ) (x : Value), b'.code.Within a.buffer →
    v.Holds a c x → ∃ c', a.Goes b.pos c b'.pos c' ∧ Sets target x c c'

theorem Fills.of_load {target : UInt8} {v : Lowered} {b : Body} {i : Instruction}
    (small : target.toNat < registerCount) (fits : i.Encodable)
    (does : ∀ {σ : Type} (a : Activation σ) (c : Core σ) (x : Value), v.Holds a c x →
      a.Does i c (c.setReg target x)) : Fills target v b { b with code := b.code.emit i } where
  steady := .setCode (.emit _ fits)
  pool _ le _ := le
  runs a c x within holds := ⟨_, goes_emit (does a c x holds) within, .setReg c x small⟩

theorem emits_loadInto (target : UInt8) (v : Lowered) : Emits (loadInto target v) fun b _ b' =>
      target.toNat < registerCount → Placed b v → Fills target v b b' := by
  rw [loadInto]
  cases place : v.place with
  | temporary r =>
    refine .mono (.bind (emits_onCode _) fun _ => emits_free r) ?_
    rintro b _ b' ⟨_, _, rfl, rfl⟩ small placed
    have used := placed r (.inl place)
    have r_small := lt_of_isAllocated used
    have grows := b.code.grows_mov small r_small
    refine ⟨(Steady.setCode grows).trans (.setPool _ _), ?_, ?_⟩
    · intro p le spare
      exact le_free le r_small (spare r place)
    · intro σ a c x within holds
      rw [Lowered.Holds, place] at holds
      exact ⟨_, goes_mov within c, holds ▸ .setReg c _ small⟩
  | home r =>
    refine .mono (emits_onCode _) ?_
    rintro b _ b' rfl small placed
    have r_small := lt_of_isAllocated (placed r (.inr place))
    refine ⟨.setCode (b.code.grows_mov small r_small), fun _ le _ => le, ?_⟩
    intro σ a c x within holds
    rw [Lowered.Holds, place] at holds
    exact ⟨_, goes_mov within c, holds ▸ .setReg c _ small⟩
  | slot k =>
    refine .mono (emits_emitInsn _) ?_
    rintro b _ b' rfl small -
    refine .of_load small (.one small rfl) fun a c x holds => ?_
    rw [Lowered.Holds, place] at holds
    exact does_localGet target k holds
  | global i =>
    refine .mono (emits_emitInsn _) ?_
    rintro b _ b' rfl small -
    refine .of_load small (.one small rfl) fun a c x holds => ?_
    rw [Lowered.Holds, place] at holds
    exact does_globalGet target i holds
  | constant bits =>
    refine .mono (emits_onCode _) ?_
    rintro b _ b' rfl small -
    rw [loadConst_eq]
    refine .of_load small (encodable_constLoad small bits v.ty) fun a c x holds => ?_
    rw [Lowered.Holds, place] at holds
    exact does_constLoad target c holds
  | failed | nothing | flags => exact .of_throw _

end Emission

end RegisterLang
