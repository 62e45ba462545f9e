import RegisterLang.Proofs.Operands

/-! # Operators

The code of an operator takes its operands from where they are and leaves the outcome that evaluation
gives: in a new register, or in the flags for a comparison.
-/

namespace RegisterLang

open Machine

namespace Emission

open Instruction CodeBuffer

variable {σ ω : Type} (scope : Scope)
  {p : RegisterPool} {x : Value} {b : Body} {c : Core σ} {dst : UInt8} {v : Lowered} {op : BinOp} {o : Operand}
  {k : Link σ ω}

/-- Two values do not own the same register. -/
def Apart (l r : Lowered) : Prop :=
  ∀ q, l.place = .temporary q → r.place ≠ .temporary q

/-- What the emission of a value leaves, given the registers that it has to keep. -/
structure Delivers (p : RegisterPool) (b : Body) (v : Lowered) (b' : Body) : Prop where
  steady : Steady b b'
  pool : p ≤ b'.pool
  placed : Placed b' v
  spare : Spare p v
  found : v.place ≠ .failed

/-- What an expression has given is where the emission says. -/
def Lowered.Answers (a : Activation σ) (c : Core σ) (v : Lowered) : Evaluation.Answer → Prop
  | .value x => v.Holds a c x
  | .nothing => v.place = .nothing
  | .comparison first => v.place = .flags ∧
    ∃ op, v.lastOp = some op ∧ first = !c.flags.holds (flagCondition op).negate

/-- The run has got behind the code of a value, and the value is in its place. -/
def Arrives (a : Activation σ) (p : RegisterPool) (c : Core σ) (b' : Body) (v : Lowered)
    (answer : Evaluation.Answer) (k : Nat) (c' : Core σ) : Prop :=
  k = b'.pos ∧ v.Answers a c' answer ∧ Keeps p c c'

variable {b' : Body} {ty : Ty} {kind : NumKind}

theorem Delivers.temporary {r : UInt8} {op : Option BinOp} (steady : Steady b b') (pool : p ≤ b'.pool)
    (taken : b'.pool.isAllocated r = true) (spare : p.isAllocated r = false) :
    Delivers p b ⟨.temporary r, ty, op⟩ b' where
  steady := steady
  pool := pool
  placed := by
    rintro q (⟨⟨⟩⟩ | ⟨⟨⟩⟩)
    exact taken
  spare := by
    rintro q ⟨⟩
    exact spare
  found := by rintro ⟨⟩

/-- The pool after a value was dropped. -/
def Lowered.leave (v : Lowered) (p : RegisterPool) : RegisterPool :=
  match v.place with
  | .temporary r => p.free r
  | _ => p

theorem emits_drop (v : Lowered) : Emits (drop v) fun b _ b' => b' = { b with pool := v.leave b.pool } := by
  rw [drop]
  split
  · next r place =>
    refine .mono (emits_free r) ?_
    rintro b _ b' rfl
    rw [Lowered.leave, place]
  · next other =>
    refine .mono (.of_pure ()) ?_
    rintro b _ b' ⟨-, rfl⟩
    rw [Lowered.leave]
    split
    · next r place => exact absurd place (other r)
    · rfl

theorem Spare.le_leave (spare : Spare p v) (placed : Placed b v) (le : p ≤ b.pool) : p ≤ v.leave b.pool := by
  rw [Lowered.leave]
  split
  · next r place =>
    have small := RegisterPool.lt_of_isAllocated (placed r (.inl place))
    exact RegisterPool.le_free le small (spare r place)
  · exact le

theorem emits_dropAll (vs : List Lowered) : Emits (dropAll vs) fun _ _ _ => True := by
  induction vs with
  | nil => exact .mono (.of_pure ()) fun _ _ _ _ => trivial
  | cons v vs ih =>
    exact .mono (.bind (emits_drop v) fun _ => ih) fun _ _ _ _ => trivial

/-! ## Arithmetic -/

theorem intConstant?_eq_some {bits : UInt64} (constant : v.intConstant? = some bits) :
    v.place = .constant bits ∧ v.ty.isInteger = true := by
  rw [Lowered.intConstant?] at constant
  split at constant
  · next place =>
    split at constant
    · next whole =>
      cases constant
      exact ⟨place, whole⟩
    · cases constant
  · cases constant

theorem eq_of_intConstant? {a : Activation σ} {bits : UInt64} (constant : v.intConstant? = some bits)
    (holds : v.Holds a c x) : x = bits := by
  obtain ⟨place, whole⟩ := intConstant?_eq_some constant
  have number : v.ty.isConstString = false := by
    simp only [Ty.isInteger, Ty.isScalar, Bool.and_eq_true, Bool.not_eq_true'] at whole
    simp [Ty.isConstString, whole.1.1, whole.1.2]
  rw [Lowered.Holds, place] at holds
  simpa [ConstantIs, number] using holds

theorem arith?_arithOp (arithmetic : op.isComparison = false) : op.arith? = some (arithOp op) := by
  cases op <;> first | rfl | cases arithmetic

/-- The register of an operation is not the one that its right operand gives back. -/
theorem Results.ne_owned {l r : Lowered} {b1 b2 b3 : Body} {o' : Operand} (left : Fetches l b o b1)
    (results : Results o b1 dst b2) (right : Fetches r b2 o' b3) (placed : Placed b r) (apart : Apart l r) :
    ∀ q, o' = .owned q → dst ≠ q := by
  rintro q own rfl
  obtain waiting | fresh := right.owned dst own
  · have used := placed dst (.inl waiting)
    obtain same | fresh := results.fresh
    · obtain temporary | fresh := left.owned dst same
      · exact apart dst temporary waiting
      · rw [used] at fresh
        cases fresh
    · rw [left.pool dst used] at fresh
      cases fresh
  · rw [results.taken] at fresh
    cases fresh

/-- An operation on a register and a constant, or on two registers. -/
inductive Combined (op : BinOp) (ty : Ty) (l r : Lowered) (b : Body) : Lowered → Body → Prop where
  | immediate {o : Operand} {b₁ b₂ : Body} {dst : UInt8} {imm : UInt64} {code : CodeBuffer}
      (left : Fetches l b o b₁) (results : Results o b₁ dst b₂) (whole : ty.numKind ≠ .float)
      (constant : r.intConstant? = some imm)
      (made : b₂.code.arithImm? (arithOp op) dst o.reg imm = some code) :
      Combined op ty l r b ⟨.temporary dst, ty, some op⟩ { b₂ with code }
  | registers {o o' : Operand} {b₁ b₂ b₃ : Body} {dst : UInt8} (left : Fetches l b o b₁)
      (results : Results o b₁ dst b₂) (right : Fetches r b₂ o' b₃) :
      Combined op ty l r b ⟨.temporary dst, ty, some op⟩
        { b₃ with
          code := b₃.code.emit (.arith (arithOp op) ty.numKind dst o.reg o'.reg)
          pool := o'.leave b₃.pool }

theorem emits_combine (op : BinOp) (ty : Ty) (l r : Lowered) : Emits (combine scope op ty l r) fun b v b' =>
      Placed b l → Placed b r → Combined op ty l r b v b' := by
  refine .mono (.bind (emits_operand scope l) fun o => .bind (emits_resultReg scope o) fun dst =>
    .bind .of_get fun b0 => (?_ : Emits _ fun b2 v b' => v = ⟨.temporary dst, ty, some op⟩ ∧
      ((∃ imm code, ty.numKind ≠ .float ∧ r.intConstant? = some imm ∧
          b0.code.arithImm? (arithOp op) dst o.reg imm = some code ∧ b' = { b2 with code }) ∨
        ∃ o' b3, (Placed b2 r → Fetches r b2 o' b3) ∧ b' = { b3 with
          code := b3.code.emit (.arith (arithOp op) ty.numKind dst o.reg o'.reg)
          pool := o'.leave b3.pool }))) ?_
  · dsimp only
    cases found : (if ty.numKind = .float then none else r.intConstant?).bind
        (b0.code.arithImm? (arithOp op) dst o.reg) with
    | some code =>
      refine .mono (.bind (.of_modify fun _ => rfl) fun _ => .of_pure _) ?_
      rintro b2 v b' ⟨_, _, rfl, rfl, rfl⟩
      obtain ⟨imm, constant, made⟩ := Option.bind_eq_some_iff.1 found
      split at constant
      · cases constant
      · next whole => exact ⟨rfl, .inl ⟨imm, code, whole, constant, made, rfl⟩⟩
    | none =>
      refine .mono (.bind (emits_operand scope r) fun o' => .bind (emits_onCode _) fun _ =>
        .bind (emits_release o') fun _ => .of_pure _) ?_
      rintro b2 v b' ⟨o', b3, right, _, _, rfl, _, _, rfl, rfl, rfl⟩
      exact ⟨rfl, .inr ⟨o', b3, right, rfl⟩⟩
  · rintro b v b' ⟨o, b1, left, dst, b2, results, _, _, ⟨rfl, rfl⟩, rfl, rest⟩ placed waiting
    have left := left placed
    have results := results left.taken
    obtain ⟨imm, code, whole, constant, made, rfl⟩ | ⟨o', b3, right, rfl⟩ := rest
    · exact .immediate left results whole constant made
    · exact .registers left results (right (waiting.mono (le_trans left.pool results.pool)))

theorem Results.pos (results : Results o b dst b') : b'.pos = b.pos := by
  rw [Body.pos, results.code, Body.pos]

theorem Results.small (results : Results o b dst b') : dst.toNat < registerCount :=
  RegisterPool.lt_of_isAllocated results.taken

namespace Combined

variable {op : BinOp} {ty : Ty} {l r v : Lowered} {b b' : Body}

theorem delivers (combined : Combined op ty l r b v b') (le : p ≤ b.pool) (waiting : Placed b r) (spare : Spare p l)
    (spare' : Spare p r) (apart : Apart l r) : Delivers p b v b' := by
  cases combined with
  | immediate left results whole constant made =>
    have le1 := le_trans le left.pool
    have grows := (goes_arithImm made).1 results.small left.small
    exact .temporary ((left.steady.trans results.steady).trans (.setCode grows))
      (le_trans le1 results.pool) results.taken
      (results.spare (left.spare spare le) le1)
  | @registers o o' b1 b2 b3 dst left results right =>
    have le1 := le_trans le left.pool
    have le2 := le_trans le1 results.pool
    have fits : (Instruction.arith (arithOp op) ty.numKind dst o.reg o'.reg).Encodable :=
      .three results.small left.small right.small rfl
    have steady : Steady b3 { b3 with
        code := b3.code.emit (.arith (arithOp op) ty.numKind dst o.reg o'.reg)
        pool := o'.leave b3.pool } :=
      (Steady.setCode (.emit _ fits)).trans (.setPool _ _)
    refine .temporary (((left.steady.trans results.steady).trans right.steady).trans steady) ?_ ?_
      (results.spare (left.spare spare le) le1)
    · exact (right.spare spare' le2).le_leave right.small (le_trans le2 right.pool)
    · exact Operand.isAllocated_leave right.small (right.pool _ results.taken)
        (results.ne_owned left right waiting apart)

theorem sim (combined : Combined op ty l r b v b') (arithmetic : op.isComparison = false) (le : p ≤ b.pool)
    (waiting : Placed b r) (spare : Spare p l) {y : Value} (within : b'.code.Within k.code.buffer)
    (holds : l.Holds k.code c x) (holds' : r.Holds k.code c y) :
    k.Sim b.pos c (Evaluation.applyBinary op ty x y) (Arrives k.code p c b' v) := by
  simp only [Evaluation.applyBinary, arith?_arithOp arithmetic]
  cases combined with
  | @immediate o b1 b2 dst imm code left results whole constant made =>
    obtain ⟨grows, runs⟩ := goes_arithImm made
    have grows := grows results.small left.small
    have within1 : b1.code.Within k.code.buffer := results.code ▸ grows.within.trans within
    obtain ⟨c1, went1, read, still1⟩ := left.runs k.code c x within1 holds
    obtain ⟨z, result, went2⟩ := runs k.code c1 ty.numKind whole within
    have sets := Sets.setReg c1 z results.small
    rw [read, ← eq_of_intConstant? constant holds'] at result
    have spare_dst := results.spare (left.spare spare le) (le_trans le left.pool)
    have still := (still1.mono le).trans (sets.still spare_dst)
    have went : k.code.Goes b.pos c code.ops.size (c1.setReg dst z) :=
      went1.trans (results.pos ▸ went2)
    rw [result]
    exact .goes went still.store (.pure ⟨rfl, sets.value, still.keeps⟩)
  | @registers o o' b1 b2 b3 dst left results right =>
    have fits : (Instruction.arith (arithOp op) ty.numKind dst o.reg o'.reg).Encodable :=
      .three results.small left.small right.small rfl
    have within3 : b3.code.Within k.code.buffer := (Grows.emit _ fits).within.trans within
    have within1 : b1.code.Within k.code.buffer :=
      results.code ▸ right.steady.code.within.trans within3
    obtain ⟨c1, went1, read1, still1⟩ := left.runs k.code c x within1 holds
    obtain ⟨c2, went2, read2, still2⟩ :=
      right.runs k.code c1 y within3 (holds'.still waiting still1)
    have left_kept : c2.reg o.reg = x :=
      (still2.regs _ (results.pool _ left.taken)).trans read1
    have le2 := le_trans (le_trans le left.pool) results.pool
    have still := (still1.mono le).trans (still2.mono le2)
    have went : k.code.Goes b.pos c b3.pos c2 := went1.trans (results.pos ▸ went2)
    refine .goes went still.store ?_
    cases result : Value.arith? (arithOp op) ty.numKind x y with
    | none =>
      refine .of_traps (.stop _ c2) (Activation.traps_arith within.emitted ?_)
      rw [left_kept, read2, result]
    | some z =>
      have does : k.code.Does (.arith (arithOp op) ty.numKind dst o.reg o'.reg) c2
          (c2.setReg dst z) := Activation.does_arith _ _ _ (by rw [left_kept, read2, result])
      have sets := Sets.setReg c2 z results.small
      have spare_dst := results.spare (left.spare spare le) (le_trans le left.pool)
      have still' := sets.still spare_dst
      exact .goes (goes_emit does within) still'.store (.pure ⟨rfl, sets.value, (still.trans still').keeps⟩)

end Combined

/-! ## Comparisons -/

open Evaluation (order?)

theorem holds_negate (comparison : op.isComparison = true) (order : Option Ordering) :
    (Flags.ofOrdering order).holds (flagCondition op).negate = op.inverse.holdsOn order := by
  cases op <;> cases comparison <;> obtain _ | (_ | _ | _) := order <;> rfl

theorem holdsOn_mirror (op : BinOp) (order : Option Ordering) :
    op.mirror.inverse.holdsOn order = op.inverse.holdsOn (order.map Ordering.swap) := by
  cases op <;> obtain _ | (_ | _ | _) := order <;> rfl

theorem compare_eq (kind : NumKind) (x y : Value) : Flags.compare kind x y = .ofOrdering (order? kind x y) := by
  cases kind <;> rfl

theorem signed_inj {y : Value} : x.signed = y.signed ↔ x = y := by
  constructor
  · intro same
    have words := congrArg Int64.toUInt64 (Int64.toInt_inj.1 same)
    simpa using words
  · rintro rfl
    rfl

theorem compare_signed_eq : compare x.signed (Value.signed 0) = .eq ↔ x = 0 := by
  rw [Int.compare_eq_eq, signed_inj]

theorem compare_unsigned_eq : compare x.toNat 0 = .eq ↔ x = 0 := by
  rw [Nat.compare_eq_eq, ← UInt64.toNat_inj]
  rfl

theorem order?_swap (whole : kind ≠ .float) (x y : Value) :
    order? kind y x = (order? kind x y).map Ordering.swap := by
  cases kind with
  | signed => exact congrArg some (Int.compare_swap _ _).symm
  | unsigned => exact congrArg some (Nat.compare_swap _ _).symm
  | float => exact absurd rfl whole

/-- A test of one register against zero decides as the comparison with zero does. -/
theorem holdsOn_zero (whole : kind ≠ .float) (test : kind = .unsigned → op = .eq ∨ op = .notEq) (x : Value) :
    op.inverse.holdsOn (order? .signed x 0) = op.inverse.holdsOn (order? kind x 0) := by
  cases kind with
  | signed => rfl
  | float => exact absurd rfl whole
  | unsigned =>
    have same : (compare x.signed (Value.signed 0) = .eq) = (compare x.toNat 0 = .eq) := by
      rw [compare_signed_eq, compare_unsigned_eq]
    obtain rfl | rfl := test rfl
    · simpa [BinOp.inverse, BinOp.holdsOn, order?] using same
    · simpa [BinOp.inverse, BinOp.holdsOn, order?] using same

/-- Whether a comparison with zero is a test of one register. -/
def zeroTest (op : BinOp) (ty : Ty) : Bool :=
  !ty.isUnsigned || op = .eq || op = .notEq

/-- A comparison of two registers, or a test of one. -/
inductive Compared (op : BinOp) (ty : Ty) (l r : Lowered) (b : Body) : Lowered → Body → Prop where
  | zeroRight {o : Operand} {b₁ : Body} (test : zeroTest op ty = true)
      (zero : r.intConstant? = some 0) (left : Fetches l b o b₁) :
      Compared op ty l r b ⟨.flags, .int, some op⟩
        { b₁ with code := b₁.code.emit (.testz o.reg), pool := o.leave b₁.pool }
  | zeroLeft {o : Operand} {b₁ : Body} (test : zeroTest op ty = true)
      (zero : l.intConstant? = some 0) (right : Fetches r b o b₁) :
      Compared op ty l r b ⟨.flags, .int, some op.mirror⟩
        { b₁ with code := b₁.code.emit (.testz o.reg), pool := o.leave b₁.pool }
  | registers {o o' : Operand} {b₁ b₂ : Body} (left : Fetches l b o b₁)
      (right : Fetches r b₁ o' b₂) :
      Compared op ty l r b ⟨.flags, .int, some op⟩
        { b₂ with
          code := b₂.code.emit (.compare ty.numKind o.reg o'.reg)
          pool := o.leave (o'.leave b₂.pool) }

theorem emits_compareValues (op : BinOp) (ty : Ty) (l r : Lowered) :
    Emits (compareValues scope op ty l r) fun b v b' =>
      Placed b l → Placed b r → Compared op ty l r b v b' := by
  refine .of_ite (fun test => ?_) fun _ => .of_ite (fun test => ?_) fun _ => ?_
  · obtain ⟨test, zero⟩ : zeroTest op ty = true ∧ r.intConstant? = some 0 := by
      simpa [zeroTest] using test
    refine .mono (.bind (emits_operand scope l) fun o => .bind (emits_emitInsn _) fun _ =>
      .bind (emits_release o) fun _ => .of_pure _) ?_
    rintro b v b' ⟨o, b1, left, _, _, rfl, _, _, rfl, rfl, rfl⟩ placed -
    exact .zeroRight test zero (left placed)
  · obtain ⟨test, zero⟩ : zeroTest op ty = true ∧ l.intConstant? = some 0 := by
      simpa [zeroTest] using test
    refine .mono (.bind (emits_operand scope r) fun o => .bind (emits_emitInsn _) fun _ =>
      .bind (emits_release o) fun _ => .of_pure _) ?_
    rintro b v b' ⟨o, b1, right, _, _, rfl, _, _, rfl, rfl, rfl⟩ - placed
    exact .zeroLeft test zero (right placed)
  · refine .mono (.bind (emits_operand scope l) fun o => .bind (emits_operand scope r) fun o' =>
      .bind (emits_onCode _) fun _ => .bind (emits_release o') fun _ =>
      .bind (emits_release o) fun _ => .of_pure _) ?_
    rintro b v b' ⟨o, b1, left, o', b2, right, _, _, rfl, _, _, rfl, _, _, rfl, rfl, rfl⟩ placed waiting
    have left := left placed
    exact (Compared.registers left (right (waiting.mono left.pool)) : _)

theorem Delivers.flags {op : Option BinOp} (steady : Steady b b') (pool : p ≤ b'.pool) :
    Delivers p b ⟨.flags, ty, op⟩ b' where
  steady := steady
  pool := pool
  placed := by rintro q (⟨⟨⟩⟩ | ⟨⟨⟩⟩)
  spare := by rintro q ⟨⟩
  found := by rintro ⟨⟩

theorem encodable_testz {r : UInt8} (small : r.toNat < registerCount) : (Instruction.testz r).Encodable :=
  .one small rfl

theorem encodable_compare (kind : NumKind) {x y : UInt8} (x_small : x.toNat < registerCount)
    (y_small : y.toNat < registerCount) : (Instruction.compare kind x y).Encodable :=
  .two x_small y_small rfl

theorem eq_or_notEq_of_zeroTest (test : zeroTest op ty = true) (kind : ty.numKind = .unsigned) :
    op = .eq ∨ op = .notEq := by
  have unsigned : ty.isUnsigned = true := by
    rw [Ty.numKind] at kind
    split at kind
    · cases kind
    · split at kind
      · assumption
      · cases kind
  simpa [zeroTest, unsigned] using test

/-- A test of one register steps over its code and sets the flags by the value in it. -/
theorem Fetches.goes_testz {b1 : Body} (fetches : Fetches v b o b1) {a : Activation σ}
    (within : (b1.code.emit (.testz o.reg)).Within a.buffer) (holds : v.Holds a c x) :
    ∃ c', a.Goes b.pos c (b1.code.emit (.testz o.reg)).ops.size c' ∧
      c'.flags = .ofOrdering (order? .signed x 0) ∧ Still b.pool c c' := by
  have grows := Grows.emit b1.code (encodable_testz fetches.small)
  obtain ⟨c1, went, read, still⟩ := fetches.runs a c x (grows.within.trans within) holds
  refine ⟨_, went.trans (goes_emit (Activation.does_testz o.reg c1) within), ?_, still.trans (.setFlags _ c1 _)⟩
  rw [read, compare_eq]

namespace Compared

variable {op : BinOp} {ty : Ty} {l r v : Lowered} {b b' : Body}

theorem delivers (compared : Compared op ty l r b v b') (le : p ≤ b.pool) (spare : Spare p l) (spare' : Spare p r) :
    Delivers p b v b' := by
  cases compared with
  | zeroRight test zero left =>
    have le1 := le_trans le left.pool
    refine .flags ((left.steady.trans (.setCode (.emit _ (encodable_testz left.small)))).trans (.setPool _ _)) ?_
    exact (left.spare spare le).le_leave left.small le1
  | zeroLeft test zero right =>
    have le1 := le_trans le right.pool
    refine .flags ((right.steady.trans (.setCode (.emit _ (encodable_testz right.small)))).trans (.setPool _ _)) ?_
    exact (right.spare spare' le).le_leave right.small le1
  | registers left right =>
    have le1 := le_trans le left.pool
    have le2 := le_trans le1 right.pool
    have fits := encodable_compare ty.numKind left.small right.small
    refine .flags (((left.steady.trans right.steady).trans (.setCode (.emit _ fits))).trans (.setPool _ _)) ?_
    refine (left.spare spare le).le_leave left.small ?_
    exact (right.spare spare' le1).le_leave right.small le2

theorem sim (compared : Compared op ty l r b v b') (comparison : op.isComparison = true)
    (whole : ∀ bits, l.intConstant? = some bits ∨ r.intConstant? = some bits → ty.numKind ≠ .float) (le : p ≤ b.pool)
    (waiting : Placed b r) {y : Value} (within : b'.code.Within k.code.buffer) (holds : l.Holds k.code c x)
    (holds' : r.Holds k.code c y) : k.Sim b.pos c (Evaluation.applyBinary op ty x y) (Arrives k.code p c b' v) := by
  have no_arith : op.arith? = none := by cases op <;> first | rfl | cases comparison
  simp only [Evaluation.applyBinary, no_arith]
  -- The flags that are left decide as the opposite comparison does.
  have arrives : ∀ {op' : BinOp} {code : CodeBuffer} {pool : RegisterPool} {c' : Core σ}
      {order : Option Ordering}, k.code.Goes b.pos c code.ops.size c' → Still b.pool c c' →
      c'.flags = .ofOrdering order → op'.isComparison = true →
      op'.inverse.holdsOn order = op.inverse.holdsOn (order? ty.numKind x y) →
      ∀ b1 : Body, k.Sim b.pos c
        (pure (.comparison (!op.inverse.holdsOn (order? ty.numKind x y))) : Evaluation.Eval ω _)
        (Arrives k.code p c { b1 with code, pool } ⟨.flags, .int, some op'⟩) := by
    intro op' code pool c' order went still flags comparison' same b1
    refine .goes went still.store (.pure ⟨rfl, ⟨rfl, op', rfl, ?_⟩, (still.mono le).keeps⟩)
    rw [flags, holds_negate comparison', same]
  cases compared with
  | @zeroRight o b1 test zero left =>
    obtain ⟨c1, went, flags, still⟩ := left.goes_testz within holds
    refine arrives went still flags comparison ?_ b1
    rw [eq_of_intConstant? zero holds']
    exact holdsOn_zero (whole 0 (.inr zero)) (eq_or_notEq_of_zeroTest test) x
  | @zeroLeft o b1 test zero right =>
    obtain ⟨c1, went, flags, still⟩ := right.goes_testz within holds'
    have mirrored : op.mirror.isComparison = true := by
      cases op <;> first | rfl | cases comparison
    have test' : ty.numKind = .unsigned → op.mirror = .eq ∨ op.mirror = .notEq := by
      intro kind
      obtain rfl | rfl := eq_or_notEq_of_zeroTest test kind
      · exact .inl rfl
      · exact .inr rfl
    refine arrives went still flags mirrored ?_ b1
    rw [holdsOn_zero (whole 0 (.inl zero)) test', holdsOn_mirror,
      eq_of_intConstant? zero holds, order?_swap (whole 0 (.inl zero)) y 0]
  | @registers o o' b1 b2 left right =>
    have fits := encodable_compare ty.numKind left.small right.small
    have within2 : b2.code.Within k.code.buffer := (Grows.emit _ fits).within.trans within
    obtain ⟨c1, went1, read1, still1⟩ :=
      left.runs k.code c x (right.steady.code.within.trans within2) holds
    obtain ⟨c2, went2, read2, still2⟩ :=
      right.runs k.code c1 y within2 (holds'.still waiting still1)
    have left_kept : c2.reg o.reg = x := (still2.regs _ left.taken).trans read1
    have went := (went1.trans went2).trans (goes_emit (Activation.does_compare ty.numKind o.reg o'.reg c2) within)
    refine arrives went ((still1.trans (still2.mono left.pool)).trans (.setFlags _ c2 _)) ?_ comparison rfl b2
    rw [left_kept, read2, compare_eq]

end Compared

/-! ## Both kinds of binary operator -/

theorem numKind_scalar_ne_float {p : Primitive} (other : p ≠ .float) : (Ty.scalar p).numKind ≠ .float := by
  cases p <;> first | decide | exact absurd rfl other

theorem ne_float_of_isInteger (whole : ty.isInteger = true) : ty.primitive ≠ .float := by
  intro same
  simp [Ty.isInteger, same, Primitive.isInteger] at whole

/-- Operands that agree and one of which is a whole number are both of its kind. -/
theorem ne_float_of_agrees {s t : Ty} (agree : s.agrees t = true) (other : t.primitive ≠ .float) :
    s.primitive ≠ .float := by
  intro same
  simp only [Ty.agrees, Ty.isConstString, same, Bool.or_eq_true, Bool.and_eq_true, decide_eq_true_eq] at agree
  obtain ⟨⟨⟨⟨⟨⟩, -⟩, -⟩, -⟩, -⟩ | ⟨⟨⟨equal, -⟩, -⟩, -⟩ := agree
  exact other equal.symm

theorem ne_float_of_commonType? {l r : Lowered} (common : commonType? l r = some ty) (bits : UInt64)
    (constant : l.intConstant? = some bits ∨ r.intConstant? = some bits) : ty.numKind ≠ .float := by
  rw [commonType?] at common
  split at common
  · next agree =>
    cases common
    obtain left | right := constant
    · exact numKind_scalar_ne_float (ne_float_of_isInteger (intConstant?_eq_some left).2)
    · have whole := ne_float_of_isInteger (intConstant?_eq_some right).2
      exact numKind_scalar_ne_float (ne_float_of_agrees agree whole)
  split at common
  · cases common
    decide
  split at common
  · next literal =>
    cases common
    rw [Bool.and_eq_true] at literal
    exact numKind_scalar_ne_float (ne_float_of_isInteger literal.2)
  split at common
  · next literal =>
    cases common
    rw [Bool.and_eq_true] at literal
    exact numKind_scalar_ne_float (ne_float_of_isInteger literal.2)
  · cases common

theorem emits_binaryType (l : Lowered) (op : BinOp) (r : Lowered) (span : Span) :
    Emits (binaryType scope l op r span) fun b ty? b' => b' = b ∧ ty? = commonType? l r ∧ ty?.isSome = true := by
  have fails : ∀ (code : Code) (message : String), Emits
      (do complain scope code message span; return none)
      fun b ty? b' => b' = b ∧ ty? = commonType? l r ∧ ty?.isSome = true := fun code message =>
    .bind_never (emits_complain scope code message span) fun _ => .of_pure _
  refine .of_ite (fun _ => fails _ _) fun _ => ?_
  split
  · next ty common =>
    refine .mono (.of_pure _) ?_
    rintro b ty? b' ⟨rfl, rfl⟩
    exact ⟨rfl, common.symm, rfl⟩
  · exact fails _ _

/-- A binary operator was applied to two values of a common type. -/
structure Applied (op : BinOp) (l r : Lowered) (b : Body) (ty : Ty) (v : Lowered) (b' : Body) :
    Prop where
  common : commonType? l r = some ty
  comparison : op.isComparison = true → Compared op ty l r b v b'
  arithmetic : op.isComparison = false → Combined op ty l r b v b'

theorem emits_applyBinary (op : BinOp) (l r : Lowered) (span : Span) :
    Emits (applyBinary scope op l r span) fun b v b' => l.place ≠ .failed → r.place ≠ .failed →
      Placed b l → Placed b r → ∃ ty, Applied op l r b ty v b' := by
  refine .of_ite (fun failed => ?_) fun _ => .mono (.bind (emits_binaryType scope l op r span)
    fun ty? => (?_ : Emits _ fun b v b' => Placed b l → Placed b r → ∀ ty, ty? = some ty →
      (op.isComparison = true → Compared op ty l r b v b') ∧
      (op.isComparison = false → Combined op ty l r b v b'))) ?_
  · refine .mono (.bind (emits_dropAll [l, r]) fun _ => .of_pure _) ?_
    intro b v b' _ found found'
    simp [Lowered.isFailed, found, found'] at failed
  · cases ty? with
    | none =>
      refine .mono (.bind (emits_dropAll [l, r]) fun _ => .of_pure _) ?_
      rintro b v b' - - - ty ⟨⟩
    | some ty =>
      refine .of_ite (fun comparison => ?_) fun arithmetic => ?_
      · refine .mono (emits_compareValues scope op ty l r) ?_
        rintro b v b' compared placed waiting _ ⟨⟩
        refine ⟨fun _ => compared placed waiting, fun no => ?_⟩
        rw [comparison] at no
        cases no
      · refine .mono (emits_combine scope op ty l r) ?_
        rintro b v b' combined placed waiting _ ⟨⟩
        exact ⟨fun yes => absurd yes arithmetic, fun _ => combined placed waiting⟩
  · rintro b v b' ⟨ty?, _, ⟨rfl, common, some⟩, applied⟩ - - placed waiting
    obtain ⟨ty, rfl⟩ := Option.isSome_iff_exists.1 some
    obtain ⟨comparison, arithmetic⟩ := applied placed waiting ty rfl
    exact ⟨ty, common.symm, comparison, arithmetic⟩

namespace Applied

variable {op : BinOp} {l r v : Lowered} {b b' : Body} {ty : Ty}

section
variable (applied : Applied op l r b ty v b')
include applied

theorem delivers (le : p ≤ b.pool) (waiting : Placed b r) (spare : Spare p l)
    (spare' : Spare p r) (apart : Apart l r) : Delivers p b v b' := by
  cases kind : op.isComparison with
  | true => exact (applied.comparison kind).delivers le spare spare'
  | false => exact (applied.arithmetic kind).delivers le waiting spare spare' apart

theorem described : v.ty = (if op.isComparison then .int else ty) ∧ v.isLiteral = false := by
  cases kind : op.isComparison with
  | true => obtain _ | _ | _ := applied.comparison kind <;> exact ⟨rfl, rfl⟩
  | false => obtain _ | _ := applied.arithmetic kind <;> exact ⟨rfl, rfl⟩

theorem place : v.place = .flags ∨ ∃ dst, v.place = .temporary dst := by
  cases kind : op.isComparison with
  | true => obtain _ | _ | _ := applied.comparison kind <;> exact .inl rfl
  | false => obtain _ | _ := applied.arithmetic kind <;> exact .inr ⟨_, rfl⟩

theorem not_slot (k : UInt16) : v.place ≠ .slot k := by
  obtain here | ⟨dst, here⟩ := applied.place <;> rw [here] <;> exact nofun

theorem not_global (i : UInt32) : v.place ≠ .global i := by
  obtain here | ⟨dst, here⟩ := applied.place <;> rw [here] <;> exact nofun

theorem sim (le : p ≤ b.pool) (waiting : Placed b r) (spare : Spare p l)
    {y : Value} (within : b'.code.Within k.code.buffer) (holds : l.Holds k.code c x) (holds' : r.Holds k.code c y) :
    k.Sim b.pos c (Evaluation.applyBinary op ty x y) (Arrives k.code p c b' v) := by
  cases kind : op.isComparison with
  | true =>
    exact (applied.comparison kind).sim kind (ne_float_of_commonType? applied.common) le waiting within holds holds'
  | false => exact (applied.arithmetic kind).sim kind le waiting spare within holds holds'

end

end Applied

/-! ## Negation -/

/-- A value was negated. -/
inductive Negated (v : Lowered) (b : Body) : Lowered → Body → Prop where
  | mk {o : Operand} {b₁ b₂ : Body} {dst : UInt8} (fetches : Fetches v b o b₁)
      (results : Results o b₁ dst b₂) :
      Negated v b ⟨.temporary dst, .scalar v.ty.primitive, none⟩ { b₂ with code := b₂.code.negate v.ty dst o.reg }

theorem emits_negateValue (v : Lowered) (span : Span) :
    Emits (negateValue scope v span) fun b v' b' => v.place ≠ .failed → Placed b v → Negated v b v' b' := by
  refine .of_ite (fun failed => ?_) fun _ => .of_ite (fun _ => ?_) fun _ => ?_
  · refine .mono (.of_pure _) ?_
    intro b v' b' _ found
    simp [Lowered.isFailed, found] at failed
  · exact .bind_never (emits_complain scope _ _ span) fun _ =>
      .bind (emits_drop v) fun _ => .of_pure _
  · refine .mono (.bind (emits_operand scope v) fun o => .bind (emits_resultReg scope o) fun dst =>
      .bind (emits_onCode _) fun _ => .of_pure _) ?_
    rintro b v' b' ⟨o, b1, fetches, dst, b2, results, _, _, rfl, rfl, rfl⟩ - placed
    have fetches := fetches placed
    exact .mk fetches (results fetches.taken)

namespace Negated

variable {v v' : Lowered} {b b' : Body}

theorem encodable (ty : Ty) {src : UInt8} (dst_small : dst.toNat < registerCount)
    (src_small : src.toNat < registerCount) :
    (if ty.isFloat then Instruction.fneg dst src else .neg dst src).Encodable := by
  split
  · exact .two dst_small src_small rfl
  · exact .two dst_small src_small rfl

theorem delivers (negated : Negated v b v' b') (le : p ≤ b.pool) (spare : Spare p v) : Delivers p b v' b' := by
  obtain ⟨fetches, results⟩ := negated
  have le1 := le_trans le fetches.pool
  exact .temporary ((fetches.steady.trans results.steady).trans
      (.setCode (.emit _ (encodable v.ty results.small fetches.small))))
    (le_trans le1 results.pool) results.taken
    (results.spare (fetches.spare spare le) le1)

theorem sim (negated : Negated v b v' b') (le : p ≤ b.pool) (spare : Spare p v)
    (within : b'.code.Within k.code.buffer) (holds : v.Holds k.code c x) :
    k.Sim b.pos c (pure (.value (Evaluation.negate v.ty x))) (Arrives k.code p c b' v') := by
  obtain @⟨o, b1, b2, dst, fetches, results⟩ := negated
  have le1 := le_trans le fetches.pool
  have grows := Grows.emit b2.code (encodable v.ty results.small fetches.small)
  have within1 : b1.code.Within k.code.buffer := results.code ▸ grows.within.trans within
  obtain ⟨c1, went1, read, still1⟩ := fetches.runs k.code c x within1 holds
  have does : k.code.Does (if v.ty.isFloat then .fneg dst o.reg else .neg dst o.reg) c1
      (c1.setReg dst (Evaluation.negate v.ty x)) := by
    rw [Evaluation.negate, ← read]
    split
    · exact Activation.does_fneg dst o.reg c1
    · exact Activation.does_neg dst o.reg c1
  have went2 := goes_emit does within
  rw [← Body.pos, results.pos] at went2
  have sets := Sets.setReg c1 (Evaluation.negate v.ty x) results.small
  have still := (still1.mono le).trans (sets.still (results.spare (fetches.spare spare le) le1))
  exact .goes (went1.trans went2) still.store (.pure ⟨rfl, sets.value, still.keeps⟩)

end Negated

end Emission

end RegisterLang
