import RegisterLang.Proofs.Operators

/-! # Elements of arrays

Reading and writing an element takes the array and the index from where they are, and ends in the fault
that evaluation ends in when there is no such element.
-/

namespace RegisterLang

open Machine RegisterPool

namespace Emission

open Instruction CodeBuffer

variable {σ ω : Type} (scope : Scope) {k : Link σ ω} {c : Core σ} {p : RegisterPool}

theorem emits_checkElement (array : Ty) (position : Lowered) (span : Span) :
    Emits (checkElement scope array position span) fun b ok b' =>
      ok = true ∧ b' = b ∧ array.isArray = true := by
  have fails : ∀ (code : Code) (message : String), Emits
      (do complain scope code message span; return false)
      fun b ok b' => ok = true ∧ b' = b ∧ array.isArray = true := fun code message =>
    .bind_never (emits_complain scope code message span) fun _ => .of_pure _
  refine .of_ite (fun _ => fails _ _) fun indexed => .of_ite (fun _ => fails _ _) fun _ =>
    .mono (.of_pure true) ?_
  rintro b ok b' ⟨rfl, rfl⟩
  exact ⟨rfl, rfl, by simpa using indexed⟩

/-! ## Reading -/

/-- An element was read into a new register. -/
inductive ElementRead (array position : Lowered) (b : Body) : Lowered → Body → Prop where
  | mk {o o' : Operand} {b₁ b₂ : Body} {dst : UInt8} {pool : RegisterPool}
      (left : Fetches array b o b₁) (right : Fetches position b₁ o' b₂)
      (taken : b₂.pool.allocate? = some (dst, pool)) (isArray : array.ty.isArray = true) :
      ElementRead array position b ⟨.temporary dst, array.ty.element, none⟩
        { b₂ with
          code := b₂.code.emit (.arrayGet dst o.reg o'.reg)
          pool := o.leave (o'.leave pool) }

theorem emits_readElement (array position : Lowered) (span : Span) :
    Emits (readElement scope array position span) fun b v b' => array.place ≠ .failed →
      position.place ≠ .failed → Placed b array → Placed b position → ElementRead array position b v b' := by
  have rest : ∀ ok : Bool, Emits
      (if !ok then do
        dropAll [array, position]
        return .failed
      else do
        let a ← operand scope array
        let i ← operand scope position
        let dst ← allocate scope
        emitInsn (.arrayGet dst a.reg i.reg)
        release i
        release a
        return ⟨.temporary dst, array.ty.element, none⟩)
      fun b v b' => ok = true → array.ty.isArray = true → Placed b array → Placed b position →
        ElementRead array position b v b' := by
    intro ok
    refine .of_ite (fun bad => ?_) fun _ => ?_
    · refine .mono (.bind (emits_dropAll _) fun _ => .of_pure _) ?_
      rintro b v b' - rfl
      cases bad
    · refine .mono (.bind (emits_operand scope array) fun o =>
        .bind (emits_operand scope position) fun o' => .bind (emits_allocate scope) fun dst =>
        .bind (emits_emitInsn _) fun _ => .bind (emits_release o') fun _ =>
        .bind (emits_release o) fun _ => .of_pure _) ?_
      rintro b v b' ⟨o, b1, left, o', b2, right, dst, _, ⟨pool, taken, rfl⟩, _, _, rfl, _, _, rfl,
        _, _, rfl, rfl, rfl⟩ - isArray placed waiting
      have left := left placed
      exact .mk left (right (waiting.mono left.pool)) taken isArray
  refine .of_ite (fun failed => ?_) fun _ =>
    .mono (.bind (emits_checkElement scope array.ty position span) rest) ?_
  · refine .mono (.bind (emits_dropAll _) fun _ => .of_pure _) ?_
    intro b v b' _ found found'
    simp [Lowered.isFailed, found, found'] at failed
  · rintro b v b' ⟨ok, _, ⟨rfl, rfl, isArray⟩, read⟩ - - placed waiting
    exact read rfl isArray placed waiting

namespace ElementRead

variable {array position v : Lowered} {b b' : Body}

theorem delivers (read : ElementRead array position b v b') (le : p ≤ b.pool) (spare : Spare p array)
    (spare' : Spare p position) : Delivers p b v b' := by
  obtain @⟨o, o', b1, b2, dst, pool, left, right, taken⟩ := read
  obtain ⟨member, free, used⟩ := allocate?_eq_some taken
  have dst_small := (mem_candidates member).1
  have le1 := le_trans le left.pool
  have le2 := le_trans le1 right.pool
  have more : b2.pool ≤ pool := fun q here => by simp only [used, here, ite_self]
  have steady : Steady b2 { b2 with
      code := b2.code.emit (.arrayGet dst o.reg o'.reg), pool := o.leave (o'.leave pool) } :=
    (Steady.setCode (.emit _ (.three dst_small left.small right.small rfl))).trans (.setPool _ _)
  -- The result is in a register that was free when both operands were in theirs.
  have apart : ∀ q, b2.pool.isAllocated q = true → dst ≠ q := by
    rintro q here rfl
    rw [free] at here
    cases here
  have left_taken : b2.pool.isAllocated o.reg = true := right.pool _ left.taken
  refine .temporary ((left.steady.trans right.steady).trans steady) ?_ ?_ ?_
  · refine (left.spare spare le).le_leave left.small ?_
    exact (right.spare spare' le1).le_leave right.small (le_trans le2 more)
  · refine Operand.isAllocated_leave left.small ?_ ?_
    · refine Operand.isAllocated_leave right.small (by simp [used]) ?_
      rintro q rfl
      exact apart q right.taken
    · rintro q rfl
      exact apart q left_taken
  · exact isAllocated_eq_false_of_le le2 free

theorem sim (read : ElementRead array position b v b') (le : p ≤ b.pool) (waiting : Placed b position) {x y : Value}
    (within : b'.code.Within k.code.buffer) (holds : array.Holds k.code c x) (holds' : position.Holds k.code c y) :
    k.Sim b.pos c (do let v ← Evaluation.readElement x y; return .value v) (Arrives k.code p c b' v) := by
  obtain @⟨o, o', b1, b2, dst, pool, left, right, taken⟩ := read
  obtain ⟨member, free, -⟩ := allocate?_eq_some taken
  have dst_small := (mem_candidates member).1
  have fits : (Instruction.arrayGet dst o.reg o'.reg).Encodable := .three dst_small left.small right.small rfl
  have within2 : b2.code.Within k.code.buffer := (Grows.emit _ fits).within.trans within
  obtain ⟨c1, went1, read1, still1⟩ :=
    left.runs k.code c x (right.steady.code.within.trans within2) holds
  obtain ⟨c2, went2, read2, still2⟩ := right.runs k.code c1 y within2 (holds'.still waiting still1)
  have left_kept : c2.reg o.reg = x := (still2.regs _ left.taken).trans read1
  have still := still1.trans (still2.mono left.pool)
  refine .goes (went1.trans went2) still.store ?_
  rcases result : c2.arrays.get x.handle y with ⟨fault | z, arrays⟩
  · obtain ⟨t, kind⟩ := ArrayHeap.trap_of_get result
    refine .of_traps (.bind_error _ (.onArrays_error result kind)) (Activation.traps_arrayGet within.emitted ?_ kind)
    rw [left_kept, read2, result]
  · obtain rfl : c2.arrays = arrays := by rw [← ArrayHeap.get_snd c2.arrays x.handle y, result]
    have does : k.code.Does (.arrayGet dst o.reg o'.reg) c2 (c2.setReg dst z) :=
      Activation.does_arrayGet _ _ _ (by rw [left_kept, read2, result])
    have sets := Sets.setReg c2 z dst_small
    have le2 := le_trans (le_trans le left.pool) right.pool
    have still' := sets.still (isAllocated_eq_false_of_le le2 free)
    have given : k.Gives c2 (Evaluation.readElement x y) (.ok z) c2 := .onArrays result
    exact .bind_gives given (.goes (goes_emit does within) still'.store
      (.pure ⟨rfl, sets.value, ((still.mono le).trans still').keeps⟩))

end ElementRead

/-! ## Creating -/

theorem sim_arrayNew {code : CodeBuffer} {dst count : UInt8} {n : Nat}
    (within : (code.emit (.arrayNew dst count)).Within k.code.buffer) (length : c.reg count = UInt64.ofNat n) :
    k.Sim code.ops.size c (Evaluation.createArray n) fun v m c' =>
      m = (code.emit (.arrayNew dst count)).ops.size ∧
        ∃ arrays, c' = { c with arrays }.setReg dst v := by
  rcases result : c.arrays.create (c.reg count) with ⟨fault | handle, arrays⟩
  · obtain ⟨t, kind⟩ := ArrayHeap.trap_of_create result
    exact .of_traps (.bind_error _ (.onArrays_error (by rw [← length, result]) kind))
      (Activation.traps_arrayNew within.emitted result kind)
  · have given : k.Gives c (Evaluation.createArray n) (.ok (Value.ofHandle handle))
        { c with arrays } := .bind (.onArrays (by rw [← length, result])) (.pure _ _)
    have given : k.Gives c (Evaluation.createArray n) (.ok (Value.ofHandle handle))
        ({ c with arrays }.setReg dst (Value.ofHandle handle)) := given.of_store rfl rfl
    exact .of_goes given (goes_emit (Activation.does_arrayNew dst count result) within) ⟨rfl, arrays, rfl⟩

/-! ## Writing -/

theorem encodable_arraySet {x y z : UInt8} (x_small : x.toNat < registerCount)
    (y_small : y.toNat < registerCount) (z_small : z.toNat < registerCount) :
    (Instruction.arraySet x y z).Encodable :=
  .three x_small y_small z_small rfl

/-- An instruction that writes an element does what evaluation does, and changes arrays only. -/
theorem sim_arraySet {code : CodeBuffer} {array index value : UInt8}
    (within : (code.emit (.arraySet array index value)).Within k.code.buffer) :
    k.Sim code.ops.size c (Evaluation.writeElement (c.reg array) (c.reg index) (c.reg value))
      fun _ n c' => n = (code.emit (.arraySet array index value)).ops.size ∧ ∃ arrays, c' = { c with arrays } := by
  rcases result : c.arrays.set (c.reg array).handle (c.reg index) (c.reg value) with ⟨fault | _, arrays⟩
  · obtain ⟨t, kind⟩ := ArrayHeap.trap_of_set result
    exact .of_traps (.onArrays_error result kind) (Activation.traps_arraySet within.emitted result kind)
  · have given : k.Gives c (Evaluation.writeElement (c.reg array) (c.reg index) (c.reg value)) (.ok ())
        { c with arrays } := .onArrays result
    exact .of_goes given (goes_emit (Activation.does_arraySet _ _ _ result) within) ⟨rfl, arrays, rfl⟩

/-- A value was stored in an element. -/
inductive ElementWritten (array position v : Lowered) (b : Body) : Body → Prop where
  | mk {o o' o'' : Operand} {b₁ b₂ b₃ : Body} (first : Fetches array b o b₁)
      (second : Fetches position b₁ o' b₂) (third : Fetches v b₂ o'' b₃) :
      ElementWritten array position v b { b₃ with
        code := b₃.code.emit (.arraySet o.reg o'.reg o''.reg)
        pool := o.leave (o'.leave (o''.leave b₃.pool)) }

theorem emits_storeElement (array position v : Lowered) (valueSpan span : Span) :
    Emits (storeElement scope array position v valueSpan span) fun b _ b' =>
      array.place ≠ .failed → position.place ≠ .failed → v.place ≠ .failed → Placed b array →
      Placed b position → Placed b v →
      array.ty.isArray = true ∧ ElementWritten array position v b b' := by
  refine .mono (.ite (emits_dropAll _) (.bind (emits_checkElement scope array.ty position span)
    fun ok => .ite (emits_dropAll _) (.ite
      (.bind (emits_complain scope _ _ valueSpan) fun _ => emits_dropAll _)
      (.bind (emits_operand scope array) fun o => .bind (emits_operand scope position) fun o' =>
        .bind (emits_operand scope v) fun o'' => .bind (emits_emitInsn _) fun _ =>
        .bind (emits_release o'') fun _ => .bind (emits_release o') fun _ => emits_release o)))) ?_
  rintro b _ b' (⟨failed, -⟩ | ⟨-, ok, _, ⟨rfl, rfl, indexed⟩, ⟨bad, -⟩ | ⟨-, rest⟩⟩) found found'
    found'' placed placed' placed''
  · simp [Lowered.isFailed, found, found', found''] at failed
  · cases bad
  · obtain ⟨-, _, _, impossible, -⟩ | ⟨-, o, b1, first, o', b2, second, o'', b3, third, _, _, rfl, _,
      _, rfl, _, _, rfl, rfl⟩ := rest
    · exact impossible.elim
    · have first := first placed
      have second := second (placed'.mono first.pool)
      have third := third ((placed''.mono first.pool).mono second.pool)
      have written := ElementWritten.mk first second third
      exact ⟨indexed, written⟩

namespace ElementWritten

variable {array position v : Lowered} {b b' : Body}

section
variable (written : ElementWritten array position v b b')
include written

theorem steady : Steady b b' := by
  obtain ⟨first, second, third⟩ := written
  have fits := encodable_arraySet first.small second.small third.small
  exact ((((first.steady.trans second.steady).trans third.steady).trans
    (.setCode (.emit _ fits))).trans (.setPool _ _))

theorem pool (le : p ≤ b.pool) (spare : Spare p array)
    (spare' : Spare p position) (spare'' : Spare p v) : p ≤ b'.pool := by
  obtain ⟨first, second, third⟩ := written
  have le1 := le_trans le first.pool
  have le2 := le_trans le1 second.pool
  refine (first.spare spare le).le_leave first.small ?_
  refine (second.spare spare' le1).le_leave second.small ?_
  exact (third.spare spare'' le2).le_leave third.small (le_trans le2 third.pool)

theorem sim (placed' : Placed b position) (placed'' : Placed b v)
    {x y z : Value} (within : b'.code.Within k.code.buffer) (holds : array.Holds k.code c x)
    (holds' : position.Holds k.code c y) (holds'' : v.Holds k.code c z) :
    k.Sim b.pos c (Evaluation.writeElement x y z) fun _ n c' => n = b'.pos ∧ Keeps b.pool c c' := by
  obtain @⟨o, o', o'', b1, b2, b3, first, second, third⟩ := written
  have fits := encodable_arraySet first.small second.small third.small
  have within3 : b3.code.Within k.code.buffer := (Grows.emit _ fits).within.trans within
  have within2 := third.steady.code.within.trans within3
  obtain ⟨c1, went1, read1, still1⟩ :=
    first.runs k.code c x (second.steady.code.within.trans within2) holds
  obtain ⟨c2, went2, read2, still2⟩ := second.runs k.code c1 y within2 (holds'.still placed' still1)
  have still12 := still1.trans (still2.mono first.pool)
  obtain ⟨c3, went3, read3, still3⟩ := third.runs k.code c2 z within3 (holds''.still placed'' still12)
  have le := le_trans first.pool second.pool
  have still := still12.trans (still3.mono le)
  have x_kept : c3.reg o.reg = x :=
    (still3.regs _ (second.pool _ first.taken)).trans ((still2.regs _ first.taken).trans read1)
  have y_kept : c3.reg o'.reg = y := (still3.regs _ second.taken).trans read2
  refine .goes ((went1.trans went2).trans went3) still.store ?_
  rw [← x_kept, ← y_kept, ← read3]
  refine (sim_arraySet within).mono ?_
  rintro _ n _ ⟨rfl, arrays, rfl⟩
  exact ⟨rfl, still.stack, still.regs, congrArg Array.size still.globals⟩

end

end ElementWritten

end Emission

end RegisterLang
