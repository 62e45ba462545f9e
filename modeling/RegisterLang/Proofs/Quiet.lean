import RegisterLang.Emission.Program
import RegisterLang.Proofs.Emits

/-! # Emission that records nothing

Most of what emission does for a value is a matter of places: it takes registers, adds instructions and
binds labels. The strings with the report and the table of locals stay as they are, and so does what the
value is apart from its place.
-/

namespace RegisterLang.Emission

variable {α β : Type}

/-! ## Values without their places -/

/-- A place without the register, slot or index in it. -/
def Place.unplaced : Place → Place
  | .temporary _ | .slot _ | .home _ | .global _ => .temporary 0
  | .failed => .failed
  | .nothing => .nothing
  | .constant bits => .constant bits
  | .flags => .flags

/-- A value without its place and the operator that gave it. -/
def Lowered.unplaced (v : Lowered) : Lowered :=
  ⟨v.place.unplaced, v.ty, none⟩

namespace Lowered

variable {v v' : Lowered}

theorem isFailed_unplaced (v : Lowered) : v.unplaced.isFailed = v.isFailed := by
  obtain ⟨place, ty, lastOp⟩ := v
  cases place with
  | _ => rfl

theorem intConstant?_unplaced (v : Lowered) : v.unplaced.intConstant? = v.intConstant? := by
  obtain ⟨place, ty, lastOp⟩ := v
  cases place with
  | _ => rfl

section
variable (same : v.unplaced = v'.unplaced)
include same

theorem ty_congr : v.ty = v'.ty :=
  (mk.inj same).2.1

theorem isFailed_congr : v.isFailed = v'.isFailed := by
  rw [← isFailed_unplaced, same, isFailed_unplaced]

theorem isLiteral_congr : v.isLiteral = v'.isLiteral := by
  rw [isLiteral, ← intConstant?_unplaced, same, intConstant?_unplaced, ← isLiteral]

theorem commonType?_congr {w w' : Lowered} (same' : w.unplaced = w'.unplaced) :
    commonType? v w = commonType? v' w' := by
  simp only [commonType?, ty_congr same, ty_congr same', isLiteral_congr same, isLiteral_congr same']

/-- The outcome of an expression is a mistake, nothing, flags, or a value; which of these it is can be seen
without its place. -/
theorem place_cases :
    v.place = .failed ∧ v'.place = .failed ∨ v.place = .nothing ∧ v'.place = .nothing ∨
      v.place = .flags ∧ v'.place = .flags ∨ (v.place ≠ .failed ∧ v.place ≠ .nothing ∧ v.place ≠ .flags) ∧
        v'.place ≠ .failed ∧ v'.place ≠ .nothing ∧ v'.place ≠ .flags := by
  have places : v.place.unplaced = v'.place.unplaced := congrArg place same
  cases h : v.place <;> cases h' : v'.place <;> simp [h, h', Place.unplaced] at places ⊢

end

end Lowered

/-! ## Quiet emission -/

/-- What a body under construction records of the text: the strings with the report, the locals, and how
many returns there were. -/
def Body.recorded (b : Body) : Strings × SymbolTable Local × Nat :=
  (b.strings, b.locals, b.returns)

/-- When a piece of emission ends, its result is as given and nothing new is recorded. -/
def Quiet (x : EmitM α) (gives : α → Prop) : Prop :=
  ∀ b a c, x.run b = .ok (a, c) → gives a ∧ c.recorded = b.recorded

/-- A piece of emission records nothing. -/
class Silent (x : EmitM α) : Prop where
  quiet : Quiet x fun _ => True

namespace Silent

variable {x y : EmitM α} {f : α → EmitM β}

instance (a : α) : Silent (pure a) := by
  refine ⟨fun b a' c ran => ?_⟩
  cases ran
  exact ⟨trivial, rfl⟩

instance (e : EmissionError) : Silent (throw e : EmitM α) := by
  refine ⟨fun b a c ran => ?_⟩
  cases ran

instance : Silent get := by
  refine ⟨fun b a c ran => ?_⟩
  cases ran
  exact ⟨trivial, rfl⟩

instance bind [first : Silent x] [second : ∀ a, Silent (f a)] : Silent (x >>= f) := by
  refine ⟨fun b a' d ran => ?_⟩
  rw [StateT.run_bind, bind_eq_ok] at ran
  obtain ⟨⟨a, c⟩, ran, ran'⟩ := ran
  exact ⟨trivial, ((second a).quiet c a' d ran').2.trans (first.quiet b a c ran).2⟩

theorem of_modify {f : Body → Body} (keeps : ∀ b, (f b).recorded = b.recorded) : Silent (modify f) := by
  refine ⟨fun b a c ran => ?_⟩
  cases ran
  exact ⟨trivial, keeps b⟩

instance {c : Prop} [Decidable c] [Silent x] [Silent y] : Silent (if c then x else y) := by
  split <;> infer_instance

instance {list : List β} {f : β → EmitM PUnit} [∀ x, Silent (f x)] : Silent (list.forM f) := by
  induction list with
  | nil => exact inferInstanceAs (Silent (pure _))
  | cons x rest ih => exact bind

end Silent

namespace Quiet

variable {x y : EmitM α} {gives gives' : α → Prop}

theorem of_pure {a : α} (given : gives a) : Quiet (pure a) gives := by
  intro b a' c ran
  cases ran
  exact ⟨given, rfl⟩

theorem bind [silent : Silent x] {f : α → EmitM β} {gives' : β → Prop} (second : ∀ a, Quiet (f a) gives') :
    Quiet (x >>= f) gives' := by
  intro b a' d ran
  rw [StateT.run_bind, bind_eq_ok] at ran
  obtain ⟨⟨a, c⟩, ran, ran'⟩ := ran
  obtain ⟨given, same⟩ := second a c a' d ran'
  exact ⟨given, same.trans (silent.quiet b a c ran).2⟩

theorem seq [Silent x] {y : EmitM β} {gives' : β → Prop} (second : Quiet y gives') : Quiet (x >>= fun _ => y) gives' :=
  .bind fun _ => second

theorem of_ite {c : Prop} [Decidable c] (yes : c → Quiet x gives) (no : ¬ c → Quiet y gives) :
    Quiet (if c then x else y) gives := by
  split
  · next holds => exact yes holds
  · next fails => exact no fails

end Quiet

section

variable (scope : Scope) (v : Lowered) (o : Operand)

instance (f : CodeBuffer → CodeBuffer) : Silent (onCode f) := .of_modify fun _ => rfl

instance (i : Instruction) : Silent (emitInsn i) := inferInstanceAs (Silent (onCode _))

instance (reg : UInt8) : Silent (free reg) := .of_modify fun _ => rfl

instance (code : CodeBuffer) : Silent (modify fun b => { b with code }) := .of_modify fun _ => rfl

instance : Silent newLabel := by
  unfold newLabel
  infer_instance

instance : Silent (allocate scope) := by
  have (pool : RegisterPool) : Silent (modify fun b => { b with pool }) := .of_modify fun _ => rfl
  refine @Silent.bind _ _ _ _ _ fun s => ?_
  split <;> infer_instance

instance : Silent (release o) := by
  cases o with
  | _ => unfold release; infer_instance

instance : Silent (drop v) := by
  unfold drop
  split <;> infer_instance

instance (vs : List Lowered) : Silent (dropAll vs) := inferInstanceAs (Silent (vs.forM drop))

instance : Silent (operand scope v) := by
  unfold operand
  split <;> infer_instance

instance (target : UInt8) : Silent (loadInto target v) := by
  unfold loadInto
  split <;> infer_instance

instance : Silent (resultReg scope o) := by
  cases o with
  | _ => unfold resultReg; infer_instance

instance (regs : List UInt8) : Silent (pushAll regs) := by
  unfold pushAll
  infer_instance

instance (regs : List UInt8) : Silent (popAll regs) := by
  unfold popAll
  infer_instance

instance (storage : Storage) : Silent (storeLocal scope storage v) := by
  cases storage with
  | _ => unfold storeLocal; infer_instance

instance : Silent ownsArrays := by
  unfold ownsArrays
  infer_instance

instance (tail : Tail) (ended : Bool) : Silent (if (!ended && decide (tail = .no)) = true then do
      onCode (·.jump .always scope.endLabel)
      modify fun b => { b with endJumps := b.endJumps + 1 }
    else pure ()) := by
  have : Silent (modify fun b => { b with endJumps := b.endJumps + 1 }) := .of_modify fun _ => rfl
  infer_instance

instance (regs : List UInt8) : Silent (reserveHomes regs) := by
  induction regs with
  | nil => exact inferInstanceAs (Silent (pure ()))
  | cons reg regs ih =>
    refine @Silent.bind _ _ _ _ _ fun s => ?_
    split
    · have (pool : RegisterPool) : Silent (modify fun b => { b with pool, homes := reg :: b.homes }) :=
        .of_modify fun _ => rfl
      infer_instance
    · infer_instance

instance : Silent (emitEpilogue scope) := by
  have (storage : Storage) : Silent (destroyArray scope storage) := by
    cases storage with
    | _ => unfold destroyArray; infer_instance
  unfold emitEpilogue
  infer_instance

end

theorem quiet_readBefore (scope : Scope) (v : Lowered) (later : Expr) :
    Quiet (readBefore scope v later) fun v' => v'.unplaced = v.unplaced := by
  unfold readBefore
  split
  · next index here =>
    have kind : v.unplaced = ⟨.temporary 0, v.ty, none⟩ := by rw [Lowered.unplaced, here]; rfl
    apply Quiet.of_ite
    · intro _
      apply Quiet.bind
      intro o
      cases o with
      | owned _ | borrowed _ => exact .of_pure kind.symm
    · intro _
      exact .of_pure rfl
  · exact .of_pure rfl

theorem quiet_combine (scope : Scope) (op : BinOp) (ty : Ty) (l r : Lowered) :
    Quiet (combine scope op ty l r) fun v => v.unplaced = ⟨.temporary 0, ty, none⟩ := by
  apply Quiet.bind
  intro left
  apply Quiet.bind
  intro dst
  apply Quiet.bind
  intro s
  dsimp only
  split
  · exact .seq (.of_pure rfl)
  · exact .bind fun right => .seq (.seq (.of_pure rfl))

theorem quiet_compareValues (scope : Scope) (op : BinOp) (ty : Ty) (l r : Lowered) :
    Quiet (compareValues scope op ty l r) fun v => v.unplaced = ⟨.flags, .int, none⟩ := by
  unfold compareValues
  dsimp only
  split
  · exact .bind fun a => .seq (.seq (.of_pure rfl))
  split
  · exact .bind fun a => .seq (.seq (.of_pure rfl))
  · exact .bind fun a => .bind fun b => .seq (.seq (.seq (.of_pure rfl)))

/-- What a call gives depends on the type of its result, and on whether an argument had a mistake. -/
theorem quiet_finishCall (scope : Scope) (index : Nat) (ret : Ty) (saved : List UInt8) (args : Arguments) :
    Quiet (finishCall scope index ret saved args) fun v => v.unplaced =
      if args.hasFailed then .failed
      else if ret.isVoid then ⟨.nothing, ret, none⟩ else ⟨.temporary 0, ret, none⟩ := by
  apply Quiet.seq
  split
  · exact .seq (.seq (.of_pure rfl))
  apply Quiet.seq
  apply Quiet.seq
  split
  · exact .seq (.of_pure rfl)
  · exact .bind fun dst => .seq (.seq (.of_pure rfl))

end RegisterLang.Emission
