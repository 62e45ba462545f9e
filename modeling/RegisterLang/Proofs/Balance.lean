import RegisterLang.Proofs.Triples

/-! # Registers and labels between statements

Every value gives its register back exactly once, on every way out of an expression or a statement, with
or without a mistake. So between statements the registers in use are the homes of parameters and locals,
and no check on the way can fail: a value that is brought into a register is somewhere, flags come from a
comparison, and an array has a slot. Main statements: `secure_lowerExpr` and `secure_emitStmt`.
-/

namespace RegisterLang.Emission

open Lowered List

variable {scope : Scope} {pending : List Label} {temps : List UInt8} {v : Lowered}

/-! ## Values -/

/-- A value, or none because of a mistake. -/
def Lowered.Settled (v : Lowered) : Prop :=
  v.place ≠ .nothing ∧ v.place ≠ .flags

theorem Lowered.Settled.isValue (settled : v.Settled) (holds : v.isFailed = false) : v.IsValue :=
  ⟨by simpa [isFailed] using holds, settled⟩

theorem Lowered.settled_failed : failed.Settled :=
  ⟨nofun, nofun⟩

theorem Lowered.temps_of_isFailed (failed : v.isFailed = true) : v.temps = [] := by
  unfold temps
  rw [show v.place = .failed by simpa [isFailed] using failed]

/-- A body that holds a value which can be used. -/
def Body.Gives (b : Body) (pending : List Label) (temps : List UInt8) (v : Lowered) : Prop :=
  v.Settled ∧ b.Holds pending (v.temps ++ temps)

/-- A body that holds the outcome of an expression. Flags were set by some comparison. -/
def Body.Lowers (b : Body) (pending : List Label) (temps : List UInt8) (v : Lowered) : Prop :=
  (v.place = .flags → v.lastOp.isSome = true) ∧ b.Holds pending (v.temps ++ temps)

/-- A piece of emission that starts with the temporaries in `held` and gives a value which can be used. -/
abbrev Supplies (scope : Scope) (pending : List Label) (held temps : List UInt8) (x : EmitM Lowered) : Prop :=
  Secure scope x (·.Holds pending held) fun v => (·.Gives pending temps v)

variable {b : Body}

theorem Body.Gives.lowers (gives : b.Gives pending temps v) : b.Lowers pending temps v :=
  ⟨fun flags => absurd flags gives.1.2, gives.2⟩

theorem Body.Holds.failed (holds : b.Holds pending temps) : b.Gives pending temps .failed :=
  ⟨settled_failed, holds⟩

theorem Secure.gives (settled : v.Settled) : Supplies scope pending (v.temps ++ temps) temps (pure v) :=
  .of_pure fun _ holds => ⟨settled, holds⟩

theorem secure_reject {code : Code} {message : String} {span : Span} :
    Supplies scope pending temps temps (reject scope code message span) :=
  .bind secure_complain fun _ => .of_pure fun _ holds => holds.failed

theorem secure_asValue (span : Span) (v : Lowered) :
    Supplies scope pending (v.temps ++ temps) temps (asValue scope span v) := by
  obtain ⟨place, ty, lastOp⟩ := v
  cases place with
  | flags | nothing => exact secure_reject
  | failed | temporary _ | slot _ | home _ | global _ | constant _ => exact .gives ⟨nofun, nofun⟩

theorem secure_lowerString (text : String) (span : Span) :
    Supplies scope pending temps temps (lowerString scope text span) := by
  refine .bind_get fun s => ?_
  refine .bind (.of_modify fun b holds => ?_) fun _ => .gives ⟨nofun, nofun⟩
  exact ⟨holds.2.registers, holds.2.homes, holds.2.forward⟩

theorem secure_lowerName (name : String) (span : Span) :
    Supplies scope pending temps temps (lowerName scope name span) := by
  refine .bind_look fun s => ?_
  cases s.locals.lookup? name with
  | some l =>
    refine .of_ite (fun _ => secure_reject) fun _ => ?_
    cases l.storage with
    | register _ | stack _ => exact .gives ⟨nofun, nofun⟩
  | none =>
    dsimp only
    split
    · exact .gives ⟨nofun, nofun⟩
    · split
      · exact .gives ⟨nofun, nofun⟩
      · exact secure_reject

theorem secure_readBefore (settled : v.Settled) (later : Expr) :
    Supplies scope pending (v.temps ++ temps) temps (readBefore scope v later) := by
  unfold readBefore
  split
  · next index global =>
    have value : v.IsValue := ⟨by rw [global]; nofun, settled⟩
    refine .of_ite (fun _ => .bind (secure_operand value) fun o => ?_) fun _ => .gives settled
    cases o with
    | owned _ | borrowed _ => exact .gives ⟨nofun, nofun⟩
  · exact .gives settled

/-! ## Operators -/

theorem secure_binaryType (l : Lowered) (op : BinOp) (r : Lowered) (span : Span) :
    Sustains scope pending temps (binaryType scope l op r span) := by
  refine .of_ite (fun _ => .bind secure_complain fun _ => .of_pure fun _ => id) fun _ => ?_
  cases commonType? l r with
  | some ty => exact .of_pure fun _ => id
  | none => exact .bind secure_complain fun _ => .of_pure fun _ => id

theorem Lowered.temps_of_intConstant? {bits : UInt64} (found : v.intConstant? = some bits) : v.temps = [] := by
  unfold intConstant? at found
  unfold temps
  split at found
  · next bits here => rw [here]
  · cases found

variable {r l : Lowered}

theorem secure_combine (op : BinOp) (ty : Ty) (left : l.IsValue) (right : r.IsValue) :
    Supplies scope pending (r.temps ++ (l.temps ++ temps)) temps (combine scope op ty l r) := by
  refine .bind (.of_pre (secure_operand left) fun _ => .swap) fun o => ?_
  refine .bind (secure_resultReg o) fun dst => .bind_get fun s => ?_
  dsimp only
  cases found : (if ty.numKind = .float then none else r.intConstant?).bind
      (s.code.arithImm? (arithOp op) dst o.reg) with
  | some code =>
    refine .bind (.of_modify fun b holds => ?_) fun _ => .of_pure fun b (holds : b.Holds _ _) =>
      ⟨⟨nofun, nofun⟩, holds⟩
    obtain ⟨rfl, holds⟩ := holds
    obtain ⟨imm, constant, made⟩ := Option.bind_eq_some_iff.1 found
    have small : r.intConstant? = some imm := by
      split at constant
      · cases constant
      · exact constant
    rw [temps_of_intConstant? small] at holds
    exact holds.withCode (holds.forward.arithImm? made)
  | none =>
    refine .bind (.of_pre (secure_operand right) fun _ holds => holds.2.swap_cons) fun o' => ?_
    refine .bind (secure_onCode fun _ forward => forward.emit _) fun _ => ?_
    refine .bind (secure_release o') fun _ => .gives ⟨nofun, nofun⟩

theorem secure_compareValues (op : BinOp) (ty : Ty) (left : l.IsValue) (right : r.IsValue) :
    Secure scope (compareValues scope op ty l r) (·.Holds pending (r.temps ++ (l.temps ++ temps)))
      fun v => (·.Lowers pending temps v) := by
  refine .of_ite (fun zero => ?_) fun _ => .of_ite (fun zero => ?_) fun _ => ?_
  · simp only [Bool.and_eq_true, decide_eq_true_eq] at zero
    rw [temps_of_intConstant? zero.2]
    refine .bind (secure_operand left) fun o => .bind (secure_emitInsn _) fun _ => ?_
    exact .bind (secure_release o) fun _ => .of_pure fun _ holds => ⟨fun _ => rfl, holds⟩
  · simp only [Bool.and_eq_true, decide_eq_true_eq] at zero
    rw [temps_of_intConstant? zero.2]
    refine .bind (secure_operand right) fun o => .bind (secure_emitInsn _) fun _ => ?_
    exact .bind (secure_release o) fun _ => .of_pure fun _ holds => ⟨fun _ => rfl, holds⟩
  · refine .bind (.of_pre (secure_operand left) fun _ => .swap) fun o => ?_
    refine .bind (.of_pre (secure_operand right) fun _ => .swap) fun o' => ?_
    refine .bind (secure_onCode fun _ forward => forward.emit _) fun _ => ?_
    refine .bind (secure_release o') fun _ => .bind (secure_release o) fun _ => ?_
    exact .of_pure fun _ holds => ⟨fun _ => rfl, holds⟩

theorem secure_applyBinary (op : BinOp) (left : l.Settled) (right : r.Settled) (span : Span) :
    Secure scope (applyBinary scope op l r span) (·.Holds pending (r.temps ++ (l.temps ++ temps)))
      fun v => (·.Lowers pending temps v) := by
  have dropped : Secure scope (dropAll [l, r] >>= fun _ => pure failed)
      (·.Holds pending (r.temps ++ (l.temps ++ temps))) fun v => (·.Lowers pending temps v) := by
    refine .bind (.of_pre (secure_dropAll [l, r]) fun b holds => ?_) fun _ =>
      .of_pure fun _ holds => holds.failed.lowers
    simpa using holds.swap
  refine .of_ite (fun _ => dropped) fun fine => ?_
  simp only [Bool.or_eq_true, not_or, Bool.not_eq_true] at fine
  refine .bind (secure_binaryType l op r span) fun ty? => ?_
  cases ty? with
  | none => exact dropped
  | some ty =>
    refine .of_ite (fun _ => ?_) fun _ => ?_
    · exact secure_compareValues op ty (left.isValue fine.1) (right.isValue fine.2)
    · exact .of_post (secure_combine op ty (left.isValue fine.1) (right.isValue fine.2))
        fun _ _ gives => gives.lowers

theorem secure_negateValue (settled : v.Settled) (span : Span) :
    Supplies scope pending (v.temps ++ temps) temps (negateValue scope v span) := by
  refine .of_ite (fun _ => .gives settled) fun fine => ?_
  refine .of_ite (fun _ => ?_) fun _ => ?_
  · refine .bind secure_complain fun _ => .bind (secure_drop v) fun _ => ?_
    exact .of_pure fun _ holds => holds.failed
  · have value := settled.isValue (by simpa using fine)
    refine .bind (secure_operand value) fun src => .bind (secure_resultReg src) fun dst => ?_
    refine .bind (secure_onCode fun _ forward => forward.emit _) fun _ => ?_
    exact .gives ⟨nofun, nofun⟩

/-! ## Elements of arrays -/

theorem secure_checkElement (array : Ty) (position : Lowered) (span : Span) :
    Sustains scope pending temps (checkElement scope array position span) := by
  refine .of_ite (fun _ => .bind secure_complain fun _ => .of_pure fun _ => id) fun _ => ?_
  refine .of_ite (fun _ => .bind secure_complain fun _ => .of_pure fun _ => id) fun _ => ?_
  exact .of_pure fun _ => id

variable {position array : Lowered}

theorem secure_readElement (first : array.Settled) (second : position.Settled) (span : Span) :
    Supplies scope pending (position.temps ++ (array.temps ++ temps)) temps
      (readElement scope array position span) := by
  have dropped : Supplies scope pending (position.temps ++ (array.temps ++ temps)) temps
      (dropAll [array, position] >>= fun _ => pure failed) := by
    refine .bind (.of_pre (secure_dropAll [array, position]) fun b holds => ?_) fun _ =>
      .of_pure fun _ holds => holds.failed
    simpa using holds.swap
  refine .of_ite (fun _ => dropped) fun fine => ?_
  simp only [Bool.or_eq_true, not_or, Bool.not_eq_true] at fine
  refine .bind (secure_checkElement array.ty position span) fun _ => ?_
  refine .of_ite (fun _ => dropped) fun _ => ?_
  refine .bind (.of_pre (secure_operand (first.isValue fine.1)) fun _ => .swap) fun a => ?_
  refine .bind (.of_pre (secure_operand (second.isValue fine.2)) fun _ => .swap) fun i => ?_
  refine .bind secure_allocate fun dst => .bind (secure_emitInsn _) fun _ => ?_
  refine .bind (.of_pre (secure_release i) fun _ => .swap_cons) fun _ => ?_
  refine .bind (.of_pre (secure_release a) fun _ => .swap_cons) fun _ => ?_
  exact .gives ⟨nofun, nofun⟩

/-! ## Calls -/

/-- Arguments that wait without a register of their own. -/
def Arguments.Direct (args : Arguments) : Prop :=
  ∀ x ∈ args.deferred, x.2.isDirect = true

theorem Lowered.isValue_of_isDirect (direct : v.isDirect = true) : v.IsValue ∧ v.temps = [] := by
  obtain ⟨place, ty, lastOp⟩ := v
  cases place with
  | constant _ | slot _ => exact ⟨⟨nofun, nofun, nofun⟩, rfl⟩
  | _ => cases direct

variable {args : Arguments}

theorem secure_placeArgument (callee : String) (registerArgs i : Nat) (expected : Ty) (span : Span)
    (settled : v.Settled) (direct : args.Direct) :
    Secure scope (placeArgument scope callee registerArgs i expected span v args)
      (·.Holds pending (v.temps ++ temps)) fun args' b => args'.Direct ∧ b.Holds pending temps := by
  refine .of_ite (fun failed => .of_pure fun _ holds => ⟨direct, ?_⟩) fun fine => ?_
  · rwa [temps_of_isFailed failed] at holds
  refine .of_ite (fun _ => ?_) fun _ => .of_ite (fun late => .of_pure fun _ holds => ⟨?_, ?_⟩)
    fun _ => ?_
  · refine .bind secure_complain fun _ => .bind (secure_drop v) fun _ => ?_
    exact .of_pure fun _ holds => ⟨direct, holds⟩
  · simp only [Bool.and_eq_true, decide_eq_true_eq] at late
    intro x member
    obtain earlier | new := mem_append.1 member
    · exact direct x earlier
    · rw [mem_singleton.1 new]
      exact late.2
  · simp only [Bool.and_eq_true, decide_eq_true_eq] at late
    rwa [(isValue_of_isDirect late.2).2] at holds
  · refine .bind (secure_operand (settled.isValue (by simpa using fine))) fun o => ?_
    refine .bind (secure_emitInsn _) fun _ => .bind (secure_release o) fun _ => ?_
    refine .of_ite (fun _ => .of_pure fun _ holds => ⟨direct, holds⟩) fun _ => ?_
    exact .of_pure fun _ holds => ⟨direct, holds⟩

theorem secure_pushAll (regs : List UInt8) : Sustains scope pending temps (pushAll regs) :=
  .forM fun _ _ => secure_emitInsn _

theorem secure_popAll (regs : List UInt8) : Sustains scope pending temps (popAll regs) :=
  .forM fun _ _ => secure_emitInsn _

theorem secure_finishCall (index : Nat) (ret : Ty) (saved : List UInt8) (direct : args.Direct) :
    Secure scope (finishCall scope index ret saved args) (·.Holds pending temps)
      fun v => (·.Lowers pending temps v) := by
  refine .bind (secure_popAll _) fun _ => .of_ite (fun _ => ?_) fun _ => ?_
  · have dropped : ∀ x ∈ args.deferred, Sustains scope pending temps (drop x.2) := by
      intro x member
      have dropped : Secure scope (drop x.2) (·.Holds pending (x.2.temps ++ temps)) _ :=
        secure_drop x.2
      rwa [(isValue_of_isDirect (direct x member)).2] at dropped
    refine .bind (.forM dropped) fun _ => .bind (secure_popAll _) fun _ => ?_
    exact .of_pure fun _ holds => holds.failed.lowers
  · have loaded : ∀ x ∈ args.deferred, Sustains scope pending temps (loadInto x.1 x.2) := by
      intro x member
      obtain ⟨value, none⟩ := isValue_of_isDirect (direct x member)
      have loaded : Secure scope (loadInto x.1 x.2) (·.Holds pending (x.2.temps ++ temps)) _ :=
        secure_loadInto value x.1
      rwa [none] at loaded
    refine .bind (.forM loaded) fun _ => ?_
    refine .bind (secure_onCode fun _ forward => forward.emit _) fun _ => ?_
    refine .of_ite (fun _ => ?_) fun _ => ?_
    · refine .bind (secure_popAll _) fun _ => ?_
      exact .of_pure fun _ holds => ⟨nofun, holds⟩
    · refine .bind secure_allocate fun dst => ?_
      refine .bind (secure_onCode fun _ forward => forward.mov dst returnReg) fun _ => ?_
      refine .bind (secure_popAll _) fun _ => ?_
      exact .of_pure fun _ holds => ⟨nofun, holds⟩

theorem secure_resolveCall (callee : Ident) (count : Nat) (span : Span) :
    Sustains scope pending temps (resolveCall scope callee count span) := by
  unfold resolveCall
  split
  · refine .of_ite (fun _ => .of_pure fun _ => id) fun _ => ?_
    exact .bind secure_complain fun _ => .of_pure fun _ => id
  · exact .bind secure_complain fun _ => .of_pure fun _ => id

/-! ## Expressions -/

mutual

/-- An expression holds the register of its own outcome in the end, and no other. -/
theorem secure_lowerExpr {temps : List UInt8} : (e : Expr) →
    Secure scope (lowerExpr scope e) (·.Holds pending temps) fun v => (·.Lowers pending temps v)
  | .int _ _ | .float _ _ => .of_pure fun _ holds => ⟨nofun, holds⟩
  | .str text span => .of_post (secure_lowerString text span) fun _ _ gives => gives.lowers
  | .name id span => .of_post (secure_lowerName id span) fun _ _ gives => gives.lowers
  | .group inner _ => secure_lowerExpr inner
  | .call callee args span => by
    refine .bind (secure_resolveCall callee args.length span) fun resolved => ?_
    cases resolved with
    | none => exact .of_pure fun _ holds => holds.failed.lowers
    | some found =>
      refine .bind_look fun s => ?_
      refine .bind (secure_pushAll _) fun _ => ?_
      refine .bind (secure_lowerArgs _ _ 0 _ args) fun placed => ?_
      exact .of_fact fun direct => secure_finishCall _ _ _ direct
  | .binary op left right span => by
    refine .bind (secure_lowerExpr left) fun l => ?_
    refine .bind (.of_pre (secure_asValue left.span l) fun _ => And.right) fun l => ?_
    refine .bind (.of_fact fun settled => secure_readBefore settled right) fun l => ?_
    refine .of_fact fun settled => ?_
    refine .bind (secure_lowerExpr right) fun r => ?_
    refine .bind (.of_pre (secure_asValue right.span r) fun _ => And.right) fun r => ?_
    exact .of_fact fun settled' => secure_applyBinary op settled settled' span
  | .list _ _ | .dot _ _ _ | .unary .not _ _ => .of_post secure_reject fun _ _ gives => gives.lowers
  | .unary .neg operand span => by
    rw [lowerExpr]
    cases literal : negatedLiteral? operand with
    | some v =>
      refine .of_pure fun _ holds => ?_
      unfold negatedLiteral? at literal
      split at literal
      · cases literal
        exact ⟨nofun, holds⟩
      · cases literal
        exact ⟨nofun, holds⟩
      · cases literal
    | none =>
      refine .bind (secure_lowerExpr operand) fun v => ?_
      refine .bind (.of_pre (secure_asValue operand.span v) fun _ => And.right) fun v => ?_
      refine .of_fact fun settled => ?_
      exact .of_post (secure_negateValue settled span) fun _ _ gives => gives.lowers
  | .index array position span => by
    refine .bind (secure_lowerExpr array) fun a => ?_
    refine .bind (.of_pre (secure_asValue array.span a) fun _ => And.right) fun a => ?_
    refine .bind (.of_fact fun settled => secure_readBefore settled position) fun a => ?_
    refine .of_fact fun settled => ?_
    refine .bind (secure_lowerExpr position) fun i => ?_
    refine .bind (.of_pre (secure_asValue position.span i) fun _ => And.right) fun i => ?_
    refine .of_fact fun settled' => ?_
    exact .of_post (secure_readElement settled settled' span) fun _ _ gives => gives.lowers

theorem secure_lowerArgs {temps : List UInt8} (callee : String) (registerArgs i : Nat) :
    (params : List Ty) → (args : List Expr) →
    Secure scope (lowerArgs scope callee registerArgs i params args) (·.Holds pending temps)
      fun placed b => placed.Direct ∧ b.Holds pending temps
  | expected :: params, arg :: args => by
    refine .bind (secure_lowerArgs callee registerArgs (i + 1) params args) fun placed => ?_
    refine .of_fact fun direct => ?_
    refine .bind (secure_lowerExpr arg) fun v => ?_
    refine .bind (.of_pre (secure_asValue arg.span v) fun _ => And.right) fun v => ?_
    exact .of_fact fun settled => secure_placeArgument callee registerArgs i expected arg.span settled
      direct
  | [], args => by
    rw [lowerArgs]
    · exact .of_pure fun _ holds => ⟨forall_mem_nil _, holds⟩
    · exact fun _ _ _ _ impossible => nomatch impossible
  | _ :: _, [] => by
    rw [lowerArgs]
    · exact .of_pure fun _ holds => ⟨forall_mem_nil _, holds⟩
    · exact fun _ _ _ _ _ impossible => nomatch impossible

end

theorem secure_lowerValue (e : Expr) : Supplies scope pending temps temps (lowerValue scope e) :=
  .bind (secure_lowerExpr e) fun v => .of_pre (secure_asValue e.span v) fun _ => And.right

/-! ## Locals -/

theorem Body.Holds.addStack (holds : b.Holds pending temps) (name : String) (ty : Ty)
    (slot : UInt16) (initialized isParam : Bool) :
    ({ b with locals := b.locals.add name ⟨ty, .stack slot, initialized, isParam⟩ } : Body).Holds
      pending temps := by
  have same := homeRegs_add b.locals name ⟨ty, .stack slot, initialized, isParam⟩
  rw [Storage.regs, append_nil] at same
  refine ⟨?_, ?_, holds.forward⟩
  · rw [same]
    exact holds.registers
  · rw [same]
    exact holds.homes

theorem secure_stackSlot (span : Span) : Secure scope (stackSlot scope span) (·.Holds pending temps)
      fun storage b => (∃ slot, storage = .stack slot) ∧ b.Holds pending temps := by
  refine .bind_look fun s => ?_
  refine .of_ite (fun _ => ?_) fun _ => ?_
  · refine .bind (.of_modify fun b holds => ?_) fun _ => .of_pure fun _ holds => ⟨⟨_, rfl⟩, holds⟩
    exact ⟨holds.registers, holds.homes, holds.forward⟩
  · exact .bind secure_complain fun _ => .of_pure fun _ holds => ⟨⟨_, rfl⟩, holds⟩

theorem secure_addLocal (name : String) (l : Local) :
    Secure scope (modify fun b => { b with locals := b.locals.add name l })
      (fun b => ({ b with locals := b.locals.add name l } : Body).Holds pending temps)
      fun _ => (·.Holds pending temps) :=
  .of_modify fun _ holds => holds

/-- The home of a new local is counted with the others once the local is declared. -/
theorem secure_placeLocal (span : Span) : Secure scope (placeLocal scope span) (·.Holds pending temps)
      fun storage b => ∀ name ty initialized isParam,
        ({ b with locals := b.locals.add name ⟨ty, storage, initialized, isParam⟩ } : Body).Holds
          pending temps := by
  refine .bind_look fun s => ?_
  refine .of_ite (fun _ => ?_) fun _ => .of_post (secure_stackSlot span) ?_
  · refine .bind secure_allocate fun reg => ?_
    refine .bind (.of_modify fun b holds => ?_) fun _ => .of_pure fun _ => id
    intro name ty initialized isParam
    have added := homeRegs_add b.locals name ⟨ty, .register reg, initialized, isParam⟩
    refine ⟨?_, ?_, holds.forward⟩
    · rw [added]
      simpa [Storage.regs] using holds.registers
    · rw [added]
      exact (holds.homes.cons reg).trans (perm_append_singleton ..).symm
  · intro storage b given name ty initialized isParam
    obtain ⟨⟨slot, rfl⟩, holds⟩ := given
    exact holds.addStack name ty slot initialized isParam

theorem secure_markInitialized (name : String) : Sustains scope pending temps (markInitialized name) := by
  refine .of_modify fun b holds => ?_
  split
  · next index found =>
    have same : homeRegs (b.locals.modify index fun l => { l with initialized := true }) =
        homeRegs b.locals := homeRegs_modify b.locals index fun _ => rfl
    exact ⟨same.symm ▸ holds.registers, same.symm ▸ holds.homes, holds.forward⟩
  · exact holds

theorem secure_storeLocal (storage : Storage) (value : v.IsValue) :
    GivesBack scope pending v.temps temps (storeLocal scope storage v) := by
  cases storage with
  | register reg => exact secure_loadInto value reg
  | stack slot =>
    refine .bind (secure_operand value) fun o => .bind (secure_emitInsn _) fun _ => ?_
    exact secure_release o

theorem secure_consume (settled : v.Settled) {fits : Prop} [Decidable fits] {use refuse rest : EmitM Unit}
    {post : Unit → Body → Prop} (used : v.IsValue → Secure scope use (·.Holds pending (v.temps ++ temps)) post)
    (refused : Secure scope refuse (·.Holds pending (v.temps ++ temps)) post)
    (gone : Secure scope rest (·.Holds pending temps) post) :
    Secure scope (if (!v.isFailed) = true then if fits then use else refuse else rest)
      (·.Holds pending (v.temps ++ temps)) post := by
  refine .of_ite (fun fine => .of_ite (fun _ => ?_) fun _ => refused) fun failed => ?_
  · exact used (settled.isValue (by simpa using fine))
  · rwa [temps_of_isFailed (by simpa using failed)]

theorem secure_emitScalar (var : VarDecl) : Sustains scope pending temps (emitScalar scope var) := by
  refine .bind (secure_placeLocal var.span) fun storage => ?_
  refine .bind (.of_pre (secure_addLocal ..) fun b placed => placed ..) fun _ => ?_
  cases var.init with
  | none => exact .of_pure fun _ => id
  | some init =>
    refine .bind (secure_lowerValue init) fun v => .of_fact fun settled => ?_
    refine secure_consume settled (fun value => ?_) ?_ (secure_markInitialized _)
    · exact .bind (secure_storeLocal storage value) fun _ => secure_markInitialized _
    · refine .bind secure_complain fun _ => .bind (secure_drop v) fun _ => ?_
      exact secure_markInitialized _

theorem secure_emitElements (name : String) (handle : UInt8) (elem : Ty) (i : Nat)
    (items : List Expr) : Sustains scope pending temps (emitElements scope name handle elem i items) := by
  induction items generalizing i with
  | nil => exact .of_pure fun _ => id
  | cons item items ih =>
    refine .bind (secure_lowerValue item) fun v => .of_fact fun settled => ?_
    refine secure_consume settled (fun value => ?_) ?_ (ih _)
    · refine .bind (secure_operand value) fun o => .bind secure_allocate fun index => ?_
      refine .bind (secure_onCode fun _ forward => forward.emit _) fun _ => ?_
      refine .bind (secure_emitInsn _) fun _ => .bind secure_free fun _ => ?_
      exact .bind (secure_release o) fun _ => ih _
    · exact .bind secure_complain fun _ => .bind (secure_drop v) fun _ => ih _

theorem secure_createArray (var : VarDecl) (len : Nat) (items : List Expr) :
    Sustains scope pending temps (createArray scope var len items) := by
  refine .bind (secure_stackSlot var.span) fun storage => ?_
  refine .of_fact fun stacked => ?_
  obtain ⟨slot, rfl⟩ := stacked
  refine .bind (.of_pre (secure_addLocal ..) fun b holds => holds.addStack ..) fun _ => ?_
  refine .bind secure_allocate fun handle => .bind secure_allocate fun count => ?_
  refine .bind (secure_onCode fun _ forward => forward.emit _) fun _ => ?_
  refine .bind (secure_emitInsn _) fun _ => .bind secure_free fun _ => ?_
  refine .bind (secure_emitElements ..) fun _ => .bind (secure_emitInsn _) fun _ => ?_
  exact .bind secure_free fun _ => secure_markInitialized _

theorem secure_emitVar (var : VarDecl) : Sustains scope pending temps (emitVar scope var) := by
  have array : Sustains scope pending temps (emitArray scope var) := by
    unfold emitArray
    cases arrayItems? var with
    | none => exact secure_complain
    | some items =>
      dsimp only
      split
      · exact secure_complain
      · exact secure_createArray ..
  refine .bind_look fun s => ?_
  refine .of_ite (fun _ => secure_complain) fun _ => .of_ite (fun _ => secure_complain) fun _ => ?_
  refine .of_ite (fun _ => secure_complain) fun _ => ?_
  exact .of_ite (fun _ => array) fun _ => secure_emitScalar var

/-! ## Assignments -/

theorem secure_assignLocal (name : String) (l : Local) (span : Span) (value : Expr) :
    Sustains scope pending temps (assignLocal scope name l span value) := by
  refine .of_ite (fun _ => secure_complain) fun _ => .of_ite (fun _ => secure_complain) fun _ => ?_
  refine .bind (secure_lowerValue value) fun v => .of_fact fun settled => ?_
  refine secure_consume settled (fun value => ?_) ?_ (secure_markInitialized _)
  · exact .bind (secure_storeLocal l.storage value) fun _ => secure_markInitialized _
  · exact .bind secure_complain fun _ => .bind (secure_drop v) fun _ => secure_markInitialized _

theorem secure_assignGlobal (name : String) (index : Nat) (ty : Ty) (span : Span) (value : Expr) :
    Sustains scope pending temps (assignGlobal scope name index ty span value) := by
  refine .of_ite (fun _ => secure_complain) fun _ => ?_
  refine .bind (secure_lowerValue value) fun v => .of_fact fun settled => ?_
  refine secure_consume settled (fun value => ?_) ?_ (.of_pure fun _ => id)
  · refine .bind (secure_operand value) fun o => .bind (secure_emitInsn _) fun _ => ?_
    exact secure_release o
  · exact .bind secure_complain fun _ => secure_drop v

theorem secure_assignName (name : String) (span : Span) (value : Expr) :
    Sustains scope pending temps (assignName scope name span value) := by
  refine .bind_look fun s => ?_
  cases s.locals.lookup? name with
  | some l => exact secure_assignLocal name l span value
  | none =>
    dsimp only
    split
    · exact secure_assignGlobal ..
    · exact .of_ite (fun _ => secure_complain) fun _ => secure_complain

theorem secure_storeElement (first : array.Settled) (second : position.Settled)
    (third : v.Settled) (valueSpan span : Span) : Secure scope (storeElement scope array position v valueSpan span)
      (·.Holds pending (v.temps ++ (position.temps ++ (array.temps ++ temps)))) fun _ => (·.Holds pending temps) := by
  have dropped : Secure scope (dropAll [array, position, v])
      (·.Holds pending (v.temps ++ (position.temps ++ (array.temps ++ temps))))
      fun _ => (·.Holds pending temps) := by
    refine .of_pre (secure_dropAll [array, position, v]) fun b holds => ?_
    simpa using holds.rotate.perm ((perm_append_comm_assoc ..).append_left _)
  refine .of_ite (fun _ => dropped) fun fine => ?_
  simp only [Bool.or_eq_true, not_or, Bool.not_eq_true] at fine
  refine .bind (secure_checkElement array.ty position span) fun _ => ?_
  refine .of_ite (fun _ => dropped) fun _ => .of_ite (fun _ => ?_) fun _ => ?_
  · exact .bind secure_complain fun _ => dropped
  · refine .bind (.of_pre (secure_operand (first.isValue fine.1.1)) fun _ => .rotate) fun a => ?_
    refine .bind (.of_pre (secure_operand (second.isValue fine.1.2)) fun _ => .rotate) fun i => ?_
    refine .bind (.of_pre (secure_operand (third.isValue fine.2)) fun _ => .rotate) fun o => ?_
    refine .bind (secure_emitInsn _) fun _ => .bind (secure_release o) fun _ => ?_
    exact .bind (secure_release i) fun _ => secure_release a

theorem secure_assignElement (array position value : Expr) (span : Span) :
    Sustains scope pending temps (assignElement scope array position value span) := by
  refine .bind (secure_lowerValue array) fun a => ?_
  refine .bind (.of_fact fun settled => secure_readBefore settled position) fun a => ?_
  refine .of_fact fun first => ?_
  refine .bind (secure_lowerValue position) fun i => ?_
  refine .bind (.of_fact fun settled => secure_readBefore settled value) fun i => ?_
  refine .of_fact fun second => ?_
  refine .bind (secure_lowerValue value) fun v => ?_
  exact .of_fact fun third => secure_storeElement first second third value.span span

theorem secure_emitAssign (target value : Expr) (span : Span) :
    Sustains scope pending temps (emitAssign scope target value span) := by
  unfold emitAssign
  split
  · exact secure_assignName ..
  · exact secure_assignElement ..
  · exact .of_pure fun _ => id

/-! ## Returns and conditions -/

theorem secure_ownsArrays : Sustains scope pending temps ownsArrays :=
  .bind_get fun _ => .of_pure fun _ holds => holds.2

theorem secure_emitReturnValue (e : Expr) (tail : Tail) :
    Sustains scope pending temps (emitReturnValue scope e tail) := by
  refine .bind (secure_lowerValue e) fun v => .of_fact fun settled => ?_
  refine .of_ite (fun failed => .of_pure fun _ holds => ?_) fun fine => .of_ite (fun _ => ?_)
    fun _ => ?_
  · rwa [temps_of_isFailed failed] at holds
  · refine .bind secure_complain fun _ => .bind (secure_drop v) fun _ => ?_
    exact .of_pure fun _ => id
  have value := settled.isValue (by simpa using fine)
  have loaded : GivesBack scope pending v.temps temps (loadInto returnReg v >>= fun _ => pure false) :=
    .bind (secure_loadInto value returnReg) fun _ => .of_pure fun _ => id
  refine .bind_look fun s => ?_
  refine .bind secure_ownsArrays fun _ => ?_
  split
  · next slot here =>
    refine .of_ite (fun _ => .bind (secure_emitInsn _) fun _ => ?_) fun _ => loaded
    refine .bind (.of_modify fun b holds => ?_) fun _ => .of_pure fun _ => id
    unfold Lowered.temps at holds
    rw [here] at holds
    exact ⟨holds.registers, holds.homes, holds.forward⟩
  · exact loaded

theorem secure_emitReturn (ahead : scope.endLabel ∈ pending) (value : Option Expr) (span : Span)
    (tail : Tail) : Sustains scope pending temps (emitReturn scope value span tail) := by
  have rest : ∀ ended : Bool, Secure scope
      (if (!ended && decide (tail = .no)) = true then do
        onCode (·.jump .always scope.endLabel)
        modify fun b => { b with endJumps := b.endJumps + 1 }
      else pure ()) (·.Holds pending temps) fun _ => (·.Holds pending temps) := by
    refine fun ended => .of_ite (fun _ => ?_) fun _ => .of_pure fun _ => id
    refine .bind (secure_onCode fun _ forward => forward.jumpTo .always ahead) fun _ => ?_
    exact .of_modify fun _ holds => ⟨holds.registers, holds.homes, holds.forward⟩
  have counted : Sustains scope pending temps (modify fun b => { b with returns := b.returns + 1 }) :=
    .of_modify fun _ holds => ⟨holds.registers, holds.homes, holds.forward⟩
  refine .bind counted fun _ => ?_
  cases value with
  | none =>
    refine .of_ite (fun _ => .bind secure_complain fun _ => ?_) fun _ => ?_
    · exact .bind (.of_pure fun _ => id) fun ended => rest ended
    · exact .bind (.of_pure fun _ => id) fun ended => rest ended
  | some e =>
    refine .of_ite (fun _ => .bind secure_complain fun _ => ?_) fun _ => ?_
    · exact .bind (.of_pure fun _ => id) fun ended => rest ended
    · exact .bind (secure_emitReturnValue e tail) fun ended => rest ended

theorem secure_emitCondition (cond : Expr) {elseLabel : Label} (ahead : elseLabel ∈ pending) :
    Sustains scope pending temps (emitCondition scope cond elseLabel) := by
  refine .bind (secure_lowerExpr cond) fun v => .of_fact fun flagged => ?_
  obtain ⟨place, ty, lastOp⟩ := v
  have tested : Lowered.IsValue ⟨place, ty, lastOp⟩ → Secure scope
      (if (!ty.isScalar || ty.isFloat) = true then do
        complain scope .invalidOperand s!"a condition of type {ty.text} cannot be tested" cond.span
        drop ⟨place, ty, lastOp⟩
      else do
        let o ← operand scope ⟨place, ty, lastOp⟩
        emitInsn (.testz o.reg)
        release o
        onCode (·.jump .eq elseLabel))
      (·.Holds pending (Lowered.temps ⟨place, ty, lastOp⟩ ++ temps)) fun _ => (·.Holds pending temps) := by
    intro value
    refine .of_ite (fun _ => .bind secure_complain fun _ => secure_drop _) fun _ => ?_
    refine .bind (secure_operand value) fun o => .bind (secure_emitInsn _) fun _ => ?_
    refine .bind (secure_release o) fun _ => ?_
    exact secure_onCode fun _ forward => forward.jumpTo .eq ahead
  cases place with
  | flags =>
    cases lastOp with
    | some op => exact secure_onCode fun _ forward => forward.jumpTo _ ahead
    | none => cases flagged rfl
  | failed => exact .of_pure fun _ => id
  | nothing => exact secure_complain
  | temporary _ | slot _ | home _ | global _ | constant _ => exact tested ⟨nofun, nofun, nofun⟩

/-! ## Statements -/

theorem secure_atLimit : Sustains scope pending temps atLimit :=
  .bind_get fun _ => .of_pure fun _ holds => holds.2

mutual

/-- A statement holds no register in the end, and binds the labels it makes. -/
theorem secure_emitStmt {pending : List Label} (ahead : scope.endLabel ∈ pending) (tail : Tail) :
    (stmt : Stmt) → Sustains scope pending temps (emitStmt scope tail stmt)
  | .var var => secure_emitVar var
  | .assign target value span => secure_emitAssign target value span
  | .ret value span => secure_emitReturn ahead value span tail
  | .branch chain => secure_emitConditional ahead tail chain
  | .expr e _ => .bind (secure_lowerExpr e) fun v => .of_pre (secure_drop v) fun _ => And.right
  | .block (.mk stmts _) => secure_emitStmts ahead tail.inside stmts

theorem secure_emitStmts {pending : List Label} (ahead : scope.endLabel ∈ pending) (tail : Tail) :
    (stmts : List Stmt) → Sustains scope pending temps (emitStmts scope tail stmts)
  | [] => .of_pure fun _ => id
  | stmt :: stmts => by
    refine .bind secure_atLimit fun _ => .of_ite (fun _ => .of_pure fun _ => id) fun _ => ?_
    exact .bind (secure_emitStmt ahead _ stmt) fun _ => secure_emitStmts ahead tail stmts

theorem secure_emitConditional {pending : List Label} (ahead : scope.endLabel ∈ pending)
    (tail : Tail) : (chain : Conditional) → Sustains scope pending temps (emitConditional scope tail chain)
  | .mk cond (.mk stmts _) otherwise _ => by
    refine .bind secure_newLabel fun elseLabel => ?_
    have ahead1 := mem_cons_of_mem elseLabel ahead
    refine .bind (secure_emitCondition cond (mem_cons_self ..)) fun _ => ?_
    refine .of_ite (fun _ => ?_) fun _ => ?_
    · refine .bind (secure_emitStmts ahead1 tail.inside stmts) fun _ => ?_
      exact secure_onCode fun _ forward => forward.bind
    · refine .bind secure_newLabel fun endLabel => ?_
      have ends : Secure scope
          (do
            onCode (·.bind elseLabel)
            emitOtherwise scope tail.inside otherwise
            onCode (·.bind endLabel))
          (·.Holds (endLabel :: elseLabel :: pending) temps) fun _ => (·.Holds pending temps) := by
        refine .bind (secure_onCode fun _ forward => (forward.perm (.swap ..)).bind) fun _ => ?_
        refine .bind (secure_emitOtherwise (mem_cons_of_mem endLabel ahead) tail.inside
          otherwise) fun _ => ?_
        exact secure_onCode fun _ forward => forward.bind
      refine .bind (secure_emitStmts (mem_cons_of_mem endLabel ahead1) .no stmts) fun _ => ?_
      refine .of_ite (fun _ => .bind (secure_onCode fun _ forward => ?_) fun _ => ends) fun _ => ends
      exact forward.jumpTo .always (mem_cons_self ..)

theorem secure_emitOtherwise {pending : List Label} (ahead : scope.endLabel ∈ pending)
    (tail : Tail) : (otherwise : Otherwise) → Sustains scope pending temps (emitOtherwise scope tail otherwise)
  | .absent => .of_pure fun _ => id
  | .elif chain => secure_emitConditional ahead tail chain
  | .orElse (.mk stmts _) => secure_emitStmts ahead tail stmts

end

end RegisterLang.Emission
