import RegisterLang.Emission.Program
import RegisterLang.Proofs.Growth
import RegisterLang.Proofs.Pool
import RegisterLang.Proofs.Tables

/-! # What a body under construction keeps

Whether mistakes are reported or not, the registers in use are the homes of parameters and locals and the
temporaries that some value owns, and every jump goes to a label that is still to be bound or lies ahead.
A piece of emission that starts from such a body can fail in one way only: the registers run out.
-/

namespace RegisterLang

open List

variable {pending' : List Label}

namespace RegisterPool

variable {p : RegisterPool}

theorem not_mem_allocated {q : UInt8} (free : p.isAllocated q = false) : q ∉ p.allocated := by
  rw [mem_allocated, free]
  exact Bool.false_ne_true

/-- Two lists without repetition are the registers of a pool when they have the same members. -/
theorem allocated_perm {regs : List UInt8} (distinct : regs.Nodup) (same : ∀ q, p.isAllocated q = true ↔ q ∈ regs) :
    p.allocated.Perm regs :=
  (perm_ext_iff_of_nodup p.nodup_allocated distinct).2 fun q => mem_allocated.trans (same q)

variable {r : UInt8}

theorem perm_mark (small : r.toNat < registerCount) (spare : p.isAllocated r = false) :
    (p.mark r true).allocated.Perm (r :: p.allocated) := by
  refine allocated_perm (nodup_cons.2 ⟨not_mem_allocated spare, p.nodup_allocated⟩) fun q => ?_
  rw [isAllocated_mark p small, mem_cons, mem_allocated]
  by_cases same : q = r
  · simp [same]
  · simp [same]

theorem perm_of_allocate? {p' : RegisterPool} (taken : p.allocate? = some (r, p')) :
    p'.allocated.Perm (r :: p.allocated) := by
  rw [allocate?, Option.map_eq_some_iff] at taken
  obtain ⟨reg, found, same⟩ := taken
  cases same
  have spare := find?_some found
  exact perm_mark (mem_candidates (mem_of_find?_eq_some found)).1 (by simpa using spare)

theorem perm_free {rest : List UInt8} (held : p.allocated.Perm (r :: rest)) :
    (p.free r).allocated.Perm rest := by
  have distinct := held.nodup_iff.1 p.nodup_allocated
  have used : p.isAllocated r = true := mem_allocated.1 (held.mem_iff.2 (mem_cons_self ..))
  refine allocated_perm (nodup_cons.1 distinct).2 fun q => ?_
  rw [isAllocated_free p (lt_of_isAllocated used)]
  by_cases same : q = r
  · subst same
    simpa using (nodup_cons.1 distinct).1
  · rw [if_neg same, ← mem_allocated, held.mem_iff]
    simp [same]

theorem reserve?_eq_some (candidate : r ∈ candidates) (spare : p.isAllocated r = false) :
    p.reserve? r = some (p.mark r true) := by
  rw [reserve?, if_pos (by simp [candidate, spare])]

theorem allocated_empty : RegisterPool.empty.allocated = [] := by decide

end RegisterPool

namespace CodeBuffer

/-- Every jump goes to a label that is pending, or to a place behind it. -/
structure Forward (c : CodeBuffer) (pending : List Label) : Prop where
  jump : ∀ (k : Nat) (cond : Condition) (label : Label), c.ops[k]? = some (.jump cond label) →
    label ∈ pending ∨ ∃ target, c.target? label = some target ∧ k < target
  made : ∀ label ∈ pending, label.index < c.labels.size

namespace Forward

variable {c : CodeBuffer} {pending : List Label} {label : Label}

section
variable (forward : c.Forward pending)
include forward

theorem perm (same : pending.Perm pending') :
    c.Forward pending' where
  jump k cond label found := (forward.jump k cond label found).imp_left same.mem_iff.1
  made label member := forward.made label (same.mem_iff.2 member)

theorem emit (i : Instruction) : (c.emit i).Forward pending where
  jump k cond label found := by
    rw [CodeBuffer.emit, Array.getElem?_push] at found
    split at found
    · cases found
    · exact forward.jump k cond label found
  made := forward.made

theorem jumpTo (cond : Condition) (member : label ∈ pending) : (c.jump cond label).Forward pending where
  jump k cond' label' found := by
    rw [CodeBuffer.jump, Array.getElem?_push] at found
    split at found
    · cases found
      exact .inl member
    · exact forward.jump k cond' label' found
  made := forward.made

theorem newLabel : c.newLabel.2.Forward (c.newLabel.1 :: pending) where
  jump k cond label found := by
    obtain waits | ⟨target, bound, ahead⟩ := forward.jump k cond label found
    · exact .inl (mem_cons_of_mem _ waits)
    · exact .inr ⟨target, (target?_push_none c label).trans bound, ahead⟩
  made label member := by
    simp only [CodeBuffer.newLabel, Array.size_push]
    obtain rfl | earlier := mem_cons.1 member
    · exact Nat.lt_succ_self _
    · exact Nat.lt_succ_of_lt (forward.made label earlier)

end

/-- Binding a label sends the jumps to it behind the code, so behind themselves. -/
theorem bind (forward : c.Forward (label :: pending)) : (c.bind label).Forward pending where
  jump k cond other found := by
    have here : k < c.ops.size := (Array.getElem?_eq_some_iff.1 found).1
    by_cases same : other = label
    · subst same
      exact .inr ⟨_, target?_bind_self (forward.made other (mem_cons_self ..)), here⟩
    · have apart : label.index ≠ other.index := fun equal => same (congrArg Label.mk equal.symm)
      rw [target?_bind_of_ne apart]
      refine (forward.jump k cond other found).imp_left fun member => ?_
      exact (mem_cons.1 member).resolve_left same
  made other member := by
    rw [CodeBuffer.bind, Array.size_setIfInBounds]
    exact forward.made other (mem_cons_of_mem _ member)

theorem loadConst (forward : c.Forward pending) (dst : UInt8) (bits : UInt64) (ty : Ty) :
    (c.loadConst dst bits ty).Forward pending := by
  unfold CodeBuffer.loadConst
  split
  · exact forward.emit _
  split
  · exact forward.emit _
  · exact forward.emit _

theorem mov (forward : c.Forward pending) (dst src : UInt8) : (c.mov dst src).Forward pending := by
  unfold CodeBuffer.mov
  split
  · exact forward.emit _
  · exact forward

theorem arithImm? (forward : c.Forward pending) {op : ArithOp} {dst src : UInt8} {imm : UInt64}
    {c' : CodeBuffer} (made : c.arithImm? op dst src imm = some c') : c'.Forward pending := by
  unfold CodeBuffer.arithImm? at made
  split at made
  · cases made
  split at made
  · cases made
    exact (forward.mov dst src).emit _
  split at made
  · cases made
    exact (forward.mov dst src).emit _
  split at made
  · cases made
    exact forward.emit _
  split at made
  · cases made
    exact forward.emit _
  · cases made

end Forward

end CodeBuffer

namespace Emission

variable {scope : Scope} {α β : Type}

/-- Started in a body as required, a piece of emission ends as promised, or the registers of the function
run out. -/
structure Secure (scope : Scope) (x : EmitM α) (pre : Body → Prop) (post : α → Body → Prop) : Prop where
  ends : ∀ b, pre b → ∀ a b', x.run b = .ok (a, b') → post a b'
  fails : ∀ b, pre b → ∀ e, x.run b = .error e → e = .registersExhausted scope.name

namespace Secure

variable {x y : EmitM α} {pre pre' : Body → Prop} {post post' : α → Body → Prop}

theorem of_pre (secure : Secure scope x pre post) (stronger : ∀ b, pre' b → pre b) : Secure scope x pre' post :=
  ⟨fun b holds => secure.ends b (stronger b holds), fun b holds => secure.fails b (stronger b holds)⟩

theorem of_post (secure : Secure scope x pre post) (weaker : ∀ a b, post a b → post' a b) :
    Secure scope x pre post' :=
  ⟨fun b holds a b' ran => weaker a b' (secure.ends b holds a b' ran), secure.fails⟩

theorem of_fact {fact : Prop} (secure : fact → Secure scope x pre post) :
    Secure scope x (fun b => fact ∧ pre b) post :=
  ⟨fun b holds => (secure holds.1).ends b holds.2, fun b holds => (secure holds.1).fails b holds.2⟩

theorem of_pure {a : α} (holds : ∀ b, pre b → post a b) : Secure scope (pure a) pre post where
  ends b start a' b' ran := by
    cases ran
    exact holds b start
  fails b start e ran := by cases ran

theorem bind {f : α → EmitM β} {post : β → Body → Prop} {mid : α → Body → Prop}
    (first : Secure scope x pre mid) (second : ∀ a, Secure scope (f a) (mid a) post) :
    Secure scope (x >>= f) pre post where
  ends b start c b'' ran := by
    rw [StateT.run_bind, bind_eq_ok] at ran
    obtain ⟨⟨a, b'⟩, ran, ran'⟩ := ran
    exact (second a).ends b' (first.ends b start a b' ran) c b'' ran'
  fails b start e ran := by
    rw [StateT.run_bind, bind_eq_error] at ran
    obtain stopped | ⟨⟨a, b'⟩, ran, ran'⟩ := ran
    · exact first.fails b start e stopped
    · exact (second a).fails b' (first.ends b start a b' ran) e ran'

variable {f : Body → EmitM α}

theorem bind_get (second : ∀ s, Secure scope (f s) (fun b => s = b ∧ pre b) post) :
    Secure scope (get >>= f) pre post :=
  ⟨fun b start => (second b).ends b ⟨rfl, start⟩, fun b start => (second b).fails b ⟨rfl, start⟩⟩

theorem bind_look (second : ∀ s, Secure scope (f s) pre post) : Secure scope (get >>= f) pre post :=
  .bind_get fun s => .of_pre (second s) fun _ holds => holds.2

theorem of_read {s : Body} (secure : pre s → Secure scope x (s = ·) post) :
    Secure scope x (fun b => s = b ∧ pre b) post where
  ends b start := by
    obtain ⟨rfl, holds⟩ := start
    exact (secure holds).ends s rfl
  fails b start := by
    obtain ⟨rfl, holds⟩ := start
    exact (secure holds).fails s rfl

theorem of_modify {f : Body → Body} {post : PUnit → Body → Prop}
    (holds : ∀ b, pre b → post ⟨⟩ (f b)) : Secure scope (modify f) pre post where
  ends b start a b' ran := by
    cases ran
    exact holds b start
  fails b start e ran := by cases ran

theorem of_ite {c : Prop} [Decidable c] (yes : c → Secure scope x pre post)
    (no : ¬ c → Secure scope y pre post) : Secure scope (if c then x else y) pre post := by
  split
  · next holds => exact yes holds
  · next fails => exact no fails

theorem forM {list : List β} {f : β → EmitM PUnit} {inv : Body → Prop}
    (each : ∀ x ∈ list, Secure scope (f x) inv fun _ => inv) : Secure scope (list.forM f) inv fun _ => inv := by
  induction list with
  | nil => exact .of_pure fun _ => id
  | cons x rest ih =>
    refine .bind (each x (mem_cons_self ..)) fun _ => ?_
    exact ih fun y member => each y (mem_cons_of_mem _ member)

end Secure

/-! ## The invariant -/

/-- The register that a storage takes, if any. -/
def Storage.regs : Storage → List UInt8
  | .register reg => [reg]
  | .stack _ => []

theorem homeRegs_eq (locals : SymbolTable Local) :
    homeRegs locals = (locals.toList.map fun entry => entry.2.storage).flatMap Storage.regs := by
  rw [homeRegs]
  induction locals.toList with
  | nil => rfl
  | cons entry rest ih =>
    obtain ⟨name, ty, storage, initialized, isParam⟩ := entry
    rw [map_cons, flatMap_cons, ← ih]
    cases storage with
    | register _ | stack _ => rfl

theorem homeRegs_add (locals : SymbolTable Local) (name : String) (l : Local) :
    homeRegs (locals.add name l) = homeRegs locals ++ l.storage.regs := by
  simp [homeRegs_eq, SymbolTable.toList_add]

theorem homeRegs_modify (locals : SymbolTable Local) (index : Nat) {f : Local → Local}
    (stays : ∀ l, (f l).storage = l.storage) : homeRegs (locals.modify index f) = homeRegs locals := by
  rw [homeRegs_eq, homeRegs_eq]
  congr 1
  apply ext_getElem?
  intro k
  simp only [SymbolTable.toList, SymbolTable.modify, getElem?_map, Array.getElem?_toList, Array.getElem?_modify]
  split
  · cases locals.entries[k]? with
    | none => rfl
    | some entry => simp [stays]
  · rfl

/-- The registers that a value owns. -/
def Lowered.temps (v : Lowered) : List UInt8 :=
  match v.place with
  | .temporary reg => [reg]
  | _ => []

/-- The registers that an operand owns. -/
def Operand.temps : Operand → List UInt8
  | .owned reg => [reg]
  | .borrowed _ => []

/-- A body in which `pending` labels are still to be bound and `temps` are the registers in use that are
not the home of a parameter or local. -/
structure Body.Holds (b : Body) (pending : List Label) (temps : List UInt8) : Prop where
  registers : b.pool.allocated.Perm (homeRegs b.locals ++ temps)
  homes : b.homes.Perm (homeRegs b.locals)
  forward : b.code.Forward pending

namespace Body.Holds

variable {b : Body} {pending : List Label} {temps : List UInt8}

theorem perm {temps' : List UInt8} (holds : b.Holds pending temps) (same : temps.Perm temps') :
    b.Holds pending temps' :=
  ⟨holds.registers.trans (same.append_left _), holds.homes, holds.forward⟩

variable {second first : List UInt8}

theorem swap (holds : b.Holds pending (first ++ (second ++ temps))) :
    b.Holds pending (second ++ (first ++ temps)) :=
  holds.perm (perm_append_comm_assoc ..)

theorem rotate {third : List UInt8} (holds : b.Holds pending (first ++ (second ++ (third ++ temps)))) :
    b.Holds pending (third ++ (first ++ (second ++ temps))) := by
  rw [← append_assoc first] at holds ⊢
  exact holds.swap

theorem swap_cons {reg : UInt8} {held : List UInt8} (holds : b.Holds pending (reg :: (held ++ temps))) :
    b.Holds pending (held ++ reg :: temps) :=
  holds.perm perm_middle.symm

theorem isAllocated_iff (holds : b.Holds pending []) (reg : UInt8) :
    b.pool.isAllocated reg = true ↔ reg ∈ homeRegs b.locals := by
  rw [← RegisterPool.mem_allocated, holds.registers.mem_iff, append_nil]

theorem inUse_eq (holds : b.Holds pending []) : b.pool.inUse = b.homes.length := by
  have same := holds.registers.length_eq
  rw [append_nil] at same
  exact same.trans holds.homes.length_eq.symm

theorem withCode {code : CodeBuffer} (holds : b.Holds pending temps) (forward : code.Forward pending') :
    ({ b with code } : Body).Holds pending' temps :=
  ⟨holds.registers, holds.homes, forward⟩

end Body.Holds

/-! ## Registers and instructions -/

/-- A piece of emission that leaves the pending labels and the temporaries as they are. -/
abbrev Sustains (scope : Scope) (pending : List Label) (temps : List UInt8) (x : EmitM α) : Prop :=
  Secure scope x (·.Holds pending temps) fun _ => (·.Holds pending temps)

/-- A piece of emission that gives back the registers in `held`. -/
abbrev GivesBack (scope : Scope) (pending : List Label) (held temps : List UInt8) (x : EmitM α) : Prop :=
  Secure scope x (·.Holds pending (held ++ temps)) fun _ => (·.Holds pending temps)

section

variable {pending : List Label} {temps : List UInt8}

theorem secure_complain {code : Code} {message : String} {span : Span} :
    Sustains scope pending temps (complain scope code message span) :=
  .of_modify fun _ holds => ⟨holds.registers, holds.homes, holds.forward⟩

theorem secure_onCode {f : CodeBuffer → CodeBuffer}
    (keeps : ∀ c : CodeBuffer, c.Forward pending → (f c).Forward pending') :
    Secure scope (onCode f) (·.Holds pending temps) fun _ => (·.Holds pending' temps) :=
  .of_modify fun b holds => holds.withCode (keeps b.code holds.forward)

theorem secure_emitInsn (i : Instruction) : Sustains scope pending temps (emitInsn i) :=
  secure_onCode fun _ forward => forward.emit i

theorem secure_newLabel :
    Secure scope newLabel (·.Holds pending temps) fun label => (·.Holds (label :: pending) temps) := by
  refine .bind_get fun s => ?_
  refine .bind (.of_modify fun b holds => ?_) fun _ => .of_pure fun _ => id
  obtain ⟨rfl, holds⟩ := holds
  exact holds.withCode holds.forward.newLabel

theorem secure_allocate : Secure scope (allocate scope) (·.Holds pending temps)
      fun reg => (·.Holds pending (reg :: temps)) := by
  refine .bind_get fun s => ?_
  cases taken : s.pool.allocate? with
  | none =>
    refine ⟨fun _ _ _ _ ran => (by cases ran), fun _ _ e ran => ?_⟩
    cases ran
    rfl
  | some result =>
    obtain ⟨reg, pool⟩ := result
    refine .bind (.of_modify fun b holds => ?_) fun _ => .of_pure fun _ => id
    obtain ⟨rfl, holds⟩ := holds
    refine ⟨?_, holds.homes, holds.forward⟩
    refine (RegisterPool.perm_of_allocate? taken).trans ((holds.registers.cons reg).trans ?_)
    exact perm_middle.symm

theorem secure_free {reg : UInt8} :
    Secure scope (free reg) (·.Holds pending (reg :: temps)) fun _ => (·.Holds pending temps) := by
  refine .of_modify fun b holds => ⟨?_, holds.homes, holds.forward⟩
  exact RegisterPool.perm_free (holds.registers.trans perm_middle)

theorem secure_release (o : Operand) : GivesBack scope pending o.temps temps (release o) := by
  cases o with
  | owned reg => exact secure_free
  | borrowed reg => exact .of_pure fun _ => id

theorem secure_drop (v : Lowered) : GivesBack scope pending v.temps temps (drop v) := by
  unfold drop Lowered.temps
  cases v.place with
  | temporary reg => exact secure_free
  | failed | nothing | slot _ | home _ | global _ | constant _ | flags => exact .of_pure fun _ => id

theorem secure_dropAll (vs : List Lowered) :
    GivesBack scope pending (vs.flatMap Lowered.temps) temps (dropAll vs) := by
  induction vs with
  | nil => exact .of_pure fun _ => id
  | cons v vs ih =>
    rw [dropAll, forM_eq_forM, flatMap_cons, GivesBack, append_assoc]
    exact .bind (secure_drop v) fun _ => ih

/-- The value of an expression that has one. -/
def Lowered.IsValue (v : Lowered) : Prop :=
  v.place ≠ .failed ∧ v.place ≠ .nothing ∧ v.place ≠ .flags

theorem secure_operand {v : Lowered} (value : v.IsValue) :
    Secure scope (operand scope v) (·.Holds pending (v.temps ++ temps))
      fun o => (·.Holds pending (o.temps ++ temps)) := by
  obtain ⟨place, ty, lastOp⟩ := v
  cases place with
  | temporary _ | home _ => exact .of_pure fun _ => id
  | slot _ | global _ =>
    refine .bind secure_allocate fun reg => ?_
    exact .bind (secure_emitInsn _) fun _ => .of_pure fun _ => id
  | constant bits =>
    refine .bind secure_allocate fun reg => ?_
    refine .bind (secure_onCode fun _ forward => forward.loadConst reg bits ty) fun _ => ?_
    exact .of_pure fun _ => id
  | failed => exact absurd rfl value.1
  | nothing => exact absurd rfl value.2.1
  | flags => exact absurd rfl value.2.2

theorem secure_loadInto {v : Lowered} (value : v.IsValue) (target : UInt8) :
    GivesBack scope pending v.temps temps (loadInto target v) := by
  obtain ⟨place, ty, lastOp⟩ := v
  cases place with
  | temporary reg =>
    exact .bind (secure_onCode fun _ forward => forward.mov target reg) fun _ => secure_free
  | home reg => exact secure_onCode fun _ forward => forward.mov target reg
  | slot _ | global _ => exact secure_emitInsn _
  | constant bits => exact secure_onCode fun _ forward => forward.loadConst target bits ty
  | failed => exact absurd rfl value.1
  | nothing => exact absurd rfl value.2.1
  | flags => exact absurd rfl value.2.2

theorem secure_resultReg (o : Operand) : Secure scope (resultReg scope o) (·.Holds pending (o.temps ++ temps))
      fun reg => (·.Holds pending (reg :: temps)) := by
  cases o with
  | owned reg => exact .of_pure fun _ => id
  | borrowed reg => exact secure_allocate

end

end Emission

end RegisterLang
