import RegisterLang.Emission.Program
import RegisterLang.Proofs.Ownership
import RegisterLang.Proofs.Statements

/-! # Functions

The code of a function takes its arguments from registers and the stack, does what its statements do, frees
the arrays of the function and returns. Main statement: `Setting.ends_body`, it ends as the evaluation of
the function does and leaves what lies below its frame alone.
-/

namespace RegisterLang

open Machine Evaluation SymbolTable List

namespace Emission

open Instruction CodeBuffer

variable {σ ω : Type} (scope : Scope) {c : Core σ} {last final first : Body} {args : List Value}

/-! ## Freeing arrays -/

theorem fullTy_isOwnedArray (var : VarDecl) : var.fullTy.isOwnedArray = var.ty.isOwnedArray := by
  rw [VarDecl.fullTy]
  split <;> rfl

variable {r : UInt8}

/-- An instruction that destroys an array does what evaluation does, and changes arrays only. -/
theorem sim_arrayDestroy {k : Link σ ω} {code : CodeBuffer} {arrays : ArrayHeap}
    (within : (code.emit (.arrayDestroy r)).Within k.code.buffer)
    (destroyed : c.arrays.destroy (c.reg r).handle = (.ok (), arrays)) :
    k.Sim code.ops.size c (Evaluation.destroyArray (c.reg r)) fun _ n c' =>
      n = (code.emit (.arrayDestroy r)).ops.size ∧ c' = { c with arrays } := by
  have given : k.Gives c (Evaluation.destroyArray (c.reg r)) (.ok ()) { c with arrays } :=
    .onArrays destroyed
  exact .of_goes given (goes_emit (Activation.does_arrayDestroy r destroyed) within) ⟨rfl, rfl⟩

/-- The frees of an epilogue: what they need stays on the stack, and the result where it is. -/
structure Frees (c c' : Core σ) : Prop where
  stack : c'.stack = c.stack
  globals : c'.globals = c.globals
  result : c'.reg returnReg = c.reg returnReg

theorem Frees.trans {c' c'' : Core σ} (first : Frees c c') (second : Frees c' c'') : Frees c c'' :=
  ⟨second.stack.trans first.stack, second.globals.trans first.globals, second.result.trans first.result⟩

/-- Code that destroys arrays that are in slots, when all of them can be destroyed. -/
structure Destroys (arrays : List (String × Local)) (b b' : Body) : Prop where
  steady : Steady b b'
  sim : ∀ {σ ω : Type} (k : Link σ ω) (c : Core σ) (value : String → Value) (heap : ArrayHeap),
    b'.code.Within k.code.buffer →
    (∀ x l slot, (x, l) ∈ arrays → l.storage = .stack slot →
      c.stack[k.code.frame.base + slot.toNat]? = some (value x)) →
    c.arrays.destroyAll? (arrays.map fun (x, _) => (value x).handle) = some heap →
    k.Sim b.pos c (destroyAll (arrays.map fun (x, _) => value x)) fun _ n c' =>
      n = b'.pos ∧ Frees c c'

variable {b : Body}

namespace Destroys

theorem nil (b : Body) : Destroys [] b b :=
  ⟨.refl b, fun _ _ _ _ _ _ _ => .pure ⟨rfl, rfl, rfl, rfl⟩⟩

theorem cons {b' : Body} {x : String} {l : Local} {slot : UInt16} {arrays : List (String × Local)}
    {pool pool' : RegisterPool} (place : l.storage = .stack slot)
    (taken : b.pool.allocate? = some (r, pool)) (rest : Destroys arrays { b with
      code := (b.code.emit (.localGet r slot)).emit (.arrayDestroy r), pool := pool' } b') :
    Destroys ((x, l) :: arrays) b b' := by
  obtain ⟨member, -, -⟩ := RegisterPool.allocate?_eq_some taken
  obtain ⟨small, apart⟩ := RegisterPool.mem_candidates member
  have get_fits : (Instruction.localGet r slot).Encodable := .one small rfl
  have fits : (Instruction.arrayDestroy r).Encodable := .one small rfl
  refine ⟨((Steady.setCode ((Grows.emit _ get_fits).trans (.emit _ fits))).trans
    (.setPool _ pool')).trans rest.steady, ?_⟩
  intro σ ω k c value heap within stored freed
  obtain ⟨arrays', first, freed⟩ := ArrayHeap.destroyAll?_cons.1 freed
  have within2 := rest.steady.code.within.trans within
  have within1 := (Grows.emit _ fits).within.trans within2
  have does : k.code.Does (.localGet r slot) c (c.setReg r (value x)) :=
    Activation.does_localGet r slot (stored x l slot mem_cons_self place)
  have holds := c.reg_setReg_self r (value x)
  have destroyed : k.Sim _ (c.setReg r (value x)) (Evaluation.destroyArray (value x)) _ :=
    holds ▸ sim_arrayDestroy within2 (by rw [holds]; exact first)
  refine .goes (goes_emit does within1) rfl (destroyed.bind ?_)
  rintro _ n _ ⟨rfl, rfl⟩
  have frees : Frees c { c.setReg r (value x) with arrays := arrays' } :=
    ⟨rfl, rfl, c.reg_setReg_of_ne (value x) small (by decide) apart.symm⟩
  refine (rest.sim k { c.setReg r (value x) with arrays := arrays' } value heap within
    (fun y l' slot' member => stored y l' slot' (mem_cons_of_mem _ member)) freed).mono ?_
  rintro _ n c' ⟨rfl, frees'⟩
  exact ⟨rfl, frees.trans frees'⟩

end Destroys

theorem emits_destroyArrays (arrays : List (String × Local)) :
    Emits (arrays.forM fun (_, l) => destroyArray scope l.storage) fun b _ b' =>
      (∀ x l, (x, l) ∈ arrays → ∃ slot, l.storage = .stack slot) → Destroys arrays b b' := by
  induction arrays with
  | nil =>
    refine .mono (.of_pure ()) ?_
    rintro b _ b' ⟨-, rfl⟩ -
    exact .nil b'
  | cons entry arrays ih =>
    obtain ⟨x, ty, storage, initialized, isParam⟩ := entry
    cases storage with
    | register r =>
      refine .mono (.bind (emits_emitInsn _) fun _ => ih) ?_
      rintro b _ b' - slots
      obtain ⟨slot, ⟨⟩⟩ := slots x _ mem_cons_self
    | stack slot =>
      refine .mono (.bind (.bind (emits_allocate scope) fun r => .bind (emits_emitInsn _) fun _ =>
        .bind (emits_emitInsn _) fun _ => emits_free r) fun _ => ih) ?_
      rintro b _ b' ⟨_, _, ⟨r, _, ⟨pool, taken, rfl⟩, _, _, rfl, _, _, rfl, rfl⟩, rest⟩ slots
      exact .cons rfl taken (rest fun y l' member => slots y l' (mem_cons_of_mem _ member))

/-! ## Whole bodies -/

theorem emits_reserveHomes (regs : List UInt8) : Emits (reserveHomes regs) fun b _ b' =>
      ∃ pool homes, b' = { b with pool, homes } ∧ b.pool ≤ pool ∧
        ∀ r ∈ regs, pool.isAllocated r = true := by
  induction regs with
  | nil =>
    refine .mono (.of_pure ()) ?_
    rintro b _ b' ⟨-, rfl⟩
    exact ⟨b'.pool, b'.homes, rfl, le_refl _, by simp⟩
  | cons reg regs ih =>
    refine .mono (.bind .of_get fun b0 => (?_ : Emits _ fun b _ b' => ∃ pool pool' homes,
      b0.pool.reserve? reg = some pool ∧ b' = { b with pool := pool', homes } ∧ pool ≤ pool' ∧
        ∀ r ∈ regs, pool'.isAllocated r = true)) ?_
    · split
      · next pool found =>
        refine .mono (.bind (.of_modify fun _ => rfl) fun _ => ih) ?_
        rintro b _ b' ⟨_, _, rfl, pool', homes, rfl, le, all⟩
        exact ⟨pool, pool', homes, found, rfl, le, all⟩
      · exact .bind_never (.of_throw _) fun _ => ih
    · rintro _ _ b' ⟨_, b, ⟨rfl, rfl⟩, pool, pool', homes, reserved, rfl, le, all⟩
      rw [RegisterPool.reserve?] at reserved
      split at reserved
      · next free =>
        simp only [Bool.and_eq_true, contains_iff_mem] at free
        cases reserved
        have used := RegisterPool.isAllocated_mark b.pool (RegisterPool.mem_candidates free.1).1 true
        refine ⟨pool', homes, rfl, fun q here => le q ?_, ?_⟩
        · rw [used, here, ite_self]
        · intro r member
          obtain rfl | member := mem_cons.1 member
          · exact le r (by rw [used, if_pos rfl])
          · exact all r member
      · cases reserved

theorem emits_checkReturns (name : Ident) (block : Block) : Emits (checkReturns scope name block) fun b _ b' =>
      b' = b ∧ (scope.ret.isVoid = false → blockReturns block = true) := by
  refine .mono (.ite (.bind .of_get fun b0 => .ite (emits_complain scope _ _ name.span)
    (.ite (emits_complain scope _ _ name.span) (.of_pure ()))) (.of_pure ())) ?_
  rintro b _ b' (⟨-, _, _, ⟨rfl, rfl⟩, ⟨-, impossible⟩ | ⟨-, ⟨-, impossible⟩ | ⟨returns, -, rfl⟩⟩⟩ |
    ⟨void, -, rfl⟩)
  · exact impossible.elim
  · exact impossible.elim
  · exact ⟨rfl, fun _ => by simpa using returns⟩
  · exact ⟨rfl, fun valued => by simp [valued] at void⟩

/-- The arrays that the end of a function has to free. -/
def Body.ownedArrays (b : Body) : List (String × Local) :=
  b.locals.toList.filter fun (_, l) => l.isOwnedArray

/-- How the code of a function ends, after its statements. -/
inductive Closed (scope : Scope) (last : Body) : Body → Prop where
  | returned (finished : last.isFinished = true) :
      Closed scope last { last with code := last.code.bind scope.endLabel }
  | epilogue {b : Body} (unfinished : last.isFinished = false)
      (destroys : Destroys last.ownedArrays { last with code := last.code.bind scope.endLabel } b) :
      Closed scope last { b with code := b.code.emit (if scope.ret.isVoid then .retVoid else .ret) }

theorem emits_close : Emits (do
      onCode (·.bind scope.endLabel)
      if !(← get).isFinished then emitEpilogue scope)
      fun b _ b' => (∀ x l, (x, l) ∈ b.ownedArrays → ∃ slot, l.storage = .stack slot) → Closed scope b b' := by
  have epilogue : Emits (emitEpilogue scope) fun b _ b' =>
      (∀ x l, (x, l) ∈ b.ownedArrays → ∃ slot, l.storage = .stack slot) →
      ∃ b1, Destroys b.ownedArrays b b1 ∧
        b' = { b1 with code := b1.code.emit (if scope.ret.isVoid then .retVoid else .ret) } := by
    refine .mono (.bind .of_get fun b0 => .bind (emits_destroyArrays scope _) fun _ =>
      emits_emitInsn _) ?_
    rintro b _ b' ⟨_, _, ⟨rfl, rfl⟩, _, b1, destroys, rfl⟩ slots
    exact ⟨b1, destroys slots, rfl⟩
  refine .mono (.bind (emits_onCode _) fun _ => .bind .of_get fun b0 => .ite epilogue (.of_pure ())) ?_
  rintro b _ b' ⟨_, _, rfl, _, _, ⟨rfl, rfl⟩, ⟨unfinished, ended⟩ | ⟨finished, -, rfl⟩⟩ slots
  · obtain ⟨b1, destroys, rfl⟩ := ended slots
    exact .epilogue (by simpa using unfinished) destroys
  · exact .returned (by simpa using finished)

/-- A body before any code was emitted: its locals are parameters, with places of their own once the home
registers are taken. -/
structure Fresh (b : Body) : Prop where
  errors : b.errors = 0
  unfinished : b.isFinished = false
  isParam : ∀ x l, b.locals.lookup? x = some l → l.isParam = true
  distinct : b.locals.names.Nodup
  tidy : ∀ pool homes, (∀ r ∈ homeRegs b.locals, pool.isAllocated r = true) → Tidy scope { b with pool, homes }

/-- The code of a function: its statements and what follows them. -/
structure Whole (block : Block) (first last final : Body) : Prop extends
    Declares scope block.vars first last where
  scalars : ∀ name ∈ block.targets, Scalar scope last name
  ran : (emitStmts scope .body block.stmts).run first = .ok ((), last)
  errors : first.errors = 0
  clean : last.errors = first.errors
  grows : first.code.Grows last.code
  unfinished : first.isFinished = false
  finished : last.isFinished = true → last.endJumps = 0
  returns : scope.ret.isVoid = false → blockReturns block = true
  closed : Closed scope last final

variable {scope} {vars : List VarDecl}

/-- The arrays that a function has to free are not parameters, so they are in slots. -/
theorem Declares.owned_slots (declares : Declares scope vars first last)
    (isParam : ∀ x l, first.locals.lookup? x = some l → l.isParam = true) (distinct : first.locals.names.Nodup)
    (x : String) (l : Local) (member : (x, l) ∈ last.ownedArrays) : ∃ slot, l.storage = .stack slot := by
  obtain ⟨member, owned⟩ := mem_filter.1 member
  simp only [Local.isOwnedArray, Ty.isOwnedArray, Bool.and_eq_true, Bool.not_eq_true'] at owned
  have found := lookup?_of_mem (declares.distinct distinct) member
  cases place : l.storage with
  | stack slot => exact ⟨slot, rfl⟩
  | register r =>
    cases found' : first.locals.lookup? x with
    | some l' =>
      obtain ⟨l2, found2, same⟩ := declares.grown.kept x l' found'
      cases found.symm.trans found2
      rw [same.isParam, isParam x l' found'] at owned
      cases owned.1
    | none =>
      have scalar := ((declares.grown.newcomer x l found' found).home r place).2.2
      rw [scalar] at owned
      cases owned.2.1

variable {w : Setting σ ω}

theorem Setting.emits_emitBody (regular : Regular w.scope) (name : Ident) (block : Block) :
    Emits (emitBody w.scope name block) fun b _ b' => Fresh w.scope b →
      ∃ pool homes last, (∀ r ∈ homeRegs b.locals, pool.isAllocated r = true) ∧
        Whole w.scope block { b with pool, homes } last b' := by
  refine .mono (.bind .of_get fun b0 => .bind (emits_reserveHomes _).counted fun _ =>
    .bind (emits_emitStmts regular .body block.stmts).counted.ran fun _ =>
    .bind (emits_checkReturns w.scope name block) fun _ => emits_close w.scope) ?_
  rintro _ _ b' ⟨_, b, ⟨rfl, rfl⟩, _, _, ⟨-, pool, homes, rfl, -, taken⟩, _, _,
    ⟨ran, clean, performs⟩, _, last, ⟨rfl, returns⟩, closed⟩ fresh
  obtain ⟨performs, -⟩ := performs fresh.errors (fresh.tidy pool homes taken)
  rw [listVars_stmts, listTargets_stmts] at performs
  refine ⟨pool, homes, last, taken, performs.toDeclares, performs.scalars, ran, fresh.errors, clean, performs.grows,
    fresh.unfinished, performs.finished fresh.unfinished, returns, closed ?_⟩
  exact performs.toDeclares.owned_slots fresh.isParam fresh.distinct

/-! ## The end of a function -/

theorem Closed.localReserve (closed : Closed scope last final) : final.localReserve = last.localReserve := by
  cases closed with
  | returned finished => rfl
  | epilogue unfinished destroys => exact destroys.steady.localReserve

theorem Closed.table (closed : Closed scope last final) : Strings.Grows last.strings.table final.strings.table := by
  cases closed with
  | returned finished => exact .refl _
  | epilogue unfinished destroys => exact destroys.steady.table

theorem Closed.grows (closed : Closed scope last final) : (last.code.bind scope.endLabel).Grows final.code := by
  cases closed with
  | returned finished => exact .refl _
  | epilogue unfinished destroys =>
    refine destroys.steady.code.trans (.emit _ ?_)
    split <;> simp [Instruction.Encodable, nibbles]

/-- The end of a function is where its label says, behind the code of its statements. -/
structure EndsAt (scope : Scope) (last final : Body) : Prop where
  within : last.code.Within final.code
  stop : final.code.target? scope.endLabel = some last.pos
  inside : final.code.LabelsInside
  fits : ∀ i, Op.plain i ∈ final.code.ops → i.Encodable

theorem Whole.endsAt {block : Block} (whole : Whole scope block first last final)
    (empty : first.code = CodeBuffer.empty.newLabel.2) (label : scope.endLabel = CodeBuffer.empty.newLabel.1) :
    EndsAt scope last final := by
  have grows := whole.grows
  rw [empty] at grows
  obtain ⟨unbound, made, -⟩ := fresh_newLabel grows
  rw [← label] at unbound made
  have closed := whole.closed.grows
  have all : CodeBuffer.empty.Grows final.code :=
    (Grows.bind ((Grows.newLabel _).trans grows) (Nat.zero_le scope.endLabel.index)).trans closed
  refine ⟨(within_bind unbound).trans closed.within,
    closed.within.labels _ _ (target?_bind_self made), all.inside ?_, fun i member => ?_⟩
  · intro other target bound
    cases bound
  · obtain earlier | fits := all.fits i member
    · cases Array.mem_toList_iff.2 earlier
    · exact fits

/-- The arrays that the end of a function frees are the owned ones among its variables. -/
theorem Declares.ownedArrays_eq {α : Type} (declares : Declares scope vars first last)
    (isParam : ∀ x l, first.locals.lookup? x = some l → l.isParam = true) (distinct : first.locals.names.Nodup)
    (f : String → α) : (last.ownedArrays.map fun (x, _) => f x) =
      (vars.filter (·.ty.isOwnedArray)).map fun v => f v.name.name := by
  let owned : String × Ty × Bool → Bool := fun (_, ty, isParam) => !isParam && ty.isOwnedArray
  have of_last : (last.ownedArrays.map fun (x, _) => f x) =
      (last.keys.filter owned).map fun (x, _) => f x := by
    rw [Body.keys, filter_map, map_map]
    rfl
  have of_first : first.keys.filter owned = [] := by
    rw [filter_eq_nil_iff]
    intro key member
    obtain ⟨⟨x, l⟩, entry, rfl⟩ := mem_map.1 member
    simp [owned, isParam x l (lookup?_of_mem distinct entry)]
  have of_vars : (vars.map varKey).filter owned = (vars.filter (·.ty.isOwnedArray)).map varKey := by
    rw [filter_map]
    congr 2
    funext var
    simp [owned, varKey, fullTy_isOwnedArray]
  rw [of_last, declares.keys, filter_append, of_first, of_vars, nil_append, map_map]
  rfl

namespace Setting

variable (w) in
/-- What a function leaves to its caller: what lies below its frame, and as many globals as there were. -/
structure Intact (c : Core σ) : Prop where
  high : w.link.code.frame.base ≤ c.stack.size
  below : ∀ i < w.link.code.frame.base, c.stack[i]? = w.below[i]?
  globals : c.globals.size = w.scope.decls.globals.size

variable {locals : Locals}

theorem Slots.intact (slots : w.Slots b locals c) (sound : w.Sound) : w.Intact c := by
  have high := slots.high
  have ends := sound.frame
  exact ⟨by omega, slots.below, slots.globals⟩

theorem Slots.ends {v : Value} (slots : w.Slots w.last locals c) (sound : w.Sound)
    (distinct : w.last.locals.names.Nodup) (closed : Closed w.scope w.last final)
    (within : final.code.Within w.link.code.buffer) (unfinished : w.last.isFinished = false)
    (result : if w.scope.ret.isVoid then v = 0 else c.reg returnReg = v) {heap : ArrayHeap}
    (freed : c.arrays.destroyAll? (w.last.ownedArrays.map fun (x, _) => ((locals x).getD 0).handle) = some heap) :
    w.link.Ends w.last.pos c (do
      destroyAll (w.last.ownedArrays.map fun (x, _) => (locals x).getD 0)
      return v) w.Intact := by
  cases closed with
  | returned finished =>
    rw [unfinished] at finished
    cases finished
  | @epilogue b _ destroys =>
    have fits : (if w.scope.ret.isVoid then Instruction.retVoid else .ret).Encodable := by
      split <;> simp [Instruction.Encodable, nibbles]
    have within' := (Grows.emit b.code fits).within.trans within
    refine (destroys.sim w.link c (fun x => (locals x).getD 0) heap within' ?_ freed).ends ?_
    · intro x l slot member place
      have found := lookup?_of_mem distinct (mem_filter.1 member).1
      exact slots.slot x l slot found place
    · rintro _ _ c' ⟨rfl, frees⟩
      have intact := (slots.of_stack frees.stack (congrArg Array.size frees.globals)).intact sound
      refine .of_returns ?_ intact
      have placed := within.emitted
      split at result
      · next void =>
        rw [if_pos void] at placed
        rw [result]
        exact Activation.returns_retVoid placed
      · next valued =>
        rw [if_neg valued] at placed
        rw [← result, ← frees.result]
        exact Activation.returns_ret placed

/-- The code of a function ends as the evaluation of its body does, when that leaves arrays that can be
destroyed. -/
theorem ends_body {block : Block} (sound : w.Sound) (regular : Regular w.scope)
    (whole : Whole w.scope block first w.last final)
    (isParam : ∀ x l, first.locals.lookup? x = some l → l.isParam = true) (distinct : first.locals.names.Nodup)
    (tidy : Tidy w.scope first) (within : final.code.Within w.link.code.buffer) (same : w.Matches first locals c)
    (frees : c.arrays.Consistent → ∀ used locals' flow store,
      Yields (w.meaning.evalStmts locals block.stmts) used (w.link.store c) (.ok (locals', flow)) store →
      ∃ heap, store.arrays.destroyAll? (locals'.owned block.vars) = some heap) :
    w.link.Ends first.pos c (do
      let (locals, flow) ← w.meaning.evalStmts locals block.stmts
      destroyOwned locals block.vars
      match flow with
      | .ret v => return v
      | .next => if w.scope.ret.isVoid then return 0 else Eval.stop .stuck) w.Intact := by
  refine .of_consistent fun consistent => ?_
  obtain ⟨performs, -⟩ := (emits_emitStmts regular .body block.stmts first () w.last whole.ran).2 whole.clean
    whole.errors tidy
  have sim := performs.sim sound (.refl _ _) (fun _ => ⟨rfl, rfl, rfl⟩) whole.unfinished locals c same
  -- A function with a result never gets to the end of its statements.
  have sim := sim.also (fun result _ => w.scope.ret.isVoid = false → Returning result) (by
    intro used result store yields valued
    have always := returning_block w.meaning locals block (whole.returns valued)
    have given := yields []
    obtain ⟨stmts, span⟩ := block
    exact always _ _ result (congrArg Prod.fst given))
  have owned : ∀ {α : Type} (f : String → α), (w.last.ownedArrays.map fun (x, _) => f x) =
      (block.vars.filter (·.ty.isOwnedArray)).map fun v => f v.name.name :=
    whole.toDeclares.ownedArrays_eq isParam distinct
  have sim := sim.also (fun result store => ∃ heap,
      store.arrays.destroyAll? (w.last.ownedArrays.map fun (x, _) => ((result.1 x).getD 0).handle) = some heap) (by
    intro used result store yields
    rw [owned fun x => ((result.1 x).getD 0).handle]
    exact frees consistent used result.1 result.2 store yields)
  have names := whole.distinct distinct
  refine sim.ends ?_
  rintro ⟨locals', flow⟩ k c' ⟨⟨leaves, returning⟩, heap, freed⟩
  dsimp only
  rw [destroyOwned_eq, ← owned fun x => (locals' x).getD 0]
  cases flow with
  | next =>
    obtain ⟨⟨rfl, same'⟩, unfinished⟩ := leaves
    have void : w.scope.ret.isVoid = true := by
      cases void : w.scope.ret.isVoid with
      | true => rfl
      | false => obtain ⟨v, ⟨⟩⟩ := returning void
    rw [if_pos void]
    exact same'.toSlots.ends sound names whole.closed within unfinished (by rw [if_pos void]) freed
  | ret v =>
    obtain ⟨slots, ⟨rfl, unfinished, result⟩ | ⟨returns, unowned⟩⟩ := leaves
    · exact slots.ends sound names whole.closed within unfinished result freed
    · have none : w.last.ownedArrays = [] := by
        rw [Body.ownedArrays, filter_eq_nil_iff]
        rintro ⟨x, l⟩ member
        simp [unowned x l member]
      rw [none]
      exact .of_returns returns (slots.intact sound)

end Setting

/-! ## Parameters -/

/-- A function takes its parameters from the registers and slots that callers put arguments in. -/
structure Function.Takes (f : Function) (params : List Param) : Prop where
  entry : ∀ i : Nat, f.locals.entries[i]? = params[i]?.map fun p =>
    (p.name.name, ⟨p.ty, Declared.paramStorage f.registerArgs f.stackArgs i, true, true⟩)
  distinct : f.locals.names.Nodup
  count : f.registerArgs + f.stackArgs = params.length
  few : f.registerArgs ≤ maxRegisterArgs
  fit : f.stackArgs ≤ 65535

variable {stackArgs i : Nat}

theorem paramStorage_inj {registerArgs j : Nat} (few : registerArgs ≤ maxRegisterArgs)
    (fit : stackArgs ≤ 65535) (i_lt : i < registerArgs + stackArgs) (j_lt : j < registerArgs + stackArgs)
    (same : Declared.paramStorage registerArgs stackArgs i =
      Declared.paramStorage registerArgs stackArgs j) : i = j := by
  have few : registerArgs ≤ 10 := few
  simp only [Declared.paramStorage, paramSlot] at same
  split at same <;> split at same
  · have same := congrArg UInt8.toNat (Storage.register.inj same)
    simp only [UInt8.toNat_ofNat'] at same
    omega
  · cases same
  · cases same
  · have same := congrArg UInt16.toNat (Storage.stack.inj same)
    simp only [UInt16.toNat_ofNat'] at same
    omega

namespace Function.Takes

variable {f : Function} {params : List Param}

theorem of_lookup (takes : f.Takes params) {x : String} {l : Local}
    (found : f.locals.lookup? x = some l) : ∃ (i : Nat) (p : Param), params[i]? = some p ∧ p.name.name = x ∧
      l = ⟨p.ty, Declared.paramStorage f.registerArgs f.stackArgs i, true, true⟩ := by
  obtain ⟨i, -, entry⟩ := lookup?_eq_some.1 found
  rw [takes.entry, Option.map_eq_some_iff] at entry
  obtain ⟨p, here, same⟩ := entry
  cases same
  exact ⟨i, p, here, rfl, rfl⟩

theorem names_eq (takes : f.Takes params) : f.locals.names = params.map (·.name.name) := by
  refine ext_getElem? fun i => ?_
  rw [names, toList, getElem?_map, Array.getElem?_toList, takes.entry,
    getElem?_map, Option.map_map]
  rfl

theorem lt (takes : f.Takes params) {p : Param} (here : params[i]? = some p) :
    i < f.registerArgs + f.stackArgs :=
  takes.count ▸ (List.getElem?_eq_some_iff.1 here).1

/-- Parameters in registers have those as their homes, those in slots come first in the frame. -/
theorem fresh (takes : f.Takes params) {strings : Strings} (stackArgs : scope.stackArgs = f.stackArgs)
    (clean : strings.report.totalErrors = 0) : Fresh scope (Body.initial strings f.locals).2 where
  errors := clean
  unfinished := rfl
  isParam x l found := by
    obtain ⟨i, p, -, -, rfl⟩ := takes.of_lookup found
    rfl
  distinct := takes.distinct
  tidy pool homes taken := by
    have fit := takes.fit
    refine ⟨fun x l k found at_k => ?_, fun x l r found at_r => taken r ?_,
      fun x y l l' found found' same => ?_, ?_, Nat.zero_le _⟩
    · obtain ⟨i, p, here, -, rfl⟩ := takes.of_lookup found
      have lt := takes.lt here
      simp only [Declared.paramStorage, paramSlot] at at_k
      split at at_k
      · cases at_k
      · cases at_k
        simp only [UInt16.toNat_ofNat']
        omega
    · exact mem_filterMap.2 ⟨(x, l), mem_of_lookup? found, by simp [at_r]⟩
    · obtain ⟨i, p, here, rfl, rfl⟩ := takes.of_lookup found
      obtain ⟨j, q, here', rfl, rfl⟩ := takes.of_lookup found'
      cases paramStorage_inj takes.few takes.fit (takes.lt here') (takes.lt here) same
      cases here.symm.trans here'
      rfl
    · change scope.stackArgs + 0 ≤ 65536
      omega

end Function.Takes

variable {params : List Param}

/-- A parameter stands for the argument in its place when no name is used twice. -/
theorem bindParams_of_nodup {p : Param} (distinct : (params.map (·.name.name)).Nodup)
    (length : args.length = params.length) (here : params[i]? = some p) :
    bindParams params args p.name.name = args[i]? := by
  induction params generalizing args i with
  | nil => cases here
  | cons param params ih =>
    cases args with
    | nil => cases length
    | cons arg args =>
      obtain ⟨new, distinct⟩ := nodup_cons.1 distinct
      rw [bindParams]
      cases i with
      | zero =>
        cases here
        exact Locals.set_self _ _ _
      | succ i =>
        have other : p.name.name ≠ param.name.name := by
          intro same
          exact new (mem_map.2 ⟨p, mem_of_getElem? here, same⟩)
        rw [Locals.set_of_ne _ _ other]
        exact ih distinct (Nat.succ.inj length) here

/-- An argument that is not in a register lies in the slot of its parameter. -/
theorem getElem?_paramSlot {n : Nat} (count : n + stackArgs = args.length) (high : n ≤ i)
    (inside : i < args.length) (below more : Array Value) :
    (below ++ (args.drop n).reverse.toArray ++ more)[below.size + paramSlot n stackArgs i]? = args[i]? := by
  have deep : n + ((args.drop n).length - 1 - paramSlot n stackArgs i) = i := by
    rw [length_drop, paramSlot]
    omega
  have few : paramSlot n stackArgs i < (args.drop n).length := by
    rw [length_drop, paramSlot]
    omega
  rw [Array.getElem?_append_left (by simpa using few), Array.getElem?_append_right (by omega),
    Nat.add_sub_cancel_left, getElem?_toArray, getElem?_reverse few, getElem?_drop, deep]

/-- When a function is entered, its parameters hold the arguments and all other slots are zero. -/
theorem Function.Takes.matches {f : Function} (takes : f.Takes params) {n : Nat}
    (locals : b.locals = f.locals) (reserve : b.localReserve = 0) (stackArgs : w.scope.stackArgs = f.stackArgs)
    (length : args.length = params.length)
    (regs : ∀ i v, i < f.registerArgs → args[i]? = some v → c.reg (UInt8.ofNat (i + 1)) = v)
    (base : w.link.code.frame.base = w.below.size)
    (ends : w.link.code.frame.localsEnd = w.below.size + f.stackArgs + n) (stack : c.stack =
      w.below ++ (args.drop f.registerArgs).reverse.toArray ++ Array.replicate n 0)
    (globals : c.globals.size = w.scope.decls.globals.size) : w.Matches b (bindParams params args) c := by
  have count := takes.count
  have fit := takes.fit
  have pushed : (args.drop f.registerArgs).reverse.toArray.size = f.stackArgs := by
    simp only [size_toArray, length_reverse, length_drop]
    omega
  have distinct := takes.distinct
  rw [takes.names_eq] at distinct
  -- The value of a parameter is the argument in its place, and there is one.
  have bound : ∀ {i : Nat} {p : Param}, params[i]? = some p →
      ∃ v, args[i]? = some v ∧ bindParams params args p.name.name = some v := by
    intro i p here
    have lt := (List.getElem?_eq_some_iff.1 here).1
    have arg := getElem?_eq_getElem (length ▸ lt)
    exact ⟨_, arg, by rw [bindParams_of_nodup distinct length here, arg]⟩
  refine ⟨⟨?_, fun i low => ?_, globals, fun x l k found at_k => ?_, fun x missing => ?_,
    fun k low high => ?_⟩, fun x l r v found at_r stored => ?_, fun x l r found at_r missing => ?_⟩
  · refine Nat.le_of_eq ?_
    rw [stack, ends, Array.size_append, Array.size_append, pushed, Array.size_replicate]
  · rw [stack, Array.append_assoc, Array.getElem?_append_left (by omega)]
  · obtain ⟨i, p, here, rfl, rfl⟩ := takes.of_lookup (locals ▸ found)
    obtain ⟨v, arg, value⟩ := bound here
    have lt := takes.lt here
    simp only [Declared.paramStorage, paramSlot] at at_k
    split at at_k
    · cases at_k
    · cases at_k
      rw [stack, base, UInt16.toNat_ofNat_of_lt' (by change _ < 65536; omega), ← paramSlot,
        getElem?_paramSlot (by omega) (by omega) (by omega), arg, value, Option.getD_some]
  · rw [locals] at missing
    refine bindParams_of_not_mem fun member => ?_
    rw [← takes.names_eq, mem_names] at member
    rw [contains_eq_false.2 missing] at member
    cases member
  · rw [stack, base, Array.getElem?_append_right (by rw [Array.size_append]; omega)]
    rw [Array.getElem?_replicate, if_pos (by rw [Array.size_append]; omega)]
  · obtain ⟨i, p, here, rfl, rfl⟩ := takes.of_lookup (locals ▸ found)
    obtain ⟨v', arg, value⟩ := bound here
    cases stored.symm.trans value
    simp only [Declared.paramStorage] at at_r
    split at at_r
    · next inside =>
      cases at_r
      exact regs i v inside arg
    · cases at_r
  · obtain ⟨i, p, here, rfl, rfl⟩ := takes.of_lookup (locals ▸ found)
    obtain ⟨v, -, value⟩ := bound here
    cases missing.symm.trans value

/-! ## Calls -/

theorem Setting.Intact.shrink (intact : w.Intact c) (base : w.link.code.frame.base = w.below.size) :
    c.stack.shrink w.link.code.frame.base = w.below := by
  have high := intact.high
  refine Array.ext_getElem? fun i => ?_
  by_cases low : i < w.link.code.frame.base
  · rw [Array.getElem?_eq_getElem (by rw [Array.size_shrink]; omega), Array.getElem_shrink,
      ← Array.getElem?_eq_getElem, intact.below i low]
  · rw [Array.getElem?_eq_none (by rw [Array.size_shrink]; omega), Array.getElem?_eq_none (by omega)]

/-- A call of a function opens a frame, runs the code of the function and closes the frame. -/
theorem Setting.call_of_ends {x : Eval ω Value} {s : State σ} {room : Nat} {index : UInt32}
    {reserve : Nat} {code : List UInt8} (callee : w.link.code.callee = callEnding w.link.code.env room)
    (entry : w.link.code.env.image.functions[index.toNat]? = some (.bytecode reserve stackArgs code))
    (bytes : code = w.link.code.is.flatMap encode) (size : s.stack.size = w.below.size + stackArgs)
    (frame : w.link.code.frame = ⟨index, w.below.size, s.stack.size + reserve⟩)
    (ends : w.link.Ends 0 { s.core with stack := s.stack ++ Array.replicate reserve 0 } x w.Intact)
    (consistent : s.arrays.Consistent) :
    Limited w.link.code.env (callEnding w.link.code.env (room + 1) index s).1 ∨
    (∃ v s', callEnding w.link.code.env (room + 1) index s = ((.ok v, s'), none) ∧
      w.link.Gives s.core x (.ok v) s'.core ∧ s'.arrays.Consistent ∧ s'.stack = w.below ∧
      s'.core.reg returnReg = v ∧ s'.globals.size = w.scope.decls.globals.size) ∨
    ∃ t fault s' culprit, callEnding w.link.code.env (room + 1) index s = ((.error fault, s'), culprit) ∧
      fault.trap? = some t ∧ w.link.Gives s.core x (.error (.trap t)) s'.core ∧ Spares culprit := by
  let entered : State σ := { s with stack := s.stack ++ Array.replicate reserve 0 }
  have base : w.link.code.frame.base = w.below.size := by rw [frame]
  have called : callEnding w.link.code.env (room + 1) index s =
      (returned (leave w.link.code.frame (w.link.code.runFrom 0 entered).1),
        (w.link.code.runFrom 0 entered).2) := by
    have opened : enter index reserve stackArgs s = some (w.link.code.frame, entered) := by
      rw [enter, if_neg (by omega), frame, size, Nat.add_sub_cancel]
    rw [callEnding, entry]
    simp only [opened]
    rw [← callee, bytes]
    rfl
  rw [called]
  obtain ⟨limit, cut⟩ | ⟨v, s', given, ran, kept, intact⟩ |
    ⟨t, fault, s', culprit, given, ran, kind, other⟩ := ends entered rfl consistent
  · refine .inl ⟨limit, ?_⟩
    obtain ⟨n, cut⟩ := cut
    refine ⟨n, ?_⟩
    rw [leave, cut]
    rfl
  · let left : State σ := { s' with stack := s'.stack.shrink w.link.code.frame.base }
    have stack : left.stack = w.below := intact.shrink base
    refine .inr (.inl ⟨v, left.setReg returnReg v, by rw [ran]; rfl, given.of_store rfl rfl, kept, stack,
      left.core.reg_setReg_self returnReg v, intact.globals⟩)
  · let left : State σ := { s' with stack := s'.stack.shrink w.link.code.frame.base }
    exact .inr (.inr ⟨t, fault, left, culprit, by rw [ran]; rfl, kind, given.of_store rfl rfl, other⟩)

end Emission

end RegisterLang
