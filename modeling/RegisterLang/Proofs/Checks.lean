import RegisterLang.Proofs.Balance
import RegisterLang.Proofs.Programs

/-! # Checks of the emitter on itself

Emission can stop early for two reasons only: a function needs more registers at once than there are, or a
jump is longer than its encoding allows. Main statement: `emit_ok_or_exhausted_or_jumpTooLong`.
-/

namespace RegisterLang

open RegisterPool List

/-! ## Laying out -/

namespace CodeBuffer

/-- Code whose jumps all go forward to bound labels can be laid out, unless a jump is too long. -/
theorem finish_eq_error {c : CodeBuffer} (forward : c.Forward []) {e : EmissionError} (failed : c.finish = .error e) :
    ∃ offset, Layout.wideLimit < offset ∧ e = .jumpTooLong offset := by
  have ahead {k : Nat} {cond : Condition} {label : Label} (found : c.ops[k]? = some (.jump cond label)) :
      ∃ target, c.target? label = some target ∧ k < target := by
    obtain waits | bound := forward.jump k cond label found
    · cases waits
    · exact bound
  rcases c.finish_cases with ⟨k, cond, label, found, unbound, -⟩ | ⟨ops, resolved, back | ⟨-, same⟩⟩
  · obtain ⟨target, bound, -⟩ := ahead found
    cases unbound.symm.trans bound
  · obtain ⟨k, cond, target, found, behind, -⟩ := back
    obtain ⟨label, original, bound⟩ := resolved.jump_of found
    obtain ⟨target', bound', before⟩ := ahead original
    cases bound.symm.trans bound'
    exact absurd behind (Nat.not_le.2 before)
  · obtain ⟨k, cond, target, -, -, long, rfl⟩ := Layout.assemble_eq_error (same ▸ failed)
    exact ⟨_, long, rfl⟩

end CodeBuffer

theorem SymbolTable.get?_add {α : Type} (t : SymbolTable α) (name : String) (a : α) (i : Nat) :
    (t.add name a).get? i = if i = t.size then some a else t.get? i := by
  rw [get?, add, Array.getElem?_push, apply_ite (Option.map Prod.snd)]
  rfl

theorem SymbolTable.lt_of_get? {α : Type} {t : SymbolTable α} {i : Nat} {a : α}
    (found : t.get? i = some a) : i < t.size := by
  obtain ⟨entry, here, -⟩ := Option.map_eq_some_iff.1 found
  exact (Array.getElem?_eq_some_iff.1 here).1

namespace Emission

variable {f : Function}

/-! ## The homes of parameters -/

/-- The parameters of a function have homes of their own among the registers that can be handed out. -/
structure Function.Seated (f : Function) : Prop where
  distinct : (homeRegs f.locals).Nodup
  candidates : ∀ reg ∈ homeRegs f.locals, reg ∈ candidates

namespace Declared

theorem regs_paramStorage (registerArgs stackArgs p : Nat) : (paramStorage registerArgs stackArgs p).regs =
      if p < registerArgs then [UInt8.ofNat (p + 1)] else [] := by
  unfold paramStorage
  split
  · rfl
  · rfl

theorem homeRegs_declareParams (registerArgs stackArgs p : Nat) (params : List Param)
    (locals : SymbolTable Local) (d : Declared) :
    homeRegs (declareParams registerArgs stackArgs p params locals d).1 = homeRegs locals ++
      ((range' p params.length).filter (· < registerArgs)).map fun q => UInt8.ofNat (q + 1) := by
  induction params generalizing p locals d with
  | nil => simp [declareParams]
  | cons param params ih =>
    rw [declareParams, ih, homeRegs_add, regs_paramStorage, length_cons, range'_succ, append_assoc]
    by_cases inside : p < registerArgs
    · simp [inside]
    · simp [inside]

theorem seated_declareParams {registerArgs stackArgs : Nat} (few : registerArgs ≤ maxRegisterArgs)
    (params : List Param) (d : Declared)
    (locals : f.locals = (declareParams registerArgs stackArgs 0 params .empty d).1) : f.Seated := by
  have regs := homeRegs_declareParams registerArgs stackArgs 0 params .empty d
  rw [← locals, show homeRegs .empty = [] from rfl, nil_append] at regs
  have low : ∀ q ∈ (range' 0 params.length).filter (· < registerArgs), q < maxRegisterArgs := by
    intro q member
    have below := (mem_filter.1 member).2
    exact Nat.lt_of_lt_of_le (by simpa using below) few
  refine ⟨?_, fun reg member => ?_⟩
  · have ordered : ((range' 0 params.length).filter (· < registerArgs)).Nodup :=
      List.Nodup.filter _ nodup_range'
    rw [regs, List.Nodup, pairwise_map]
    refine ordered.imp_of_mem fun {q q'} member member' apart same => apart ?_
    have all : ∀ n m : Fin maxRegisterArgs, UInt8.ofNat (n.val + 1) = UInt8.ofNat (m.val + 1) → n = m :=
      by decide
    exact congrArg Fin.val (all ⟨q, low q member⟩ ⟨q', low q' member'⟩ same)
  · rw [regs] at member
    obtain ⟨q, inside, rfl⟩ := mem_map.1 member
    have all : ∀ n : Fin maxRegisterArgs, UInt8.ofNat (n.val + 1) ∈ candidates := by decide
    exact all ⟨q, low q inside⟩

/-- Declarations to which functions were added, whose parameters have homes of their own. -/
structure Adds (decls decls' : Declarations) : Prop where
  kept : ∀ i f, decls.functions.get? i = some f → decls'.functions.get? i = some f
  seated : (∀ i f, decls.functions.get? i = some f → f.Seated) → ∀ i f, decls'.functions.get? i = some f → f.Seated

theorem Adds.refl (decls : Declarations) : Adds decls decls :=
  ⟨fun _ _ found => found, fun seated => seated⟩

theorem Adds.trans {decls decls' decls'' : Declarations} (first : Adds decls decls')
    (second : Adds decls' decls'') : Adds decls decls'' :=
  ⟨fun i f found => second.kept i f (first.kept i f found),
    fun seated => second.seated (first.seated seated)⟩

theorem adds_declareFunction (d : Declared) (decl : FunctionDecl) : Adds d.decls (d.declareFunction decl).2.decls ∧
      ∀ i, (d.declareFunction decl).1 = some i → ∃ f, (d.declareFunction decl).2.decls.functions.get? i = some f := by
  rw [declareFunction]
  dsimp only
  split
  · exact ⟨.refl _, fun i same => by cases same⟩
  split
  · exact ⟨.refl _, fun i same => by cases same⟩
  split
  · refine ⟨?_, fun i same => by cases same⟩
    change Adds d.decls ((d.declareLink decl).2.conventionOf decl _).2.decls
    rw [decls_conventionOf, decls_declareLink]
    exact .refl _
  · rw [decls_declareParams, decls_conventionOf, decls_declareLink]
    refine ⟨⟨fun i f found => ?_, fun seated i f found => ?_⟩, fun i same => ?_⟩
    · rw [SymbolTable.get?_add, if_neg (Nat.ne_of_lt (SymbolTable.lt_of_get? found))]
      exact found
    · rw [SymbolTable.get?_add] at found
      split at found
      · cases found
        exact seated_declareParams (registerArgs_le _ _).1 _ _ rfl
      · exact seated i f found
    · cases same
      exact ⟨_, by rw [SymbolTable.get?_add, if_pos rfl]⟩

theorem adds_declareFunctions (decls : List FunctionDecl) (indices : List (Option Nat)) (d : Declared) :
    Adds d.decls (declareFunctions decls indices d).2.decls ∧
      ∀ i, some i ∈ (declareFunctions decls indices d).1 → some i ∈ indices ∨
        ∃ f, (declareFunctions decls indices d).2.decls.functions.get? i = some f := by
  induction decls generalizing indices d with
  | nil => exact ⟨.refl _, fun i member => .inl (by simpa [declareFunctions] using member)⟩
  | cons decl decls ih =>
    obtain ⟨adds, given⟩ := adds_declareFunction d decl
    obtain ⟨more, found⟩ := ih ((d.declareFunction decl).1 :: indices) (d.declareFunction decl).2
    refine ⟨adds.trans more, fun i member => ?_⟩
    obtain earlier | found := found i member
    · obtain here | earlier := mem_cons.1 earlier
      · obtain ⟨f, known⟩ := given i here.symm
        exact .inr ⟨f, more.kept i f known⟩
      · exact .inl earlier
    · exact .inr found

theorem functions_declareItem (d : Declared) (item : Item) :
    (d.declareItem item).decls.functions = d.decls.functions := by
  cases item with
  | function decl => rfl
  | const const =>
    rw [declareItem, declareConst]
    have same := decls_literalValue d const.value const.ty const.name.name true
    split
    · rfl
    split
    · next found =>
      rw [found] at same
      exact congrArg _ same
    · next found =>
      rw [found] at same
      have functions := congrArg Declarations.functions same
      exact functions
  | var var =>
    rw [declareItem, declareGlobal]
    dsimp only
    split
    · rfl
    split
    · rfl
    split
    · rfl
    cases var.init with
    | none => rfl
    | some init =>
      rw [decls_literalValue]

end Declared

/-- Every function that is given an index is found there, and its parameters have homes of their own. -/
theorem seated_declareProgram (source : SourceText) (settings : EmitSettings) (program : Program) {i : Nat}
    (given : some i ∈ (declareProgram source settings program).indices) :
    ∃ f, (declareProgram source settings program).decls.functions.get? i = some f ∧ f.Seated := by
  have none : ∀ (items : List Item) (d : Declared),
      (items.foldl Declared.declareItem d).decls.functions = d.decls.functions := by
    intro items
    induction items with
    | nil => exact fun d => rfl
    | cons item items ih => exact fun d => (ih _).trans (Declared.functions_declareItem d item)
  obtain ⟨adds, found⟩ := Declared.adds_declareFunctions program.functions []
    (program.items.foldl Declared.declareItem ⟨source, settings, .empty, .empty⟩)
  rw [declareProgram] at given ⊢
  dsimp only at given ⊢
  rw [Declared.decls_resolveEntry]
  obtain earlier | ⟨f, known⟩ := found i given
  · cases earlier
  · refine ⟨f, known, adds.seated (fun j g here => ?_) i f known⟩
    rw [none] at here
    cases here

/-! ## Function bodies -/

section Body

variable {scope : Scope} {pending : List Label}

theorem secure_reserveHomes (regs : List UInt8) : Secure scope (reserveHomes regs)
      (fun b => (regs ++ b.homes).Nodup ∧ (∀ reg ∈ regs, reg ∈ candidates) ∧
        b.pool.allocated.Perm b.homes ∧ (regs ++ b.homes).Perm (homeRegs b.locals) ∧ b.code.Forward pending)
      fun _ => (·.Holds pending []) := by
  induction regs with
  | nil =>
    refine .of_pure fun b ⟨_, _, used, homes, forward⟩ => ?_
    exact ⟨by simpa using used.trans homes, homes, forward⟩
  | cons reg regs ih =>
    refine .bind_get fun s => .of_read fun start => ?_
    obtain ⟨distinct, candidates, used, homes, forward⟩ := start
    have spare : s.pool.isAllocated reg = false := by
      rw [Bool.eq_false_iff, ne_eq, ← mem_allocated, used.mem_iff]
      exact fun member =>
        (nodup_cons.1 distinct).1 (mem_append_right _ member)
    have candidate := candidates reg (mem_cons_self ..)
    rw [reserve?_eq_some candidate spare]
    refine .bind (.of_modify fun b start => ?_) fun _ => ih
    subst start
    have moved : (regs ++ reg :: s.homes).Perm (reg :: regs ++ s.homes) := perm_middle
    refine ⟨moved.nodup_iff.2 distinct, fun r member => candidates r (mem_cons_of_mem _ member),
      ?_, moved.trans homes, forward⟩
    exact (perm_mark (mem_candidates candidate).1 spare).trans (used.cons reg)

theorem secure_start (seated : f.Seated) {strings : Strings} {s : Body}
    (start : (Body.initial strings f.locals).2 = s) : Secure scope (reserveHomes (homeRegs s.locals)) (s = ·)
      fun _ => (·.Holds [CodeBuffer.empty.newLabel.1] []) := by
  refine .of_pre (secure_reserveHomes _) fun b same => ?_
  subst same start
  refine ⟨by simpa [Body.initial] using seated.distinct, seated.candidates, ?_,
    by simp [Body.initial], ?_⟩
  · exact .of_eq allocated_empty
  · exact CodeBuffer.Forward.newLabel ⟨fun k cond label found => by simp [CodeBuffer.empty] at found,
      forall_mem_nil _⟩

theorem secure_checkReturns (name : Ident) (body : Block) :
    Sustains scope pending [] (checkReturns scope name body) := by
  refine .of_ite (fun _ => ?_) fun _ => .of_pure fun _ => id
  refine .bind_look fun s => ?_
  refine .of_ite (fun _ => secure_complain) fun _ => ?_
  exact .of_ite (fun _ => secure_complain) fun _ => .of_pure fun _ => id

theorem secure_destroyArray (storage : Storage) : Sustains scope pending [] (destroyArray scope storage) := by
  cases storage with
  | register reg => exact secure_emitInsn _
  | stack slot =>
    refine .bind secure_allocate fun scratch => .bind (secure_emitInsn _) fun _ => ?_
    exact .bind (secure_emitInsn _) fun _ => secure_free

theorem secure_emitEpilogue : Sustains scope pending [] (emitEpilogue scope) := by
  refine .bind_look fun s => ?_
  exact .bind (.forM fun entry _ => secure_destroyArray entry.2.storage) fun _ => secure_emitInsn _

/-- A whole body holds no register in the end, and no jump waits for its label. -/
theorem secure_emitBody (seated : f.Seated) (ends : scope.endLabel = CodeBuffer.empty.newLabel.1) (name : Ident)
    (body : Block) (strings : Strings) :
    Secure scope (emitBody scope name body) ((Body.initial strings f.locals).2 = ·) fun _ => (·.Holds [] []) := by
  refine .bind_get fun s => .of_read fun start => .bind (secure_start seated start) fun _ => ?_
  refine .bind (secure_emitStmts (mem_singleton.2 ends) .body body.stmts) fun _ => ?_
  refine .bind (secure_checkReturns name body) fun _ => ?_
  refine .bind (secure_onCode fun _ forward => (ends ▸ forward).bind) fun _ => .bind_get fun s => ?_
  refine .of_pre ?_ fun _ holds => holds.2
  exact .of_ite (fun _ => secure_emitEpilogue) fun _ => .of_pure fun _ => id

end Body

/-! ## Programs -/

section Programs

variable {source : SourceText} {settings : EmitSettings} {decls : Declarations}

/-- What emission can fail with, for functions with given names. -/
inductive Failure (names : List String) : EmissionError → Prop where
  | registersExhausted {name : String} (known : name ∈ names) : Failure names (.registersExhausted name)
  | jumpTooLong {offset : Nat} (long : Layout.wideLimit < offset) : Failure names (.jumpTooLong offset)

/-- An outcome of emission after functions with given statistics: those that are new leak no register, and
failures are expected ones. -/
structure Expected (names : List String) (before : Array FunctionStats)
    (outcome : Except EmissionError Emitted) : Prop where
  balanced : ∀ done, outcome = .ok done → ∀ stats ∈ done.stats, stats ∈ before ∨ stats.leakedRegisters = 0
  failure : ∀ e, outcome = .error e → Failure names e

namespace Expected

variable {names names' : List String} {before : Array FunctionStats}

theorem of_ok (done : Emitted) : Expected names done.stats (.ok done) where
  balanced done' same stats member := by
    cases same
    exact .inl member
  failure e impossible := by cases impossible

theorem mono {outcome : Except EmissionError Emitted} (expected : Expected names before outcome)
    (more : ∀ name ∈ names, name ∈ names') : Expected names' before outcome where
  balanced := expected.balanced
  failure e failed := by
    cases expected.failure e failed with
    | registersExhausted known => exact .registersExhausted (more _ known)
    | jumpTooLong long => exact .jumpTooLong long

theorem bind {x : Except EmissionError Emitted} {f : Emitted → Except EmissionError Emitted}
    (first : Expected names before x) (second : ∀ done, Expected names done.stats (f done)) :
    Expected names before (x >>= f) where
  balanced done ran stats member := by
    obtain ⟨done1, ran1, ran⟩ := bind_eq_ok.1 ran
    obtain earlier | fine := (second done1).balanced done ran stats member
    · exact first.balanced done1 ran1 stats earlier
    · exact .inr fine
  failure e failed := by
    obtain stopped | ⟨done1, -, failed⟩ := bind_eq_error.1 failed
    · exact first.failure e stopped
    · exact (second done1).failure e failed

end Expected

theorem expected_emitFunction (seated : f.Seated) (name : Ident) (body : Block) (index : Nat) (done : Emitted) :
    Expected [name.name] done.stats (emitFunction source settings decls name body index f done) := by
  have secure : Secure ⟨source, settings, decls, name.name, f.ret, f.stackArgs,
      CodeBuffer.empty.newLabel.1⟩ (emitBody _ name body) _ _ :=
    secure_emitBody seated rfl name body done.strings
  refine ⟨fun done' emitted stats member => ?_, fun e failed => ?_⟩
  · rw [emitFunction] at emitted
    obtain ⟨⟨⟨⟩, b⟩, ran, emitted⟩ := bind_eq_ok.1 emitted
    obtain ⟨code, -, emitted⟩ := bind_eq_ok.1 emitted
    cases emitted
    obtain earlier | rfl := Array.mem_push.1 member
    · exact .inl earlier
    · exact .inr (Nat.sub_eq_zero_of_le (Nat.le_of_eq (secure.ends _ rfl () b ran).inUse_eq))
  · rw [emitFunction] at failed
    obtain stopped | ⟨⟨⟨⟩, b⟩, ran, failed⟩ := bind_eq_error.1 failed
    · rw [secure.fails _ rfl e stopped]
      exact .registersExhausted (mem_singleton_self _)
    obtain unfinished | ⟨code, -, impossible⟩ := bind_eq_error.1 failed
    · obtain ⟨offset, long, rfl⟩ :=
        CodeBuffer.finish_eq_error (secure.ends _ rfl () b ran).forward unfinished
      exact .jumpTooLong long
    · cases impossible

theorem expected_emitFunctions {functions : List (FunctionDecl × Option Nat)}
    (listed : ∀ decl i, (decl, some i) ∈ functions →
      ∃ f, decls.functions.get? i = some f ∧ f.Seated) (done : Emitted) :
    Expected (functions.map (·.1.name.name)) done.stats (emitFunctions source settings decls functions done) := by
  induction functions generalizing done with
  | nil => exact .of_ok done
  | cons function functions ih =>
    obtain ⟨decl, index?⟩ := function
    have rest := fun done => (ih (fun decl i member => listed decl i (mem_cons_of_mem _ member))
      done).mono fun name => mem_cons_of_mem decl.name.name
    unfold emitFunctions
    split
    · exact .of_ok done
    split
    · next i body here =>
      obtain ⟨f, known, seated⟩ := listed decl i (mem_cons_self ..)
      rw [known]
      dsimp only
      split
      · exact rest done
      · refine .bind ((expected_emitFunction seated decl.name body i done).mono ?_) rest
        exact fun name member => mem_singleton.1 member ▸ mem_cons_self ..
    · exact rest done

end Programs

/-- Whatever the program, the functions that are given an index are found there. -/
theorem listed_declareProgram (source : SourceText) (settings : EmitSettings) (program : Program)
    (decl : FunctionDecl) (i : Nat)
    (member : (decl, some i) ∈ program.functions.zip (declareProgram source settings program).indices) :
    ∃ f, (declareProgram source settings program).decls.functions.get? i = some f ∧ f.Seated :=
  seated_declareProgram source settings program (of_mem_zip member).2

end Emission

open Emission

/-- Emission gives a codefile, or it stops at a function that needs more registers at once than there are
or at a jump that is longer than its encoding allows. No check of the emitter on itself ever fires. -/
theorem emit_ok_or_exhausted_or_jumpTooLong (program : Program) (source : SourceText) (settings : EmitSettings) :
    (∃ output, emit program source settings = .ok output) ∨ (∃ decl ∈ program.functions,
        emit program source settings = .error (.registersExhausted decl.name.name)) ∨
      ∃ offset, Layout.wideLimit < offset ∧ emit program source settings = .error (.jumpTooLong offset) := by
  cases outcome : emit program source settings with
  | ok output => exact .inl ⟨output, rfl⟩
  | error e =>
    right
    have fails := outcome
    rw [emit] at fails
    obtain failed | ⟨done, -, impossible⟩ := bind_eq_error.1 fails
    · cases (expected_emitFunctions (listed_declareProgram source settings program) _).failure e failed with
      | registersExhausted known =>
        obtain ⟨entry, member, rfl⟩ := List.mem_map.1 known
        exact .inl ⟨entry.1, (List.of_mem_zip member).1, rfl⟩
      | jumpTooLong long => exact .inr ⟨_, long, rfl⟩
    · cases impossible

end RegisterLang
