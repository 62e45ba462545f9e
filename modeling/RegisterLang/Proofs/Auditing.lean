import RegisterLang.Ast.Parser.Program
import RegisterLang.Proofs.Checks

/-! # A check after every statement

Emission can be watched: something is done after each statement, at every depth. Watching for registers in
use that are not the home of a parameter or local, or for homes that are not in use, finds nothing. Main
statement: `emit_balanced`.
-/

namespace RegisterLang

open List

namespace Emission

/-! ## Emission that is watched -/

section Watched

variable (watch : EmitM Unit) (scope : Scope)

mutual

/-- Emit the code of a statement, and look at the outcome. -/
def emitStmtWith (tail : Tail) : Stmt → EmitM Unit
  | .var var => do
    emitVar scope var
    watch
  | .assign target value span => do
    emitAssign scope target value span
    watch
  | .ret value span => do
    emitReturn scope value span tail
    watch
  | .branch chain => do
    emitConditionalWith tail chain
    watch
  | .expr e _ => do
    let v ← lowerExpr scope e
    drop v
    watch
  | .block body => do
    emitBlockWith tail.inside body
    watch

/-- Emit the code of statements, and look at the outcome of each. -/
def emitStmtsWith (tail : Tail) : List Stmt → EmitM Unit
  | [] => return
  | stmt :: stmts => do
    if ← atLimit then return
    emitStmtWith (if stmts.isEmpty then tail else .no) stmt
    emitStmtsWith tail stmts

/-- Emit the code of a block, and look at the outcome of each statement. -/
def emitBlockWith (tail : Tail) : Block → EmitM Unit
  | .mk stmts _ => emitStmtsWith tail stmts

/-- Emit the code of a conditional, and look at the outcome of each statement. -/
def emitConditionalWith (tail : Tail) : Conditional → EmitM Unit
  | .mk cond body otherwise _ => do
    let elseLabel ← newLabel
    emitCondition scope cond elseLabel
    if otherwise.isAbsent then
      emitBlockWith tail.inside body
      onCode (·.bind elseLabel)
    else
      let endLabel ← newLabel
      emitBlockWith .no body
      if !blockEndsInReturn body then onCode (·.jump .always endLabel)
      onCode (·.bind elseLabel)
      emitOtherwiseWith tail.inside otherwise
      onCode (·.bind endLabel)

/-- Emit the code for a condition that does not hold, and look at the outcome of each statement. -/
def emitOtherwiseWith (tail : Tail) : Otherwise → EmitM Unit
  | .absent => return
  | .elif chain => emitConditionalWith tail chain
  | .orElse body => emitBlockWith tail body

end

/-- Emit the whole code of a function, and look at the outcome of each statement. -/
def emitBodyWith (name : Ident) (body : Block) : EmitM Unit := do
  reserveHomes (homeRegs (← get).locals)
  emitStmtsWith watch scope .body body.stmts
  checkReturns scope name body
  onCode (·.bind scope.endLabel)
  if !(← get).isFinished then emitEpilogue scope

end Watched

/-- The registers in use are the homes of parameters and locals. -/
def Body.Balanced (b : Body) : Prop :=
  ∀ reg, b.pool.isAllocated reg = true ↔ reg ∈ homeRegs b.locals

/-- Two pieces of emission do the same from every body as required. -/
def Agrees {α : Type} (x y : EmitM α) (pre : Body → Prop) : Prop :=
  ∀ b, pre b → x.run b = y.run b

namespace Agrees

variable {α β : Type} {x y x' y' : EmitM α} {pre : Body → Prop}

theorem refl (x : EmitM α) (pre : Body → Prop) : Agrees x x pre :=
  fun _ _ => rfl

theorem bind (scope : Scope) {f g : α → EmitM β} {mid : α → Body → Prop} (first : Agrees x y pre)
    (secure : Secure scope y pre mid) (second : ∀ a, Agrees (f a) (g a) (mid a)) :
    Agrees (x >>= f) (y >>= g) pre := by
  intro b start
  rw [StateT.run_bind, StateT.run_bind, first b start]
  cases ran : y.run b with
  | error e => rfl
  | ok result => exact second result.1 result.2 (secure.ends b start _ _ ran)

theorem bind_get {f g : Body → EmitM α}
    (second : ∀ s, Agrees (f s) (g s) fun b => s = b ∧ pre b) : Agrees (get >>= f) (get >>= g) pre :=
  fun b start => second b b ⟨rfl, start⟩

theorem ite {c : Prop} [Decidable c] (yes : Agrees x y pre) (no : Agrees x' y' pre) :
    Agrees (if c then x else x') (if c then y else y') pre := by
  split
  · exact yes
  · exact no

end Agrees

section Idle

variable {scope : Scope} {watch : EmitM Unit} {pending : List Label}

theorem Agrees.watched (scope : Scope) (idle : ∀ b, b.Balanced → watch.run b = .ok ((), b)) {x y : EmitM Unit}
    (same : Agrees x y (·.Holds pending [])) (secure : Sustains scope pending [] y) :
    Agrees (x >>= fun _ => watch) y (·.Holds pending []) := by
  intro b start
  rw [StateT.run_bind, same b start]
  cases ran : y.run b with
  | error e => rfl
  | ok result => exact idle result.2 (secure.ends b start _ _ ran).isAllocated_iff

variable (idle : ∀ b, b.Balanced → watch.run b = .ok ((), b))
include idle

set_option linter.unusedSectionVars false in
mutual

theorem agrees_emitStmtWith {pending : List Label} (ahead : scope.endLabel ∈ pending) (tail : Tail) : (stmt : Stmt) →
    Agrees (emitStmtWith watch scope tail stmt) (emitStmt scope tail stmt) (·.Holds pending [])
  | .var var => .watched scope idle (.refl _ _) (secure_emitVar var)
  | .assign target value span => .watched scope idle (.refl _ _) (secure_emitAssign target value span)
  | .ret value span => .watched scope idle (.refl _ _) (secure_emitReturn ahead value span tail)
  | .branch chain =>
    .watched scope idle (agrees_emitConditionalWith ahead tail chain) (secure_emitConditional ahead tail chain)
  | .expr e _ => by
    rw [emitStmtWith, emitStmt, ← bind_assoc]
    refine .watched scope idle (.refl _ _) ?_
    exact .bind (secure_lowerExpr e) fun v => .of_pre (secure_drop v) fun _ => And.right
  | .block (.mk stmts _) =>
    .watched scope idle (agrees_emitStmtsWith ahead tail.inside stmts) (secure_emitStmts ahead tail.inside stmts)

theorem agrees_emitStmtsWith {pending : List Label} (ahead : scope.endLabel ∈ pending) (tail : Tail) :
    (stmts : List Stmt) →
    Agrees (emitStmtsWith watch scope tail stmts) (emitStmts scope tail stmts) (·.Holds pending [])
  | [] => .refl _ _
  | stmt :: stmts => by
    rw [emitStmtsWith, emitStmts]
    refine .bind scope (.refl _ _) secure_atLimit fun _ => .ite (.refl _ _) ?_
    exact .bind scope (agrees_emitStmtWith ahead _ stmt) (secure_emitStmt ahead _ stmt) fun _ =>
      agrees_emitStmtsWith ahead tail stmts

theorem agrees_emitConditionalWith {pending : List Label} (ahead : scope.endLabel ∈ pending) (tail : Tail) :
    (chain : Conditional) → Agrees (emitConditionalWith watch scope tail chain)
      (emitConditional scope tail chain) (·.Holds pending [])
  | .mk cond (.mk stmts _) otherwise _ => by
    rw [emitConditionalWith, emitConditional, emitBlockWith, emitBlock]
    refine .bind scope (.refl _ _) secure_newLabel fun elseLabel => ?_
    have ahead1 := mem_cons_of_mem elseLabel ahead
    refine .bind scope (.refl _ _) (secure_emitCondition cond (mem_cons_self ..)) fun _ => .ite ?_ ?_
    · exact .bind scope (agrees_emitStmtsWith ahead1 tail.inside stmts)
        (secure_emitStmts ahead1 tail.inside stmts) fun _ => .refl _ _
    · refine .bind scope (.refl _ _) secure_newLabel fun endLabel => ?_
      have ahead2 := mem_cons_of_mem endLabel ahead1
      have ends : Agrees
          (do
            onCode (·.bind elseLabel)
            emitOtherwiseWith watch scope tail.inside otherwise
            onCode (·.bind endLabel))
          (do
            onCode (·.bind elseLabel)
            emitOtherwise scope tail.inside otherwise
            onCode (·.bind endLabel)) (·.Holds (endLabel :: elseLabel :: pending) []) := by
        refine .bind scope (.refl _ _)
          (secure_onCode fun _ forward => (forward.perm (.swap ..)).bind) fun _ => ?_
        have ahead3 := mem_cons_of_mem endLabel ahead
        exact .bind scope (agrees_emitOtherwiseWith ahead3 tail.inside otherwise)
          (secure_emitOtherwise ahead3 tail.inside otherwise) fun _ => .refl _ _
      refine .bind scope (agrees_emitStmtsWith ahead2 .no stmts) (secure_emitStmts ahead2 .no stmts)
        fun _ => .ite (.bind scope (.refl _ _) (secure_onCode fun _ forward => ?_) fun _ => ends) ends
      exact forward.jumpTo .always (mem_cons_self ..)

theorem agrees_emitOtherwiseWith {pending : List Label} (ahead : scope.endLabel ∈ pending) (tail : Tail) :
    (otherwise : Otherwise) → Agrees (emitOtherwiseWith watch scope tail otherwise)
      (emitOtherwise scope tail otherwise) (·.Holds pending [])
  | .absent => .refl _ _
  | .elif chain => agrees_emitConditionalWith ahead tail chain
  | .orElse (.mk stmts _) => agrees_emitStmtsWith ahead tail stmts

end

/-- Watching a whole body with something that does nothing when all is well changes nothing. -/
theorem agrees_emitBodyWith {f : Function} (seated : f.Seated)
    (ends : scope.endLabel = CodeBuffer.empty.newLabel.1) (name : Ident) (body : Block) (strings : Strings) :
    Agrees (emitBodyWith watch scope name body) (emitBody scope name body)
      ((Body.initial strings f.locals).2 = ·) := by
  have ahead : scope.endLabel ∈ [CodeBuffer.empty.newLabel.1] := mem_singleton.2 ends
  refine .bind_get fun s b holds => ?_
  obtain ⟨rfl, start⟩ := holds
  refine Agrees.bind scope (.refl _ _) (secure_start seated start) (fun _ => ?_) s rfl
  exact .bind scope (agrees_emitStmtsWith idle ahead .body body.stmts)
    (secure_emitStmts ahead .body body.stmts) fun _ => .refl _ _

end Idle

/-! ## The check -/

/-- Whether the registers in use are the homes of parameters and locals. -/
def Body.isBalanced (b : Body) : Bool :=
  b.pool.allocated.all (homeRegs b.locals).contains && (homeRegs b.locals).all b.pool.isAllocated

theorem Body.isBalanced_iff {b : Body} : b.isBalanced = true ↔ b.Balanced := by
  simp only [isBalanced, Balanced, Bool.and_eq_true, all_eq_true, contains_iff_mem,
    RegisterPool.mem_allocated]
  exact ⟨fun both reg => ⟨both.1 reg, both.2 reg⟩, fun same =>
    ⟨fun reg => (same reg).1, fun reg => (same reg).2⟩⟩

/-- Stop emission with an error unless the registers in use are the homes of parameters and locals. -/
def requireBalanced (e : EmissionError) : EmitM Unit := do
  if !(← get).isBalanced then throw e

theorem requireBalanced_idle (e : EmissionError) {b : Body} (balanced : b.Balanced) :
    (requireBalanced e).run b = .ok ((), b) := by
  have fine : (!b.isBalanced) = false := by rw [Body.isBalanced_iff.2 balanced]; rfl
  change (if (!b.isBalanced) = true then throw e else pure () : EmitM Unit).run b = _
  rw [fine]
  rfl

end Emission

open Emission

/-- When emission gives a codefile, no function ends with a register in use that is not a home. While the
body of any function is emitted, whatever strings and mistakes came before, the registers in use are the
homes of its parameters and locals after every statement: a check for that, with any error to report, never
fires. -/
theorem emit_balanced {program : Program} {source : SourceText} {settings : EmitSettings}
    {output : EmitOutput} (emitted : emit program source settings = .ok output) :
    (∀ stats ∈ output.stats, stats.leakedRegisters = 0) ∧
      ∀ (decl : FunctionDecl) (index : Nat) (block : Block) (f : Function) (strings : Strings) (e : EmissionError),
        (decl, some index) ∈ program.functions.zip (declareProgram source settings program).indices →
        decl.body = some block → (declareProgram source settings program).decls.functions.get? index = some f →
        (emitBodyWith (requireBalanced e)
            (bodyScope source settings (declareProgram source settings program).decls decl f)
            decl.name block).run (Body.initial strings f.locals).2 =
          (emitBody (bodyScope source settings (declareProgram source settings program).decls decl f)
            decl.name block).run (Body.initial strings f.locals).2 := by
  have listed := listed_declareProgram source settings program
  refine ⟨fun stats member => ?_, fun decl index block f strings e given _ known => ?_⟩
  · rw [emit] at emitted
    obtain ⟨done, ran, emitted⟩ := bind_eq_ok.1 emitted
    cases emitted
    obtain before | fine := (expected_emitFunctions listed _).balanced done ran stats (Array.mem_toList_iff.1 member)
    · simp at before
    · exact fine
  · obtain ⟨f', known', seated⟩ := listed decl index given
    cases known.symm.trans known'
    exact agrees_emitBodyWith (fun _ => requireBalanced_idle e) seated rfl decl.name block strings _ rfl

/-- A program with mistakes in the argument of a call and in the element of an array. -/
def faultyText : SourceText where
  name := "faulty"
  text := "fn F(a: Int): Int \x7b var b: Int = a + F(\"x\" - 1); return b[a]; \x7d " ++
    "fn Main(): Int \x7b return F(1); \x7d"

theorem emit_balanced_faulty : ∃ output, emit (parse faultyText).1 faultyText ⟨.fast, .executable⟩ = .ok output ∧
      output.report.totalErrors = 2 ∧ output.stats.length = 2 ∧ (∀ stats ∈ output.stats, stats.leakedRegisters = 0) ∧
      ∃ decl block f, decl.name.name = "F" ∧ decl.body = some block ∧ ∀ strings e,
        (emitBodyWith (requireBalanced e) (bodyScope faultyText ⟨.fast, .executable⟩
            (declareProgram faultyText ⟨.fast, .executable⟩ (parse faultyText).1).decls decl f)
            decl.name block).run (Body.initial strings f.locals).2 =
          (emitBody (bodyScope faultyText ⟨.fast, .executable⟩
            (declareProgram faultyText ⟨.fast, .executable⟩ (parse faultyText).1).decls decl f)
            decl.name block).run (Body.initial strings f.locals).2 := by
  have counts : (emit (parse faultyText).1 faultyText ⟨.fast, .executable⟩).toOption.map
      (fun output => (output.report.totalErrors, output.stats.length)) = some (2, 2) := by
    decide +kernel
  have first : ("F", some 0, true) ∈ ((parse faultyText).1.functions.zip
      (declareProgram faultyText ⟨.fast, .executable⟩ (parse faultyText).1).indices).map
        fun x => (x.1.name.name, x.2, x.1.body.isSome) := by
    decide +kernel
  generalize (parse faultyText).1 = program at counts first ⊢
  obtain ⟨⟨decl, index⟩, member, same⟩ := List.mem_map.1 first
  obtain ⟨named, numbered, bodied⟩ : decl.name.name = "F" ∧ index = some 0 ∧ decl.body.isSome = true := by
    simpa using same
  obtain ⟨block, body⟩ := Option.isSome_iff_exists.1 bodied
  obtain ⟨f, known, -⟩ := listed_declareProgram faultyText ⟨.fast, .executable⟩ program decl 0 (numbered ▸ member)
  cases emitted : emit program faultyText ⟨.fast, .executable⟩ with
  | error e =>
    rw [emitted] at counts
    cases counts
  | ok output =>
    rw [emitted] at counts
    obtain ⟨errors, functions⟩ : output.report.totalErrors = 2 ∧ output.stats.length = 2 := by
      simpa [Except.toOption] using counts
    obtain ⟨leaks, watched⟩ := emit_balanced emitted
    exact ⟨output, rfl, errors, functions, leaks, decl, block, f, named, body, fun strings e =>
      watched decl 0 block f strings e (numbered ▸ member) body known⟩

end RegisterLang
