import RegisterLang.Ast.Parser.Program
import RegisterLang.Proofs.Declarations
import RegisterLang.Proofs.Outlines
import RegisterLang.Proofs.Triples

/-! # Diagnostics do not depend on the settings

Functions are declared and their bodies are emitted side by side, under two levels of optimisation. The
outlines stay the same from statement to statement, so both come to the same report. Main statement:
`report_uniform`.
-/

namespace RegisterLang

open SymbolTable

namespace FunctionDecl

/-- How a function receives its arguments at a level of optimisation. -/
def conventionAt (decl : FunctionDecl) (level : OptLevel) : Convention :=
  if decl.linkage.isSome then .register else .select decl.params.length (level ≠ .plain)

/-- How many arguments of a function travel on the stack at a level of optimisation. -/
def stackArgsAt (decl : FunctionDecl) (level : OptLevel) : Nat :=
  decl.params.length - (decl.conventionAt level).registerArgs decl.params.length

end FunctionDecl

/-- No function has more parameters than the frame of a call can hold. -/
def Program.ParamsFit (program : Program) (level : OptLevel) : Prop :=
  ∀ decl ∈ program.functions, decl.stackArgsAt level ≤ 65535

namespace Emission

open Lowered (isFailed_congr isLiteral_congr ty_congr)

open AgreeFrom (of_ite bind_get skip past seq)

variable {scope scope' : Scope} {γ : Type} {f f' : Function}

/-! ## Homes -/

/-- The report has room for another error. -/
def Outline.Open (o : Outline) : Prop :=
  o.strings.report.atLimit = false

/-- A home is found for a local, or the lack of slots is reported. -/
def Houses (scope : Scope) (span : Span) (x : EmitM Storage) (gives : Storage → Prop) : Prop :=
  ∀ b storage c, x.run b = .ok (storage, c) → gives storage ∧ (c.outline = b.outline ∨
    c.strings.report = b.strings.report.complain scope.source .limitExceeded
      s!"function '{scope.name}' has too many stack slots" span)

namespace Houses

variable {span : Span} {x x' : EmitM Storage} {gives : Storage → Prop}

theorem keeps (houses : Houses scope span x gives) {b c : Body} {storage : Storage}
    (ran : x.run b = .ok (storage, c)) (fits : c.SlotsFit) : b.SlotsFit := by
  rcases (houses b storage c ran).2 with same | reported
  · exact Body.slotsFit_congr same fits
  · rw [Body.SlotsFit, reported] at fits
    exact Report.SlotsFit.of_error fits

theorem outline_eq (houses : Houses scope span x gives) {b c : Body} {storage : Storage}
    (ran : x.run b = .ok (storage, c)) (room : b.outline.Open) (fits : c.SlotsFit) :
    gives storage ∧ c.outline = b.outline := by
  obtain ⟨given, same | reported⟩ := houses b storage c ran
  · exact ⟨given, same⟩
  · rw [Body.SlotsFit, reported] at fits
    exact absurd rfl (fits _ (Report.mem_error room _) rfl scope.name)

theorem agree {view : Storage → γ} (houses : Houses scope span x gives) (houses' : Houses scope' span x' gives)
    (same : ∀ s s', gives s → gives s' → view s = view s') : AgreeFrom Outline.Open view x x' where
  keeps _ _ _ ran := houses.keeps ran
  keeps' _ _ _ ran := houses'.keeps ran
  agree b b' a a' c c' start room ran ran' fits fits' := by
    obtain ⟨given, kept⟩ := houses.outline_eq ran room fits
    obtain ⟨given', kept'⟩ := houses'.outline_eq ran' (start ▸ room) fits'
    exact ⟨same a a' given given', by rw [kept, kept', start]⟩

end Houses

theorem houses_stackSlot (scope : Scope) (span : Span) :
    Houses scope span (stackSlot scope span) fun storage => storage.regs = [] := by
  intro b storage c ran
  unfold stackSlot at ran
  rw [StateT.run_bind, bind_eq_ok] at ran
  obtain ⟨⟨s, m⟩, got, ran⟩ := ran
  cases got
  dsimp only at ran
  split at ran
  · cases ran
    exact ⟨rfl, .inl rfl⟩
  · cases ran
    exact ⟨rfl, .inr rfl⟩

theorem houses_placeLocal (scope : Scope) (span : Span) :
    Houses scope span (placeLocal scope span) fun _ => True := by
  have (reg : UInt8) : Silent (modify fun b => { b with homes := reg :: b.homes }) := .of_modify fun _ => rfl
  have homed : Silent (do
      let reg ← allocate scope
      modify fun b => { b with homes := reg :: b.homes }
      return Storage.register reg) := inferInstance
  intro b storage c ran
  unfold placeLocal at ran
  rw [StateT.run_bind, bind_eq_ok] at ran
  obtain ⟨⟨s, m⟩, got, ran⟩ := ran
  cases got
  split at ran
  · exact ⟨trivial, .inl (homed.quiet.outline_eq ran)⟩
  · exact (houses_stackSlot scope span b storage c ran).imp_left fun _ => trivial

theorem run_unlessAtLimit (x : EmitM Unit) (b : Body) :
    (do if ← atLimit then return else x : EmitM Unit).run b =
      if b.strings.report.atLimit then .ok ((), b) else x.run b := by
  change (if b.strings.report.atLimit = true then pure () else x : EmitM Unit).run b = _
  split
  · rfl
  · rfl

theorem KeepsReport.unlessAtLimit {x : EmitM Unit} (keeps : KeepsReport x) :
    KeepsReport (do if ← atLimit then return else x) := by
  intro b a c ran
  rw [run_unlessAtLimit] at ran
  split at ran
  · cases ran
    exact id
  · exact keeps b a c ran

/-- Statements are emitted only while the report has room for another error. -/
theorem AgreeFrom.unlessAtLimit {x x' : EmitM Unit} (agrees : AgreeFrom Outline.Open id x x') :
    Agree id (do if ← atLimit then return else x) (do if ← atLimit then return else x') where
  keeps := agrees.keeps.unlessAtLimit
  keeps' := agrees.keeps'.unlessAtLimit
  agree b b' a a' c c' start _ ran ran' := by
    rw [run_unlessAtLimit] at ran ran'
    rw [← (Outline.mk.inj start).1] at ran'
    by_cases full : b.strings.report.atLimit = true
    · rw [if_pos full] at ran ran'
      cases ran
      cases ran'
      exact fun _ _ => ⟨rfl, start⟩
    · rw [if_neg full] at ran ran'
      exact agrees.agree b b' a a' c c' start (Bool.eq_false_iff.2 full) ran ran'

/-! ## Locals -/

theorem agree_addLocal (name : String) {l l' : Local} (same : l.unplaced = l'.unplaced) :
    Agree id (modify fun b => { b with locals := b.locals.add name l } : EmitM Unit)
      (modify fun b => { b with locals := b.locals.add name l' }) := by
  refine .of_modify (fun _ fits => fits) (fun _ fits => fits) ?_
  intro b b' start
  obtain ⟨strings, locals, returns⟩ := Outline.mk.inj start
  simp only [Body.outline, viewed_add, strings, locals, returns, same]

theorem viewed_markInitialized (t : SymbolTable Local) (index : Nat) :
    (t.modify index fun l => { l with initialized := true }).viewed Local.unplaced =
      (t.viewed Local.unplaced).modify index
        fun entry => (entry.1, { entry.2 with initialized := true }) := by
  apply t.viewed_modify index fun l : Local => { l with initialized := true }
  intro l
  rfl

theorem agree_markInitialized (name : String) : Agree id (markInitialized name) (markInitialized name) := by
  apply AgreeFrom.of_modify
  · intro b fits
    split at fits
    · exact fits
    · exact fits
  · intro b fits
    split at fits
    · exact fits
    · exact fits
  · intro b b' start
    obtain ⟨strings, locals, returns⟩ := Outline.mk.inj start
    rw [find?_congr locals]
    cases b'.locals.find? name with
    | none => exact start
    | some index =>
      simp only [Body.outline, viewed_markInitialized, strings, locals, returns]

section

variable (alike : scope.Alike scope')

include alike

theorem agree_emitScalar (var : VarDecl) :
    AgreeFrom Outline.Open id (emitScalar scope var) (emitScalar scope' var) := by
  have homes : AgreeFrom Outline.Open (fun _ => ()) (placeLocal scope var.span)
      (placeLocal scope' var.span) :=
    (houses_placeLocal scope var.span).agree (houses_placeLocal scope' var.span) fun _ _ _ _ => rfl
  apply AgreeFrom.bind homes
  intro storage storage' _
  apply seq (agree_addLocal var.name.name (by rfl))
  cases var.init with
  | none => exact .of_pure rfl
  | some init =>
    apply AgreeFrom.bind (agree_lowerValue alike init)
    intro v v' same
    apply of_ite (by rw [isFailed_congr same])
    · apply of_ite (by rw [ty_congr same, isLiteral_congr same])
      · apply past
        exact agree_markInitialized var.name.name
      · apply seq (agree_complain alike _ init.span (by rw [ty_congr same]))
        apply past
        exact agree_markInitialized var.name.name
    · exact agree_markInitialized var.name.name

theorem agree_emitElements (name : String) (handle handle' : UInt8) (elem : Ty) (i : Nat) (items : List Expr) :
    Agree id (emitElements scope name handle elem i items) (emitElements scope' name handle' elem i items) := by
  induction items generalizing i with
  | nil => exact .of_pure rfl
  | cons item items ih =>
    apply AgreeFrom.bind (agree_lowerValue alike item)
    intro v v' same
    apply of_ite (by rw [isFailed_congr same])
    · apply of_ite (by rw [ty_congr same, isLiteral_congr same])
      · apply skip
        intro value value'
        apply skip
        intro index index'
        apply past
        apply past
        apply past
        exact .past (ih (i + 1))
      · apply seq (agree_complain alike _ item.span (by rw [ty_congr same]))
        apply past
        exact ih (i + 1)
    · exact ih (i + 1)

theorem agree_createArray (var : VarDecl) (len : Nat) (items : List Expr) :
    AgreeFrom Outline.Open id (createArray scope var len items) (createArray scope' var len items) := by
  have slots : AgreeFrom Outline.Open Storage.regs (stackSlot scope var.span)
      (stackSlot scope' var.span) := by
    apply (houses_stackSlot scope var.span).agree (houses_stackSlot scope' var.span)
    intro s s' here here'
    rw [here, here']
  apply AgreeFrom.bind slots
  intro storage storage' same
  cases storage with
  | register reg =>
    cases storage' with
    | register reg' =>
      exact .of_silent fun _ _ => rfl
    | stack slot' => cases same
  | stack slot =>
    cases storage' with
    | register reg' => cases same
    | stack slot' =>
      apply seq (agree_addLocal var.name.name (by rfl))
      apply skip
      intro handle handle'
      apply skip
      intro count count'
      apply past
      apply past
      apply past
      apply seq (agree_emitElements alike _ handle handle' _ 0 items)
      apply past
      apply past
      exact agree_markInitialized var.name.name

theorem agree_emitVar (var : VarDecl) : AgreeFrom Outline.Open id (emitVar scope var) (emitVar scope' var) := by
  have array : AgreeFrom Outline.Open id (emitArray scope var) (emitArray scope' var) := by
    unfold emitArray
    cases arrayItems? var with
    | none => exact agree_complain alike _ var.span rfl
    | some items =>
      dsimp only
      split
      · exact agree_complain alike _ var.span rfl
      · exact agree_createArray alike var _ items
  apply bind_get
  intro s s' start
  rw [contains_congr (Outline.mk.inj start).2.1, alike.decls.globals, alike.decls.consts]
  apply of_ite Iff.rfl
  · exact agree_complain alike _ var.name.span rfl
  apply of_ite Iff.rfl
  · exact agree_complain alike _ var.name.span rfl
  apply of_ite Iff.rfl
  · exact agree_complain alike _ var.span rfl
  apply of_ite Iff.rfl
  · exact array
  · exact agree_emitScalar alike var

/-! ## Assignments -/

theorem agree_assignLocal (name : String) {l l' : Local} (same : l.unplaced = l'.unplaced) (span : Span)
    (value : Expr) : Agree id (assignLocal scope name l span value) (assignLocal scope' name l' span value) := by
  obtain ⟨ty, -, initialized, -⟩ := Local.mk.inj same
  unfold assignLocal
  rw [ty, initialized]
  apply of_ite Iff.rfl
  · exact agree_complain alike _ span rfl
  apply of_ite Iff.rfl
  · exact agree_complain alike _ span rfl
  apply AgreeFrom.bind (agree_lowerValue alike value)
  intro v v' same
  apply of_ite (by rw [isFailed_congr same])
  · apply of_ite (by rw [ty_congr same, isLiteral_congr same])
    · apply past
      exact agree_markInitialized name
    · apply seq (agree_complain alike _ value.span (by rw [ty_congr same]))
      apply past
      exact agree_markInitialized name
  · exact agree_markInitialized name

theorem agree_assignGlobal (name : String) (index : Nat) (ty : Ty) (span : Span) (value : Expr) :
    Agree id (assignGlobal scope name index ty span value) (assignGlobal scope' name index ty span value) := by
  apply of_ite Iff.rfl
  · exact agree_complain alike _ span rfl
  apply AgreeFrom.bind (agree_lowerValue alike value)
  intro v v' same
  apply of_ite (by rw [isFailed_congr same])
  · apply of_ite (by rw [ty_congr same, isLiteral_congr same])
    · exact .of_silent fun _ _ => rfl
    · apply seq (agree_complain alike _ value.span (by rw [ty_congr same]))
      exact .of_silent fun _ _ => rfl
  · exact .of_pure rfl

theorem agree_assignName (name : String) (span : Span) (value : Expr) :
    Agree id (assignName scope name span value) (assignName scope' name span value) := by
  apply bind_get
  intro s s' start
  have entries := lookup?_congr (Outline.mk.inj start).2.1 name
  rcases eq_none_or_eq_some_of_map_eq entries with
    ⟨here, here'⟩ | ⟨l, l', here, here', same⟩
  · rw [here, here']
    dsimp only
    rw [alike.decls.globals, alike.decls.consts]
    split
    · exact agree_assignGlobal alike name _ _ span value
    apply of_ite Iff.rfl
    · exact agree_complain alike _ span rfl
    · exact agree_complain alike _ span rfl
  · rw [here, here']
    exact agree_assignLocal alike name same span value

theorem agree_storeElement {array array' position position' v v' : Lowered}
    (first : array.unplaced = array'.unplaced) (second : position.unplaced = position'.unplaced)
    (third : v.unplaced = v'.unplaced) (valueSpan span : Span) :
    Agree id (storeElement scope array position v valueSpan span)
      (storeElement scope' array' position' v' valueSpan span) := by
  have dropped : Agree id (dropAll [array, position, v]) (dropAll [array', position', v']) :=
    .of_silent fun _ _ => rfl
  apply of_ite
    (by rw [isFailed_congr first, isFailed_congr second, isFailed_congr third])
  · exact dropped
  rw [ty_congr first, ty_congr third, isLiteral_congr third]
  apply AgreeFrom.bind (agree_checkElement alike array'.ty second span)
  rintro fine _ rfl
  apply of_ite Iff.rfl
  · exact dropped
  apply of_ite Iff.rfl
  · exact .seq (agree_complain alike _ valueSpan rfl) dropped
  · exact .of_silent fun _ _ => rfl

theorem agree_assignElement (array position value : Expr) (span : Span) :
    Agree id (assignElement scope array position value span) (assignElement scope' array position value span) := by
  apply AgreeFrom.bind (agree_lowerValue alike array)
  intro a a' same
  apply AgreeFrom.bind (agree_readBefore same position)
  intro a a' first
  apply AgreeFrom.bind (agree_lowerValue alike position)
  intro i i' same
  apply AgreeFrom.bind (agree_readBefore same value)
  intro i i' second
  apply AgreeFrom.bind (agree_lowerValue alike value)
  intro v v' third
  exact agree_storeElement alike first second third value.span span

theorem agree_emitAssign (target value : Expr) (span : Span) :
    Agree id (emitAssign scope target value span) (emitAssign scope' target value span) := by
  unfold emitAssign
  split
  · exact agree_assignName alike _ target.span value
  · exact agree_assignElement alike _ _ value span
  · exact .of_pure rfl

/-! ## Returns and conditions -/

theorem agree_emitReturnValue (e : Expr) (tail : Tail) :
    Agree (fun _ => ()) (emitReturnValue scope e tail) (emitReturnValue scope' e tail) := by
  apply AgreeFrom.bind (agree_lowerValue alike e)
  intro v v' same
  apply of_ite (by rw [isFailed_congr same])
  · exact .of_pure rfl
  apply of_ite (by rw [alike.ret, ty_congr same, isLiteral_congr same])
  · apply seq
      (agree_complain alike _ e.span (by rw [alike.name, alike.ret, ty_congr same]))
    exact .past (.of_pure rfl)
  have : Silent (modify fun b => { b with isFinished := true }) := .of_modify fun _ => rfl
  apply bind_get
  intro s s' _
  apply skip
  intro owns owns'
  refine @AgreeFrom.of_silent _ _ _ _ _ _ ?_ ?_ fun _ _ => rfl
  · dsimp only
    split <;> infer_instance
  · dsimp only
    split <;> infer_instance

theorem agree_emitReturn (value : Option Expr) (span : Span) (tail : Tail) :
    Agree id (emitReturn scope value span tail) (emitReturn scope' value span tail) := by
  have counted : Agree id (modify fun b => { b with returns := b.returns + 1 } : EmitM Unit)
      (modify fun b => { b with returns := b.returns + 1 }) := by
    refine .of_modify (fun _ fits => fits) (fun _ fits => fits) ?_
    intro b b' start
    obtain ⟨strings, locals, returns⟩ := Outline.mk.inj start
    simp only [Body.outline, strings, locals, returns]
  apply AgreeFrom.bind counted
  intro _ _ _
  cases value with
  | none =>
    apply of_ite (by rw [alike.ret])
    · apply seq (agree_complain alike _ span (by rw [alike.name, alike.ret]))
      exact .of_silent fun _ _ => rfl
    · exact .of_silent fun _ _ => rfl
  | some e =>
    apply of_ite (by rw [alike.ret])
    · apply seq (agree_complain alike _ e.span (by rw [alike.name]))
      exact .of_silent fun _ _ => rfl
    · apply AgreeFrom.bind (agree_emitReturnValue alike e tail)
      intro ended ended' _
      exact .of_silent fun _ _ => rfl

/-- Jump unless a value is zero. -/
def testValue (scope : Scope) (span : Span) (elseLabel : Label) (v : Lowered) : EmitM Unit := do
  if !v.ty.isScalar || v.ty.isFloat then
    complain scope .invalidOperand s!"a condition of type {v.ty.text} cannot be tested" span
    drop v
  else
    let o ← operand scope v
    emitInsn (.testz o.reg)
    release o
    onCode (·.jump .eq elseLabel)

theorem agree_testValue (span : Span) (elseLabel elseLabel' : Label) {v v' : Lowered}
    (same : v.unplaced = v'.unplaced) :
    Agree id (testValue scope span elseLabel v) (testValue scope' span elseLabel' v') := by
  unfold testValue
  rw [ty_congr same]
  apply of_ite Iff.rfl
  · apply seq (agree_complain alike _ span rfl)
    exact .of_silent fun _ _ => rfl
  · exact .of_silent fun _ _ => rfl

theorem agree_emitCondition (cond : Expr) (elseLabel elseLabel' : Label) :
    Agree id (emitCondition scope cond elseLabel) (emitCondition scope' cond elseLabel') := by
  apply AgreeFrom.bind (agree_lowerExpr alike cond)
  intro v v' same
  rcases Lowered.place_cases same with ⟨here, here'⟩ | ⟨here, here'⟩ | ⟨here, here'⟩ | ⟨here, here'⟩
  · rw [here, here']
    exact .of_pure rfl
  · rw [here, here']
    exact agree_complain alike _ cond.span rfl
  · rw [here, here']
    refine @AgreeFrom.of_silent _ _ _ _ _ _ ?_ ?_ fun _ _ => rfl
    · dsimp only
      split <;> infer_instance
    · dsimp only
      split <;> infer_instance
  · refine .of_eq ?_ ?_ (agree_testValue alike cond.span elseLabel elseLabel' same)
    · split
      · next flags => exact absurd flags here.2.2
      · next failed => exact absurd failed here.1
      · next nothing => exact absurd nothing here.2.1
      · rfl
    · split
      · next flags => exact absurd flags here'.2.2
      · next failed => exact absurd failed here'.1
      · next nothing => exact absurd nothing here'.2.1
      · rfl

/-! ## Statements -/

set_option linter.unusedSectionVars false in
mutual

theorem agree_emitStmt (tail : Tail) : (stmt : Stmt) →
    AgreeFrom Outline.Open id (emitStmt scope tail stmt) (emitStmt scope' tail stmt)
  | .var var => agree_emitVar alike var
  | .assign target value span => .of_agree (agree_emitAssign alike target value span)
  | .ret value span => .of_agree (agree_emitReturn alike value span tail)
  | .branch chain => .of_agree (agree_emitConditional tail chain)
  | .expr e _ => by
    rw [emitStmt, emitStmt]
    apply AgreeFrom.of_agree
    apply AgreeFrom.bind (agree_lowerExpr alike e)
    intro v v' _
    exact .of_silent fun _ _ => rfl
  | .block (.mk stmts _) => .of_agree (agree_emitStmts tail.inside stmts)

theorem agree_emitStmts (tail : Tail) : (stmts : List Stmt) →
    Agree id (emitStmts scope tail stmts) (emitStmts scope' tail stmts)
  | [] => .of_pure rfl
  | stmt :: stmts => by
    rw [emitStmts, emitStmts]
    apply AgreeFrom.unlessAtLimit
    apply seq (agree_emitStmt _ stmt)
    exact agree_emitStmts tail stmts

theorem agree_emitConditional (tail : Tail) : (chain : Conditional) →
    Agree id (emitConditional scope tail chain) (emitConditional scope' tail chain)
  | .mk cond (.mk stmts _) otherwise _ => by
    rw [emitConditional, emitConditional, emitBlock, emitBlock]
    apply skip
    intro elseLabel elseLabel'
    apply seq (agree_emitCondition alike cond elseLabel elseLabel')
    apply of_ite Iff.rfl
    · apply seq (agree_emitStmts tail.inside stmts)
      exact .of_silent fun _ _ => rfl
    · apply skip
      intro endLabel endLabel'
      have ends : Agree id
          (do
            onCode (·.bind elseLabel)
            emitOtherwise scope tail.inside otherwise
            onCode (·.bind endLabel))
          (do
            onCode (·.bind elseLabel')
            emitOtherwise scope' tail.inside otherwise
            onCode (·.bind endLabel')) := by
        apply past
        apply seq (agree_emitOtherwise tail.inside otherwise)
        exact .of_silent fun _ _ => rfl
      apply seq (agree_emitStmts .no stmts)
      apply of_ite Iff.rfl
      · exact .past ends
      · exact ends

theorem agree_emitOtherwise (tail : Tail) : (otherwise : Otherwise) →
    Agree id (emitOtherwise scope tail otherwise) (emitOtherwise scope' tail otherwise)
  | .absent => .of_pure rfl
  | .elif chain => agree_emitConditional tail chain
  | .orElse (.mk stmts _) => agree_emitStmts tail stmts

end

/-! ## Bodies -/

theorem agree_checkReturns (name : Ident) (body : Block) :
    Agree id (checkReturns scope name body) (checkReturns scope' name body) := by
  apply of_ite (by rw [alike.ret])
  · apply bind_get
    intro s s' start
    apply of_ite (by rw [(Outline.mk.inj start).2.2])
    · exact agree_complain alike _ name.span (by rw [alike.name, alike.ret])
    apply of_ite Iff.rfl
    · exact agree_complain alike _ name.span (by rw [alike.name])
    · exact .of_pure rfl
  · exact .of_pure rfl

theorem agree_emitBody (name : Ident) (body : Block) :
    Agree id (emitBody scope name body) (emitBody scope' name body) := by
  apply bind_get
  intro s s' _
  apply past
  apply seq (agree_emitStmts alike .body body.stmts)
  apply seq (agree_checkReturns alike name body)
  exact .of_silent fun _ _ => rfl

end

theorem Function.isNative_congr (same : f.outline = f'.outline) : f.isNative = f'.isNative := by
  have native : f.native = f'.native := congrArg Outline.native same
  rw [isNative, native, isNative]

theorem Declarations.Alike.refl (d : Declarations) : d.Alike d :=
  ⟨rfl, rfl, rfl⟩

section

variable {source : SourceText} {settings settings' : EmitSettings} {decls decls' : Declarations} {done done' : Emitted}

/-- The scope of a function. -/
def functionScope (source : SourceText) (settings : EmitSettings) (decls : Declarations) (name : Ident)
    (f : Function) : Scope :=
  ⟨source, settings, decls, name.name, f.ret, f.stackArgs, CodeBuffer.empty.newLabel.1⟩

theorem functionScope_alike (source : SourceText) (settings settings' : EmitSettings) (alike : decls.Alike decls')
    (name : Ident) (same : f.outline = f'.outline) :
    (functionScope source settings decls name f).Alike (functionScope source settings' decls' name f') :=
  ⟨rfl, rfl, congrArg Function.Outline.ret same, alike⟩

variable {name : Ident} {body : Block} {index : Nat} {start : Emitted} {functions : List (FunctionDecl × Option Nat)}

theorem body_of_emitFunction (emitted : emitFunction source settings decls name body index f done = .ok done') :
    ∃ b, (emitBody (functionScope source settings decls name f) name body).run
        (Body.initial done.strings f.locals).2 = .ok ((), b) ∧ done'.strings = b.strings := by
  rw [emitFunction] at emitted
  obtain ⟨⟨⟨⟩, b⟩, ran, emitted⟩ := bind_eq_ok.1 emitted
  obtain ⟨code, -, emitted⟩ := bind_eq_ok.1 emitted
  cases emitted
  exact ⟨b, ran, rfl⟩

theorem slotsFit_emitFunction (emitted : emitFunction source settings decls name body index f done = .ok done')
    (fits : done'.strings.report.SlotsFit) : done.strings.report.SlotsFit := by
  obtain ⟨b, ran, strings⟩ := body_of_emitFunction emitted
  have alike := functionScope_alike source settings settings (.refl decls) name (Eq.refl f.outline)
  rw [strings] at fits
  exact (agree_emitBody alike name body).keeps _ () b ran fits

theorem strings_emitFunction (alike : decls.Alike decls') (same : f.outline = f'.outline) {start' : Emitted}
    (strings : start.strings = start'.strings)
    (emitted : emitFunction source settings decls name body index f start = .ok done)
    (emitted' : emitFunction source settings' decls' name body index f' start' = .ok done')
    (fits : done.strings.report.SlotsFit) (fits' : done'.strings.report.SlotsFit) : done.strings = done'.strings := by
  obtain ⟨b, ran, given⟩ := body_of_emitFunction emitted
  obtain ⟨b', ran', given'⟩ := body_of_emitFunction emitted'
  have outlines : (Body.initial start.strings f.locals).2.outline =
      (Body.initial start'.strings f'.locals).2.outline := by
    change Outline.mk start.strings f.outline.locals 0 = ⟨start'.strings, f'.outline.locals, 0⟩
    rw [strings, same]
  rw [given] at fits ⊢
  rw [given'] at fits' ⊢
  have scopes := functionScope_alike source settings settings' alike name same
  have agrees := agree_emitBody scopes name body
  obtain ⟨-, met⟩ := agrees.agree _ _ () () b b' outlines trivial ran ran' fits fits'
  exact congrArg Outline.strings met

theorem slotsFit_emitFunctions (ran : emitFunctions source settings decls functions start = .ok done)
    (fits : done.strings.report.SlotsFit) : start.strings.report.SlotsFit := by
  induction functions generalizing start with
  | nil =>
    cases ran
    exact fits
  | cons function functions ih =>
    unfold emitFunctions at ran
    split at ran
    · cases ran
      exact fits
    split at ran
    · split at ran
      · cases ran
      split at ran
      · exact ih ran
      · obtain ⟨next, emitted, ran⟩ := bind_eq_ok.1 ran
        exact slotsFit_emitFunction emitted (ih ran)
    · exact ih ran

theorem strings_emitFunctions (alike : decls.Alike decls') {start' : Emitted}
    (strings : start.strings = start'.strings) (ran : emitFunctions source settings decls functions start = .ok done)
    (ran' : emitFunctions source settings' decls' functions start' = .ok done') (fits : done.strings.report.SlotsFit)
    (fits' : done'.strings.report.SlotsFit) : done.strings = done'.strings := by
  induction functions generalizing start start' with
  | nil =>
    cases ran
    cases ran'
    exact strings
  | cons function functions ih =>
    obtain ⟨decl, index?⟩ := function
    unfold emitFunctions at ran ran'
    rw [← strings] at ran'
    split at ran
    · next full =>
      rw [if_pos full] at ran'
      cases ran
      cases ran'
      exact strings
    next room =>
    rw [if_neg room] at ran'
    cases index? with
    | none => exact ih strings ran ran'
    | some index =>
    cases body : decl.body with
    | none =>
      rw [body] at ran ran'
      exact ih strings ran ran'
    | some block =>
      rw [body] at ran ran'
      dsimp only at ran ran'
      rcases eq_none_or_eq_some_of_map_eq (get?_congr alike.functions index) with
        ⟨here, here'⟩ | ⟨f, f', here, here', same⟩
      · rw [here] at ran
        cases ran
      rw [here] at ran
      rw [here'] at ran'
      dsimp only at ran ran'
      rw [← Function.isNative_congr same] at ran'
      split at ran
      · next linked =>
        rw [if_pos linked] at ran'
        exact ih strings ran ran'
      · next own =>
        rw [if_neg own] at ran'
        obtain ⟨next, emitted, ran⟩ := bind_eq_ok.1 ran
        obtain ⟨next', emitted', ran'⟩ := bind_eq_ok.1 ran'
        have between := strings_emitFunction alike same strings emitted emitted'
          (slotsFit_emitFunctions ran fits) (slotsFit_emitFunctions ran' fits')
        exact ih between ran ran'

end

/-! ## Declarations -/

namespace Declared

/-- The same declarations so far, at two levels of optimisation and for the same kind of file. -/
structure Alike (level level' : OptLevel) (d d' : Declared) : Prop where
  source : d.source = d'.source
  level : d.settings.optLevel = level
  level' : d'.settings.optLevel = level'
  fileType : d.settings.fileType = d'.settings.fileType
  strings : d.strings = d'.strings
  decls : d.decls.Alike d'.decls

theorem conventionOf_declareLink (d : Declared) (decl : FunctionDecl) :
    ((d.declareLink decl).2.conventionOf decl (d.declareLink decl).1.isSome).1 =
      decl.conventionAt d.settings.optLevel := by
  unfold declareLink conventionOf FunctionDecl.conventionAt
  cases decl.linkage with
  | none | some _ => rfl

namespace Alike

variable {level level' : OptLevel} {d d' : Declared} (alike : Alike level level' d d')

include alike

theorem complain (code : Code) (message : String) (span : Span) :
    Alike level level' (d.complain code message span) (d'.complain code message span) :=
  { alike with strings := by rw [Declared.complain, Declared.complain, alike.strings, alike.source] }

theorem complain_if {p : Prop} [Decidable p] (code : Code) (message : String) (span : Span) :
    Alike level level' (if p then d.complain code message span else d)
      (if p then d'.complain code message span else d') := by
  split
  · exact alike.complain code message span
  · exact alike

theorem intern (text : String) (span : Span) : (d.intern text span).1 = (d'.intern text span).1 ∧
      Alike level level' (d.intern text span).2 (d'.intern text span).2 := by
  have same : d.strings.intern d.source text span = d'.strings.intern d'.source text span := by
    rw [alike.strings, alike.source]
  obtain ⟨index, strings⟩ := Prod.mk.inj same
  exact ⟨index, alike.source, alike.level, alike.level', alike.fileType, strings, alike.decls⟩

theorem declareLink (decl : FunctionDecl) : (d.declareLink decl).1 = (d'.declareLink decl).1 ∧
      Alike level level' (d.declareLink decl).2 (d'.declareLink decl).2 := by
  unfold Declared.declareLink
  cases decl.linkage with
  | none => exact ⟨rfl, alike⟩
  | some link =>
    obtain ⟨library, first⟩ := alike.intern link.library link.span
    obtain ⟨symbol, second⟩ := first.intern (link.symbol.getD decl.name.name) link.span
    dsimp only
    rw [library, symbol]
    exact ⟨rfl, second⟩

theorem isTaken_eq (name : String) : d.decls.isTaken name = d'.decls.isTaken name := by
  rw [Declarations.isTaken, Declarations.isTaken, alike.decls.globals, alike.decls.consts,
    contains_congr alike.decls.functions]

theorem checkParam {earlier earlier' : SymbolTable Local}
    (same : earlier.viewed Local.unplaced = earlier'.viewed Local.unplaced) (param : Param) :
    Alike level level' (d.checkParam earlier param) (d'.checkParam earlier' param) := by
  unfold Declared.checkParam
  dsimp only
  rw [contains_congr same, alike.decls.globals]
  apply complain_if
  split
  · exact alike.complain ..
  · exact alike.complain_if ..

/-- The names and types of parameters do not depend on how many of them travel in registers. -/
theorem declareParams (registerArgs stackArgs registerArgs' stackArgs' p : Nat) (params : List Param)
    {locals locals' : SymbolTable Local} (same : locals.viewed Local.unplaced = locals'.viewed Local.unplaced) :
    (declareParams registerArgs stackArgs p params locals d).1.viewed Local.unplaced =
        (declareParams registerArgs' stackArgs' p params locals' d').1.viewed Local.unplaced ∧
      Alike level level' (declareParams registerArgs stackArgs p params locals d).2
        (declareParams registerArgs' stackArgs' p params locals' d').2 := by
  induction params generalizing p d d' locals locals' with
  | nil => exact ⟨same, alike⟩
  | cons param params ih =>
    rw [Declared.declareParams, Declared.declareParams]
    apply ih (alike.checkParam same param)
    rw [viewed_add, viewed_add, same]
    rfl

theorem conventionOf (decl : FunctionDecl) (native : Bool) :
    Alike level level' (d.conventionOf decl native).2 (d'.conventionOf decl native).2 := by
  unfold Declared.conventionOf
  split
  · exact alike.complain_if ..
  · exact alike

theorem resolveEntry (span : Span) : Alike level level' (d.resolveEntry span).2 (d'.resolveEntry span).2 := by
  unfold Declared.resolveEntry
  rw [find?_congr alike.decls.functions, alike.fileType]
  cases d'.decls.functions.find? "Main" with
  | none =>
    dsimp only
    split
    · exact alike.complain ..
    · exact alike
  | some index =>
    rcases eq_none_or_eq_some_of_map_eq
        (get?_congr alike.decls.functions index) with
      ⟨here, here'⟩ | ⟨f, f', here, here', same⟩
    · dsimp only
      rw [here, here']
      exact alike
    · obtain ⟨-, params, -, -, place⟩ := Function.Outline.mk.inj same
      dsimp only
      rw [here, here']
      dsimp only
      rw [params, place, Function.isNative_congr same]
      split
      · exact alike.complain ..
      · split
        · exact alike.complain ..
        · exact alike

theorem addFunction (name : String) (same : f.outline = f'.outline) :
    Alike level level' { d with decls := { d.decls with functions := d.decls.functions.add name f } }
      { d' with decls := { d'.decls with functions := d'.decls.functions.add name f' } } := by
  refine { alike with decls := ⟨alike.decls.globals, alike.decls.consts, ?_⟩ }
  rw [viewed_add, viewed_add, alike.decls.functions, same]

/-- A function is declared alike when its parameters fit under both settings. -/
theorem declareFunction {decl : FunctionDecl} (fits : decl.stackArgsAt level ≤ 65535)
    (fits' : decl.stackArgsAt level' ≤ 65535) : (d.declareFunction decl).1 = (d'.declareFunction decl).1 ∧
      Alike level level' (d.declareFunction decl).2 (d'.declareFunction decl).2 := by
  obtain ⟨native, linked⟩ := alike.declareLink decl
  have chosen := linked.conventionOf decl (d'.declareLink decl).1.isSome
  unfold Declared.declareFunction
  dsimp only
  rw [alike.isTaken_eq]
  split
  · exact ⟨rfl, alike⟩
  split
  · exact ⟨rfl, alike.complain ..⟩
  rw [FunctionDecl.stackArgsAt] at fits fits'
  rw [conventionOf_declareLink, conventionOf_declareLink, alike.level, alike.level', if_neg (Nat.not_lt.2 fits),
    if_neg (Nat.not_lt.2 fits'), native]
  obtain ⟨locals, declared⟩ := chosen.declareParams
    ((decl.conventionAt level).registerArgs decl.params.length)
    (decl.params.length - (decl.conventionAt level).registerArgs decl.params.length)
    ((decl.conventionAt level').registerArgs decl.params.length)
    (decl.params.length - (decl.conventionAt level').registerArgs decl.params.length)
    0 decl.params (Eq.refl (empty.viewed _))
  refine ⟨congrArg some (size_congr declared.decls.functions), ?_⟩
  apply declared.addFunction
  simp only [Function.outline, locals]

theorem declareFunctions {decls : List FunctionDecl} (fits : ∀ decl ∈ decls, decl.stackArgsAt level ≤ 65535)
    (fits' : ∀ decl ∈ decls, decl.stackArgsAt level' ≤ 65535) (indices : List (Option Nat)) :
    (d.declareFunctions decls indices).1 = (d'.declareFunctions decls indices).1 ∧
      Alike level level' (d.declareFunctions decls indices).2 (d'.declareFunctions decls indices).2 := by
  induction decls generalizing d d' indices with
  | nil => exact ⟨rfl, alike⟩
  | cons decl decls ih =>
    obtain ⟨index, declared⟩ :=
      alike.declareFunction (fits decl (List.mem_cons_self ..)) (fits' decl (List.mem_cons_self ..))
    rw [Declared.declareFunctions]
    dsimp only
    rw [index]
    apply ih declared
    · exact fun other member => fits other (List.mem_cons_of_mem decl member)
    · exact fun other member => fits' other (List.mem_cons_of_mem decl member)

end Alike

end Declared

/-- The declarations of a program do not depend on the level of optimisation, except for where parameters
are. -/
theorem declareProgram_alike (source : SourceText) (fileType : FileType) {program : Program}
    {level level' : OptLevel} (fits : program.ParamsFit level) (fits' : program.ParamsFit level') :
    (declareProgram source ⟨level, fileType⟩ program).decls.Alike
        (declareProgram source ⟨level', fileType⟩ program).decls ∧
      (declareProgram source ⟨level, fileType⟩ program).strings =
        (declareProgram source ⟨level', fileType⟩ program).strings ∧
      (declareProgram source ⟨level, fileType⟩ program).indices =
        (declareProgram source ⟨level', fileType⟩ program).indices := by
  let start : Declared := ⟨source, ⟨level, fileType⟩, .empty, .empty⟩
  have items : Declared.Alike level level' (program.items.foldl Declared.declareItem start)
      (program.items.foldl Declared.declareItem ⟨source, ⟨level', fileType⟩, .empty, .empty⟩) := by
    have other := Declared.declareItems_under ⟨level', fileType⟩ start program.items
    have same := Declared.declareItems_under ⟨level, fileType⟩ start program.items
    change program.items.foldl Declared.declareItem start = _ at same
    change program.items.foldl Declared.declareItem ⟨source, ⟨level', fileType⟩, .empty, .empty⟩ = _ at other
    rw [other, same]
    exact ⟨rfl, rfl, rfl, rfl, rfl, .refl _⟩
  obtain ⟨indices, functions⟩ := items.declareFunctions fits fits' []
  have entry := functions.resolveEntry program.span
  exact ⟨entry.decls, entry.strings, indices⟩

end Emission

open Emission

/-- Diagnostics do not depend on the level of optimisation: when emission comes to an end at two levels,
and no function has too many parameters or slots at either of them, both give the same report. -/
theorem report_uniform {program : Program} {source : SourceText} {fileType : FileType}
    {level level' : OptLevel} {output output' : EmitOutput}
    (emitted : emit program source ⟨level, fileType⟩ = .ok output)
    (emitted' : emit program source ⟨level', fileType⟩ = .ok output')
    (params : program.ParamsFit level) (params' : program.ParamsFit level')
    (slots : output.report.SlotsFit) (slots' : output'.report.SlotsFit) : output.report = output'.report := by
  obtain ⟨decls, strings, indices⟩ := declareProgram_alike source fileType params params'
  rw [emit] at emitted emitted'
  obtain ⟨done, ran, made⟩ := bind_eq_ok.1 emitted
  obtain ⟨done', ran', made'⟩ := bind_eq_ok.1 emitted'
  cases made
  cases made'
  rw [indices] at ran
  exact congrArg Strings.report (strings_emitFunctions decls strings ran ran' slots slots')

/-- A program with five mistakes, in operands, elements, arguments and results. -/
def waveringText : SourceText where
  name := "wavering"
  text := "fn F(a: Int, b: Float): Int \x7b var c: Int = a + b; var d: Int[2] = [c, \"x\"]; return d; \x7d " ++
    "fn Main(): Int \x7b var e: Int; return F(e) + F(1, e); \x7d"

theorem report_uniform_wavering :
    ∃ output output', emit (parse waveringText).1 waveringText ⟨.plain, .executable⟩ = .ok output ∧
      emit (parse waveringText).1 waveringText ⟨.fast, .executable⟩ = .ok output' ∧
      (parse waveringText).1.ParamsFit .plain ∧ (parse waveringText).1.ParamsFit .fast ∧
      output.report.SlotsFit ∧ output'.report.SlotsFit ∧ output.stats ≠ output'.stats ∧
      output.report.totalErrors = 5 ∧ output.report = output'.report := by
  have params : ∀ decl ∈ (parse waveringText).1.functions, decl.stackArgsAt .plain ≤ 65535 := by
    decide +kernel
  have params' : ∀ decl ∈ (parse waveringText).1.functions, decl.stackArgsAt .fast ≤ 65535 := by
    decide +kernel
  have plain : (emit (parse waveringText).1 waveringText ⟨.plain, .executable⟩).toOption.map
      (fun output => (output.report.errors.toList.map Diagnostic.code, output.report.totalErrors,
        output.stats.map FunctionStats.codeSize)) =
      some ([⟨201⟩, ⟨201⟩, ⟨201⟩, ⟨202⟩, ⟨302⟩], 5, [24, 5]) := by
    decide +kernel
  have fast : (emit (parse waveringText).1 waveringText ⟨.fast, .executable⟩).toOption.map
      (fun output => (output.report.errors.toList.map Diagnostic.code, output.stats.map FunctionStats.codeSize)) =
      some ([⟨201⟩, ⟨201⟩, ⟨201⟩, ⟨202⟩, ⟨302⟩], [20, 5]) := by
    decide +kernel
  have fits {report : Report}
      (codes : report.errors.toList.map Diagnostic.code = [⟨201⟩, ⟨201⟩, ⟨201⟩, ⟨202⟩, ⟨302⟩]) :
      report.SlotsFit := by
    intro d member limit
    have known := List.mem_map_of_mem (f := Diagnostic.code) (Array.mem_toList_iff.2 member)
    rw [codes, limit] at known
    exact absurd known (by decide)
  generalize (parse waveringText).1 = program at params params' plain fast ⊢
  cases emitted : emit program waveringText ⟨.plain, .executable⟩ with
  | error e =>
    rw [emitted] at plain
    cases plain
  | ok output =>
    cases emitted' : emit program waveringText ⟨.fast, .executable⟩ with
    | error e =>
      rw [emitted'] at fast
      cases fast
    | ok output' =>
      rw [emitted] at plain
      rw [emitted'] at fast
      obtain ⟨codes, counts⟩ := Prod.mk.inj (Option.some.inj plain)
      obtain ⟨errors, sizes⟩ := Prod.mk.inj counts
      obtain ⟨codes', sizes'⟩ := Prod.mk.inj (Option.some.inj fast)
      have differ : output.stats ≠ output'.stats := by
        intro same
        rw [same, sizes'] at sizes
        cases sizes
      exact ⟨output, output', rfl, rfl, params, params', fits codes, fits codes', differ, errors,
        report_uniform emitted emitted' params params' (fits codes) (fits codes')⟩

end RegisterLang
