import RegisterLang.Proofs.Lifetimes

/-! # Returns

A call of a function can be evaluated beside a log of the statements that it executes. A statement that returns is
the last of them, and its value is that of the call; a function with a result always comes to one. Main statement:
`executeMain_returns`.
-/

namespace RegisterLang

namespace Evaluation

variable {ω : Type}

/-- What a call does: it executes a statement that does not return, or returns with a value. -/
inductive Entry where
  | executes (stmt : Stmt)
  | returns (value : Option Expr) (v : Value)

def Entry.isReturn : Entry → Bool
  | executes _ => false
  | returns .. => true

/-- A log is that of a call up to where it goes on or returns: only the last event is a return, and of that value. -/
inductive Closes (log : List Entry) : Flow → Prop where
  | next (none : ∀ event ∈ log, event.isReturn = false) : Closes log .next
  | ret (before : List Entry) {value : Option Expr} {v : Value} (none : ∀ event ∈ before, event.isReturn = false)
      (last : log = before ++ [.returns value v]) : Closes log (.ret v)

theorem Closes.append {log more : List Entry} {flow : Flow} (first : Closes log .next) (second : Closes more flow) :
    Closes (log ++ more) flow := by
  cases first with
  | next none =>
    cases second with
    | next none' => exact .next fun event member => (List.mem_append.1 member).elim (none event) (none' event)
    | @ret before value v none' last =>
      refine .ret (log ++ before) (fun event member => ?_) (by rw [last, List.append_assoc])
      exact (List.mem_append.1 member).elim (none event) (none' event)

theorem Closes.single (stmt : Stmt) : Closes [.executes stmt] .next :=
  .next (by simp [Entry.isReturn])

/-- What the end of a statement without blocks is logged as. -/
def Entry.of : Stmt → Flow → Entry
  | .ret value _, .ret v => returns value v
  | stmt, _ => executes stmt

/-- How statements are evaluated beside a log. A statement with others inside of it is logged before them. -/
def Meaning.logging (m : Meaning ω) : Executor ω (Locals × List Entry) where
  plain s stmt := do
    let (locals, flow) ← m.evalPlain s.1 stmt
    return ((locals, s.2 ++ [.of stmt flow]), flow)
  test s := m.condition s.1
  enter stmt s := (s.1, s.2 ++ [.executes stmt])

/-- One of two evaluations keeps a log, which it closes; the other does not. -/
structure Logs (x : Locals × List Entry → Eval ω ((Locals × List Entry) × Flow))
    (y : Locals → Eval ω (Locals × Flow)) : Prop where
  erase : ∀ locals log, (fun r => (r.1.1, r.2)) <$> x (locals, log) = y locals
  closes : ∀ locals log, Closes log .next → Always (fun r => Closes r.1.2 r.2) (x (locals, log))

namespace Logs

variable {m : Meaning ω} {x x' : Locals × List Entry → Eval ω ((Locals × List Entry) × Flow)}
  {y y' : Locals → Eval ω (Locals × Flow)}

theorem plain {stmt : Stmt}
    (flows : ∀ locals, Always (fun r => Closes [.of stmt r.2] r.2) (m.evalPlain locals stmt)) :
    Logs (m.logging.plain · stmt) (m.evalPlain · stmt) where
  erase locals log := by
    unfold Meaning.logging
    dsimp only
    rw [map_bind]
    exact bind_pure _
  closes locals log closes := .bind (flows locals) fun _ more => .pure (closes.append more)

theorem nil : Logs (ω := ω) (fun s => return (s, .next)) fun locals => return (locals, .next) :=
  ⟨fun _ _ => rfl, fun _ _ closes => .pure closes⟩

theorem enter (stmt : Stmt) (logs : Logs x y) : Logs (fun s => x (m.logging.enter stmt s)) y :=
  ⟨fun locals _ => logs.erase locals _, fun locals _ closes => logs.closes locals _ (closes.append (.single stmt))⟩

theorem seq (first : Logs x y) (second : Logs x' y') :
    Logs (fun s => (x s).andThen x') fun locals => (y locals).andThen y' where
  erase locals log := by
    unfold Eval.andThen
    rw [map_bind, ← first.erase locals log, bind_map_left]
    refine congrArg _ (funext ?_)
    rintro ⟨⟨locals, log⟩, flow⟩
    cases flow with
    | ret v => rfl
    | next => exact second.erase locals log
  closes locals log closes := by
    refine .bind (first.closes locals log closes) ?_
    rintro ⟨⟨locals, log⟩, flow⟩ closes
    cases flow with
    | ret v => exact .pure closes
    | next => exact second.closes locals log closes

theorem ite (cond : Expr) (first : Logs x y) (second : Logs x' y') : Logs
      (fun s => m.condition s.1 cond >>= fun taken => if taken then x s else x' s)
      fun locals => m.condition locals cond >>= fun taken => if taken then y locals else y' locals where
  erase locals log := by
    rw [map_bind]
    refine congrArg _ (funext fun taken => ?_)
    cases taken with
    | true => exact first.erase locals log
    | false => exact second.erase locals log
  closes locals log closes := by
    refine .bind (.trivial _) fun taken _ => ?_
    cases taken with
    | true => exact first.closes locals log closes
    | false => exact second.closes locals log closes

end Logs

namespace Meaning

variable (m : Meaning ω)

mutual

theorem logs_stmt : (stmt : Stmt) → Logs (m.logging.stmt · stmt) (m.executor.stmt · stmt)
  | .var _ | .assign .. | .expr .. => .plain fun _ => .bind (.trivial _) fun _ _ => .pure (.single _)
  | .ret none _ => .plain fun _ => .pure (.ret [] (by simp) rfl)
  | .ret (some _) _ => .plain fun _ => .bind (.trivial _) fun _ _ => .pure (.ret [] (by simp) rfl)
  | .branch chain => .enter _ (logs_conditional chain)
  | .block (.mk stmts _) => .enter _ (logs_stmts stmts)

theorem logs_stmts : (stmts : List Stmt) → Logs (m.logging.stmts · stmts) (m.evalStmts · stmts)
  | [] => .nil
  | stmt :: stmts => .seq (logs_stmt stmt) (logs_stmts stmts)

theorem logs_conditional :
    (chain : Conditional) → Logs (m.logging.conditional · chain) (m.executor.conditional · chain)
  | .mk cond (.mk stmts _) otherwise _ => .ite cond (logs_stmts stmts) (logs_otherwise otherwise)

theorem logs_otherwise :
    (otherwise : Otherwise) → Logs (m.logging.otherwise · otherwise) (m.executor.otherwise · otherwise)
  | .absent => .nil
  | .elif chain => logs_conditional chain
  | .orElse (.mk stmts _) => logs_stmts stmts

end

end Meaning

namespace Linked

variable (u : Linked ω) (invoke : Nat → List Value → Eval ω Value) (decl : FunctionDecl) (body : Block)
  (args : List Value)

/-- Run the body of a function, then destroy its arrays; keep a log of the statements. -/
def logBody : Eval ω (Value × List Entry) := do
  let m := u.meaning invoke (localTypes decl.params body)
  let ((locals, log), flow) ← m.logging.stmts (bindParams decl.params args, []) body.stmts
  let v ← endBody decl body locals flow
  return (v, log)

theorem fst_logBody : Prod.fst <$> u.logBody invoke decl body args = u.runBody invoke decl body args := by
  unfold logBody runBody
  dsimp only
  rw [← (Meaning.logs_stmts _ body.stmts).erase _ [], map_bind, bind_map_left]
  refine congrArg _ (funext ?_)
  rintro ⟨⟨locals, log⟩, flow⟩
  rw [map_bind]
  exact bind_pure _

/-- A call that gives a result has executed one return at most, as its last statement; exactly one if it has a value
to give, which is that of the return. -/
theorem closes_logBody : Always (fun r => ∃ flow, Closes r.2 flow ∧ (decl.ret.isVoid = false → flow = .ret r.1))
    (u.logBody invoke decl body args) := by
  refine .bind ((Meaning.logs_stmts _ body.stmts).closes _ [] (.next (by simp))) ?_
  rintro ⟨⟨locals, log⟩, flow⟩ closes
  have ends : Always (fun v => decl.ret.isVoid = false → flow = .ret v)
      (endBody decl body locals flow : Eval ω Value) := by
    refine .bind (.trivial _) fun _ _ => ?_
    cases flow with
    | ret v => exact .pure fun _ => rfl
    | next =>
      dsimp only
      split
      · next void => exact .pure fun other => by simp [void] at other
      · intro store choices a impossible
        cases impossible
  exact .bind ends fun v valued => .pure ⟨flow, closes, valued⟩

end Linked

end Evaluation

open Machine Evaluation Emission

variable {σ : Type}

/-- The code of a program without mistakes can be loaded. On every level, with any native functions, a machine whose
native functions are found and that is not cut off by its step limit leaves what the evaluation of the program
leaves. In this evaluation each call of a function gives what it gives beside a log of its statements. In a log of a
call that gives a result no statement follows a return; a function with a result has executed one return in the end,
and given its value, for its body never ends without one. -/
theorem executeMain_returns {source : SourceText} {settings : EmitSettings} {program : Program} {output : EmitOutput}
    (emitted : emit program source settings = .ok output) (clean : output.report.hasErrors = false)
    (numbered : output.codefile.Numbered) (executable : settings.fileType = .executable) :
    ∃ image, Image.ofCodefile output.codefile = .ok image ∧
      ∀ (vm : Vm σ) (loader : Loader σ) (natives : Array (Option (NativeFn σ))) (linker : Linker σ),
        vm.image = some image → vm.linker.linkAll loader vm.host image.functions.toList #[] = (.ok natives, linker) →
        (∀ u, hosted source program settings.optLevel image natives = u → ∀ decl ∈ program.callable,
          decl.linkage = none → ∀ body, decl.body = some body → ∀ room args,
          Prod.fst <$> u.logBody (u.invoke room) decl body args = u.runBody (u.invoke room) decl body args ∧
          Always (fun r => ∃ flow, Closes r.2 flow ∧ (decl.ret.isVoid = false → flow = .ret r.1))
            (u.logBody (u.invoke room) decl body args) ∧ (decl.ret.isVoid = false → ∀ locals, Always Returning
            ((u.meaning (u.invoke room) (localTypes decl.params body)).evalStmts locals body.stmts))) ∧
        ∀ world, (∃ limit, (vm.executeMain loader world).1 = .error (.stepLimitExceeded limit)) ∨ ∃ choices r store,
            (hosted source program settings.optLevel image natives).run vm.settings.maxCallDepth
              (initialStore program world) choices = (r, store, []) ∧
            Leaves (vm.executeMain loader world) r store := by
  obtain ⟨table, bodies, built, codefile⟩ := built_of_clean emitted clean
  rw [codefile] at numbered ⊢
  obtain ⟨image, loaded⟩ := built.exists_image
  refine ⟨image, loaded, fun vm loader natives linker installed linked => ⟨?_, ?_⟩⟩
  · intro u _ decl member own body has room args
    refine ⟨u.fst_logBody _ decl body args, u.closes_logBody _ decl body args, fun valued locals => ?_⟩
    obtain ⟨f, _, _, _, _, _, describes, codeOf⟩ := built.exists_codeOf member has (by simp [own])
    have valued : f.ret.isVoid = false := describes.ret ▸ valued
    have returns := codeOf.returns valued
    obtain ⟨stmts, span⟩ := body
    exact returning_block _ locals (.mk stmts span) returns
  · exact limited_or_leaves_hosted built numbered loaded installed executable linked

theorem executeMain_returns_keeping :
    ∃ decl ∈ (parse keepingText).1.callable, ∃ body, decl.body = some body ∧ decl.ret.isVoid = false ∧
      ∀ u : Linked Unit, hosted keepingText (parse keepingText).1 .standard keepingImage #[none, none] = u →
        ∀ room args, Always (fun r => Closes r.2 (.ret r.1)) (u.logBody (u.invoke room) decl body args) := by
  obtain ⟨output, emitted, clean, numbered, loaded⟩ := of_emitsTo executeMain_keeping.1
  obtain ⟨decl, member, own, some, valued⟩ : ∃ decl ∈ (parse keepingText).1.callable,
      decl.linkage.isNone = true ∧ decl.body.isSome = true ∧ decl.ret.isVoid = false := by
    decide +kernel
  obtain ⟨image, loaded', all⟩ := executeMain_returns (σ := Unit) emitted clean numbered rfl
  cases loaded.symm.trans loaded'
  obtain ⟨body, has⟩ := Option.isSome_iff_exists.1 some
  obtain ⟨calls, -⟩ := all keeping .none #[none, none] keeping.linker rfl rfl
  refine ⟨decl, member, body, has, valued, fun u same room args store choices r given => ?_⟩
  obtain ⟨-, closes, -⟩ := calls u same decl member (Option.isNone_iff_eq_none.1 own) body has room args
  obtain ⟨flow, closed, valuable⟩ := closes store choices r given
  exact valuable valued ▸ closed

end RegisterLang
