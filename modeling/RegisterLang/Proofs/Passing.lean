import RegisterLang.Proofs.Correctness

/-! # Arguments and results of calls

The code of a call leaves every argument where the function that is called looks for its parameter, and gives
the caller its registers and its stack back. Main statement: `lowerExpr_call_passes`.
-/

namespace RegisterLang

open Machine Evaluation

/-- A run without a step limit gets to where a value is that an evaluation always gives. -/
theorem Machine.Link.Sim.reaches {σ ω α : Type} {l : Link σ ω} {k : Nat} {c : Core σ} {x : Eval ω α}
    {post : α → Nat → Core σ → Prop} (sim : l.Sim k c x post) (unlimited : l.code.env.settings.maxSteps = none) {a : α}
    (gives : ∀ store choices, (x store choices).1 = .ok a) {s : State σ} (same : s.core = c)
    (consistent : s.arrays.Consistent) : ∃ k' s', l.code.Reaches k s k' s' ∧ post a k' s'.core := by
  obtain ⟨limit, -⟩ | ⟨v, k', s', ⟨used, -, yields⟩, reaches, -, holds⟩ | ⟨t, _, _, _, ⟨used, -, yields⟩, -⟩ :=
    sim s same consistent
  · exact absurd unlimited limit
  · cases (gives _ _).symm.trans (congrArg Prod.fst (yields []))
    exact ⟨k', s', reaches, holds⟩
  · cases (gives _ _).symm.trans (congrArg Prod.fst (yields []))

namespace Emission

variable {σ ω : Type} {source : SourceText} {settings : EmitSettings} {program : Program}

/-- Every function with a body of a program that was emitted without mistakes has runs. One without parameters can
start from a state without arrays. -/
theorem exists_functionRun {output : EmitOutput} (emitted : emit program source settings = .ok output)
    (clean : output.report.hasErrors = false) (numbered : output.codefile.Numbered) {decl : FunctionDecl}
    (member : decl ∈ program.callable) {block : Block} (body : decl.body = some block)
    (own : decl.linkage.isSome = false) :
    ∃ (w : Setting Unit Unit) (first : Body), FunctionRun source settings program w ∧
      (emitStmts w.scope .body block.stmts).run first = .ok ((), w.last) ∧ first.errors = 0 ∧
      w.last.errors = 0 ∧ Tidy w.scope first ∧ w.link.code.env.settings.maxSteps = none ∧
      (decl.params = [] → ∃ s : State Unit, s.arrays = .empty ∧ w.Matches first (bindParams [] []) s.core) := by
  obtain ⟨table, bodies, built, codefile⟩ := built_of_clean emitted clean
  rw [codefile] at numbered
  obtain ⟨image, loaded⟩ := built.exists_image
  let nothing : NativeFn Unit := fun _ _ _ => (0, ())
  let env : Env Unit := ⟨image, Array.replicate program.callable.length (some nothing), {}⟩
  have beside := beside_anyhow env built loaded fun i decl here _ =>
    ⟨nothing, by
      rw [Array.getElem?_replicate, if_pos (List.getElem?_eq_some_iff.1 here).1]⟩
  obtain ⟨f, finished, first, last, final, is, describes, codeOf⟩ :=
    built.exists_codeOf (beside.functions ▸ member) body own
  let frame : Frame := ⟨0, 0, 0 + f.stackArgs + last.localReserve⟩
  refine ⟨bodySetting source settings _ env (anyhow source program image) (fun _ => ()) true 0 frame #[] codeOf, first,
    ⟨built, beside, numbered, loaded, describes.takes, codeOf, rfl⟩, codeOf.ran, codeOf.errors,
    codeOf.clean.trans codeOf.errors, codeOf.tidyFirst, rfl, fun none => ?_⟩
  have takes := describes.takes
  rw [none] at takes
  let globals := (declareProgram source settings program).decls.globals
  let s : State Unit := .initial (Array.replicate globals.size 0) ()
  exact ⟨{ s with stack := Array.replicate last.localReserve 0 }, rfl,
    takes.matches codeOf.locals codeOf.reserve rfl rfl nofun rfl rfl (by simp [bodySetting, State.core])
      Array.size_replicate⟩

/-- The parameters of a function hold its arguments: the first ones live in registers, the others in slots,
the last one lowest. -/
def Function.Holds (f : Function) (vs : List Value) (frame : Frame) (s : State σ) : Prop :=
  ∀ (p : Nat) x l v, f.locals.entries[p]? = some (x, l) → vs[p]? = some v →
    (p < f.registerArgs → l.storage = .register (UInt8.ofNat (p + 1)) ∧ s.reg (UInt8.ofNat (p + 1)) = v) ∧
    (f.registerArgs ≤ p → ∃ slot : UInt16, slot.toNat = f.stackArgs - 1 - (p - f.registerArgs) ∧
      l.storage = .stack slot ∧ s.stack[frame.base + slot.toNat]? = some v)

/-- Once a function is entered, its parameters hold the arguments that were passed. -/
theorem Setting.Passes.holds {f : Function} {params : List Param} {saved : List UInt8} {c : Core σ}
    {vs : List Value} {s : State σ} (passes : Setting.Passes f saved c vs s.core) (takes : f.Takes params)
    (length : vs.length = params.length) (index : UInt32) (reserve : Nat) :
    ∃ frame s', enter index reserve f.stackArgs s = some (frame, s') ∧ f.Holds vs frame s' := by
  have count := takes.count
  have fit := takes.fit
  have stack : s.stack = c.stack ++ (saved.map c.reg).toArray ++ (vs.drop f.registerArgs).reverse.toArray :=
    passes.stack
  have pushed : (vs.drop f.registerArgs).reverse.toArray.size = f.stackArgs := by
    simp only [List.size_toArray, List.length_reverse, List.length_drop]
    omega
  have size := congrArg Array.size stack
  rw [Array.size_append, pushed] at size
  refine ⟨_, _, if_neg (by omega), fun p x l v entry here => ?_⟩
  rw [takes.entry, Option.map_eq_some_iff] at entry
  obtain ⟨param, -, same⟩ := entry
  cases same
  have inside : p < vs.length := (List.getElem?_eq_some_iff.1 here).1
  refine ⟨fun low => ⟨if_pos low, passes.regs p v low here⟩, fun high => ?_⟩
  have slot : (UInt16.ofNat (paramSlot f.registerArgs f.stackArgs p)).toNat =
      paramSlot f.registerArgs f.stackArgs p :=
    UInt16.toNat_ofNat_of_lt' (by change f.stackArgs - 1 - (p - f.registerArgs) < 65536; omega)
  refine ⟨_, slot, if_neg (by omega), ?_⟩
  rw [slot, size, Nat.add_sub_cancel, stack, getElem?_paramSlot (count.trans length.symm) high inside, here]

/-- The image of a program asks for the arguments that the function was declared with. -/
theorem stackArgs_of_loaded {p : ProgramDecls} {table : Array String}
    {bodies : Array (Option FinishedBody)} {image : Image} {i : Nat} {name : String} {f : Function}
    (loaded : Image.ofCodefile (codefileOf settings p table bodies) = .ok image)
    (entry : p.decls.functions.entries[i]? = some (name, f)) (fit : f.stackArgs ≤ 65535)
    {reserve stackArgs : Nat} {code : List UInt8}
    (here : image.functions[i]? = some (.bytecode reserve stackArgs code)) : stackArgs = f.stackArgs := by
  obtain ⟨g, at_i, made⟩ := function_of_entry loaded entry
  cases here.symm.trans at_i
  have small : (UInt16.ofNat f.stackArgs).toNat = f.stackArgs :=
    UInt16.toNat_ofNat_of_lt' (Nat.lt_succ_of_le fit)
  cases native : f.native with
  | some link =>
    obtain ⟨library, symbol, other⟩ := native_of_function made (by rw [native]; rfl)
    cases other
  | none =>
    unfold functionEntry at made
    rw [native] at made
    dsimp only at made
    split at made
    · cases made
      exact small
    · cases made
      exact small

/-- The code of a call computes the arguments from right to left and comes to the instruction that calls the
function. When the function is entered, each of its parameters holds its argument. Behind the call the
registers that were in use and the stack are as before, and a result is in a register that was free. -/
theorem lowerExpr_call_passes {w : Setting σ ω} (run : FunctionRun source settings program w)
    {callee : Ident} {es : List Expr} {span : Span} {b b' : Body} {v : Lowered}
    (ran : (lowerExpr w.scope (.call callee es span)).run b = .ok (v, b')) (clean : b'.errors = b.errors)
    (tidy : Tidy w.scope b) (rest : Precedes w.scope b' w.last) :
    ∃ index f k, w.scope.decls.functions.entries[index]? = some (callee.name, f) ∧ f.locals.size = es.length ∧
      w.link.code.buffer.ops[k]? = some (.plain (callInsn (UInt32.ofNat index))) ∧ ∀ locals c, w.Matches b locals c →
        (w.link.Sim b.pos c (w.meaning.evalArgs locals es) fun vs k' c' => k' = k ∧
          vs.length = es.length ∧ Setting.Passes f b.pool.allocated c vs c' ∧
          ∀ (s : State σ) reserve stackArgs code, s.core = c' →
            w.link.code.env.image.functions[index]? = some (.bytecode reserve stackArgs code) →
            ∃ frame s', enter (UInt32.ofNat index) reserve stackArgs s = some (frame, s') ∧ f.Holds vs frame s') ∧
        ∀ vs c', vs.length = es.length → Setting.Passes f b.pool.allocated c vs c' →
          w.link.Sim k c' (w.meaning.invoke index vs) fun x k' c'' =>
            k' = b'.pos ∧ c''.stack = c.stack ∧
            (∀ q, b.pool.isAllocated q = true → c''.reg q = c.reg q) ∧
            (f.ret.isVoid = false → ∃ dst, v.place = .temporary dst ∧ b.pool.isAllocated dst = false ∧
              b'.pool.isAllocated dst = true ∧ c''.reg dst = x) := by
  have regular := run.regular
  have sound := run.sound
  obtain ⟨-, emitted⟩ := Setting.emits_lowerCall callee span
    (fun n params => Setting.emits_lowerArgs regular callee.name n 0 params es) b v b' ran
  obtain ⟨index, f, code⟩ := emitted clean regular tidy
  have lowers := Setting.Lowers.call span code tidy
  obtain ⟨k, here, passes⟩ := code.passes tidy sound rest
  obtain ⟨at_index, found, count, -⟩ := code
  obtain ⟨built, beside, numbered, loaded, -⟩ := run
  obtain ⟨j, at_j, entry⟩ := SymbolTable.lookup?_eq_some.1 found
  cases at_index.symm.trans at_j
  obtain ⟨decl, -, describes⟩ := built.faithful.callable.of_entry entry
  have params : decl.params.length = es.length := by
    rw [← count, describes.params, List.length_map]
  have size : f.locals.size = es.length := by
    rw [← params, ← List.length_map (·.name.name), ← describes.takes.names_eq, SymbolTable.names,
      List.length_map, SymbolTable.toList]
    rfl
  refine ⟨index, f, k, entry, size, here, fun locals c same => ⟨?_, ?_⟩⟩
  · refine (passes locals c same).1.mono ?_
    rintro vs _ c' ⟨rfl, length, passes⟩
    refine ⟨rfl, length, passes, ?_⟩
    rintro s reserve stackArgs code rfl stands
    rw [stackArgs_of_loaded loaded entry describes.takes.fit stands]
    exact passes.holds describes.takes (length.trans params.symm) _ reserve
  · intro vs c' length given
    refine ((passes locals c same).2 vs c' length given).mono ?_
    rintro x _ c'' ⟨rfl, keeps, result⟩
    refine ⟨rfl, keeps.stack, keeps.regs, fun valued => ?_⟩
    rw [if_neg (by rw [valued]; exact Bool.false_ne_true)] at result
    obtain ⟨dst, place, holds⟩ := result
    exact ⟨dst, place, lowers.delivers.spare dst place, lowers.delivers.placed dst (.inl place), holds⟩

/-- A call with twelve arguments. -/
def callLast (arg : Expr) : Expr :=
  .call ⟨"Last", .absent⟩ (List.replicate 11 (.int 7 .absent) ++ [arg]) .absent

/-- A function that only does one thing. -/
def procedure (name : String) (stmt : Stmt) : FunctionDecl :=
  ⟨⟨name, .absent⟩, [], .void, some (.mk [stmt] .absent), none, .absent⟩

/-- A block that calls the function. -/
def calling (v : Value) : Block :=
  .mk [.expr (callLast (.int v .absent)) .absent] .absent

/-- A conditional on whether zero is below one. -/
def forked : Conditional :=
  .mk (.binary .less (.int 0 .absent) (.int 1 .absent) .absent) (calling 1) (.orElse (calling 2)) .absent

/-- A program with a function of twelve parameters that gives the last one. -/
def lastProgram : Program where
  items := [
    .function ⟨⟨"Last", .absent⟩,
      (List.range 12).map fun i => ⟨⟨"p" ++ toString i, .absent⟩, .int, .absent⟩, .int,
      some (.mk [.ret (some (.name "p11" .absent)) .absent] .absent), none, .absent⟩,
    .function (procedure "Once" (.expr (callLast (.int 1 .absent)) .absent)),
    .function (procedure "Main" (.branch forked))]
  span := .absent

theorem exists_run_procedure (name : String) (stmt : Stmt) (member : procedure name stmt ∈ lastProgram.callable) :
    ∃ (w : Setting Unit Unit) (first : Body), FunctionRun default {} lastProgram w ∧
      (emitStmt w.scope .body stmt).run first = .ok ((), w.last) ∧ first.errors = 0 ∧ w.last.errors = 0 ∧
      Tidy w.scope first ∧ w.link.code.env.settings.maxSteps = none ∧
      ∃ s : State Unit, s.arrays = .empty ∧ w.Matches first (bindParams [] []) s.core := by
  have shape : (emit lastProgram default {}).toOption.map (fun o => (o.report.hasErrors,
      o.codefile.functions.length, o.codefile.globals.length, o.codefile.strings.length)) =
      some (false, 3, 0, 0) := by decide +kernel
  obtain ⟨output, emitted, clean, numbered⟩ : ∃ output, emit lastProgram default {} = .ok output ∧
      output.report.hasErrors = false ∧ output.codefile.Numbered := by
    generalize emit lastProgram default {} = result at shape
    obtain _ | output := result
    · cases shape
    · simp only [Except.toOption, Option.map_some, Option.some.injEq, Prod.mk.injEq] at shape
      obtain ⟨clean, functions, globals, strings⟩ := shape
      exact ⟨output, rfl, clean, by omega, by omega, by omega⟩
  obtain ⟨w, first, run, ran, errors, errors', tidy, unlimited, starts⟩ :=
    exists_functionRun emitted clean numbered member rfl rfl
  refine ⟨w, first, run, ?_, errors, errors', tidy, unlimited, starts rfl⟩
  obtain ⟨-, does⟩ := (Emits.bind Setting.emits_atLimit fun _ => .ite (.of_pure ())
    (.bind (Setting.emits_emitStmt run.regular .body stmt).ran fun _ => .of_pure ())) first () w.last ran
  obtain ⟨_, _, ⟨rfl, below⟩, ⟨limited, -⟩ | ⟨-, _, _, ⟨ran, -⟩, -, rfl⟩⟩ := does (errors'.trans errors.symm)
  · rw [below errors] at limited
    cases limited
  · exact ran

theorem lowerExpr_call_passes_once : ∃ (w : Setting Unit Unit) (b b' : Body) (v : Lowered) (index : Nat)
    (f : Function) (k : Nat) (s s' : State Unit), FunctionRun default {} lastProgram w ∧
      (lowerExpr w.scope (callLast (.int 1 .absent))).run b = .ok (v, b') ∧
      w.scope.decls.functions.entries[index]? = some ("Last", f) ∧ f.locals.size = 12 ∧
      w.link.code.buffer.ops[k]? = some (.plain (callInsn (UInt32.ofNat index))) ∧
      w.Matches b (bindParams [] []) s.core ∧ w.link.code.Reaches b.pos s k s' ∧
      Setting.Passes f b.pool.allocated s.core (List.replicate 11 7 ++ [1]) s'.core ∧
      w.link.Sim k s'.core (w.meaning.invoke index (List.replicate 11 7 ++ [1])) fun x k' c =>
        k' = b'.pos ∧ c.stack = s.stack ∧ (f.ret.isVoid = false → ∃ dst, v.place = .temporary dst ∧ c.reg dst = x) := by
  obtain ⟨w, first, run, ran, errors, errors', tidy, unlimited, s, empty, same⟩ :=
    exists_run_procedure "Once" _ (List.mem_cons_of_mem _ (List.mem_cons_self ..))
  obtain ⟨-, does⟩ := (Emits.bind (Setting.emits_lowerExpr run.regular _).ran.counted fun v => emits_drop v)
    first () w.last ran
  obtain ⟨v, b', ⟨clean, ran, -⟩, dropped⟩ := does (errors'.trans errors.symm)
  have rest : Precedes w.scope b' w.last := dropped ▸ .of_steady (.setPool _ _)
  obtain ⟨index, f, k, entry, size, here, all⟩ := lowerExpr_call_passes run ran clean tidy rest
  obtain ⟨passes, behind⟩ := all _ _ same
  obtain ⟨_, s', reaches, rfl, length, passed, -⟩ := passes.reaches unlimited (fun _ _ => rfl) rfl
    (empty ▸ ArrayHeap.consistent_empty)
  refine ⟨w, first, b', v, index, f, _, s, s', run, ran, entry, size, here, same, reaches, passed, ?_⟩
  refine (behind _ _ length passed).mono ?_
  rintro x _ c ⟨rfl, stack, -, result⟩
  refine ⟨rfl, stack, fun valued => ?_⟩
  obtain ⟨dst, place, -, -, holds⟩ := result valued
  exact ⟨dst, place, holds⟩

end Emission

end RegisterLang
