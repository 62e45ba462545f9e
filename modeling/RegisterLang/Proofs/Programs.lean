import RegisterLang.Proofs.Declarations

/-! # The functions of a program

When no mistake is reported, the body of every function of a program is emitted and laid out, each at the
index of its function, and the strings of the program only grow. Main statement: `progress_of_clean`.
-/

namespace RegisterLang

open Machine Evaluation List

theorem Report.hasErrors_eq_false {r : Report} : r.hasErrors = false ↔ r.totalErrors = 0 := by
  simp [hasErrors]

namespace Emission

/-- The scope in which the body of a function is emitted. -/
def bodyScope (source : SourceText) (settings : EmitSettings) (decls : Declarations)
    (decl : FunctionDecl) (f : Function) : Scope :=
  { source, settings, decls
    endLabel := CodeBuffer.empty.newLabel.1
    name := decl.name.name
    ret := f.ret
    stackArgs := f.stackArgs }

/-- The body of a function was emitted without mistakes and laid out. -/
inductive LaidOut (scope : Scope) (decl : FunctionDecl) (block : Block) (f : Function)
    (table : Array String) : FinishedBody → Prop where
  | mk {strings : Strings} {b : Body} {code : FinishedCode}
      (fresh : strings.report.totalErrors = 0)
      (ran : (emitBody scope decl.name block).run (Body.initial strings f.locals).2 = .ok ((), b))
      (clean : b.errors = 0) (laid : b.code.finish = .ok code)
      (grows : Strings.Grows b.strings.table table) :
      LaidOut scope decl block f table ⟨b.localReserve, code.bytes⟩

/-- No code, between calls of other functions. -/
def noCode {σ : Type} (env : Env σ) (callee : UInt32 → State σ → Ending σ) : Activation σ where
  env := env
  callee := callee
  frame := default
  buffer := .empty
  is := []
  laid := ⟨rfl, nofun, nofun⟩
  encodable := nofun

/-- A setting without a run, for what does not depend on one. -/
def idle {ω : Type} (scope : Scope) (m : Meaning ω) : Setting ω ω where
  scope := scope
  link := ⟨noCode ⟨default, #[], default⟩ fun _ s => ((.ok 0, s), none), id, false⟩
  meaning := m
  last := default
  below := #[]

/-- No name stands for anything. -/
def unnamed : Meaning Unit :=
  ⟨fun _ => none, fun _ => none, fun _ => none, fun _ => none, fun _ => 0, fun _ => 0, fun _ => pure 0,
    fun _ _ => pure 0⟩

variable {block : Block} {name : Ident} {strings : Strings}

theorem errors_emitBody {scope : Scope} (regular : Regular scope)
    {locals : SymbolTable Local} {b : Body}
    (ran : (emitBody scope name block).run (Body.initial strings locals).2 = .ok ((), b)) :
    strings.report.totalErrors ≤ b.errors :=
  (Setting.emits_emitBody (w := idle scope unnamed) regular name block _ _ _ ran).1

theorem grows_of_emitBody {scope : Scope} (regular : Regular scope)
    {f : Function} {params : List Param} (takes : f.Takes params)
    (stackArgs : scope.stackArgs = f.stackArgs) {b : Body}
    (ran : (emitBody scope name block).run (Body.initial strings f.locals).2 = .ok ((), b)) (clean : b.errors = 0) :
    strings.report.totalErrors = 0 ∧ Strings.Grows strings.table b.strings.table := by
  have fresh : strings.report.totalErrors = 0 :=
    Nat.eq_zero_of_le_zero (clean ▸ errors_emitBody regular ran)
  obtain ⟨-, does⟩ := Setting.emits_emitBody (w := idle scope unnamed) regular name block _ _ _ ran
  obtain ⟨pool, homes, last, -, whole⟩ := does (clean.trans fresh.symm) (takes.fresh stackArgs fresh)
  exact ⟨fresh, whole.grown.table.trans whole.closed.table⟩

section Functions

variable (source : SourceText) (settings : EmitSettings) (decls : Declarations)

/-- What emitting functions does, the first of which has index `n`, when no mistake is reported. -/
structure Progress (n : Nat) (functions : List FunctionDecl) (done done' : Emitted) : Prop where
  clean : done.strings.report.totalErrors = 0
  table : Strings.Grows done.strings.table done'.strings.table
  before : ∀ i < n, done'.bodies[i]? = done.bodies[i]?
  finished : ∀ (j : Nat) decl f block, (functions.filter (!·.isPrototype))[j]? = some decl →
    decls.functions.get? (n + j) = some f → f.native = none → decl.body = some block →
    ∃ body, done'.bodies[n + j]? = some (some body) ∧
      LaidOut (bodyScope source settings decls decl f) decl block f done'.strings.table body

variable {source settings decls}

variable {done done' : Emitted} {functions : List FunctionDecl}

theorem emitFunction_eq_ok {index : Nat} {f : Function}
    (emitted : emitFunction source settings decls name block index f done = .ok done') :
    ∃ b code, (emitBody { source, settings, decls
                          endLabel := CodeBuffer.empty.newLabel.1
                          name := name.name
                          ret := f.ret
                          stackArgs := f.stackArgs } name block).run
        (Body.initial done.strings f.locals).2 = .ok ((), b) ∧ b.code.finish = .ok code ∧
      done'.strings = b.strings ∧
      done'.bodies = done.bodies.setIfInBounds index (some ⟨b.localReserve, code.bytes⟩) := by
  rw [emitFunction] at emitted
  rw [bind_eq_ok] at emitted
  obtain ⟨⟨_, b⟩, ran, emitted⟩ := emitted
  rw [bind_eq_ok] at emitted
  obtain ⟨code, laid, emitted⟩ := emitted
  cases emitted
  exact ⟨b, code, ran, laid, rfl, rfl⟩

theorem errors_emitFunctions (ordinary : Declared.Ordinary decls) {functions : List (FunctionDecl × Option Nat)}
    (ran : emitFunctions source settings decls functions done = .ok done') :
    done.strings.report.totalErrors ≤ done'.strings.report.totalErrors := by
  induction functions generalizing done with
  | nil =>
    cases ran
    exact Nat.le_refl _
  | cons function functions ih =>
    unfold emitFunctions at ran
    split at ran
    · cases ran
      exact Nat.le_refl _
    split at ran
    · split at ran
      · cases ran
      split at ran
      · exact ih ran
      · rw [bind_eq_ok] at ran
        obtain ⟨done1, emitted, ran⟩ := ran
        obtain ⟨b, code, ranBody, -, strings, -⟩ := emitFunction_eq_ok emitted
        have rest := ih ran
        rw [strings] at rest
        exact Nat.le_trans (errors_emitBody (Declared.Ordinary.regular ordinary) ranBody) rest
    · exact ih ran

theorem Progress.skip {n : Nat} {decl : FunctionDecl} (here : decl.isPrototype = false)
    (rest : Progress source settings decls (n + 1) functions done done')
    (none : ∀ f block, decls.functions.get? n = some f → f.native = none → decl.body = some block → False) :
    Progress source settings decls n (decl :: functions) done done' where
  clean := rest.clean
  table := rest.table
  before i low := rest.before i (Nat.lt_succ_of_lt low)
  finished j decl' f block found known bytecode body := by
    rw [filter_cons_of_pos (by simp [here])] at found
    cases j with
    | zero =>
      cases found
      exact (none f block known bytecode body).elim
    | succ j =>
      have moved : n + 1 + j = n + (j + 1) := by omega
      rw [← moved] at known ⊢
      exact rest.finished j decl' f block found known bytecode body

/-- Emission of functions that ends without mistakes emits the body of each of them. -/
theorem progress_of_clean (ordinary : Declared.Ordinary decls) {n : Nat}
    (entries : ∀ (j : Nat) decl, (functions.filter (!·.isPrototype))[j]? = some decl →
      ∃ f, decls.functions.get? (n + j) = some f ∧ f.Takes decl.params)
    (size : n + (functions.filter (!·.isPrototype)).length ≤ done.bodies.size)
    (ran : emitFunctions source settings decls (functions.zip (Declared.number n functions)) done = .ok done')
    (clean : done'.strings.report.totalErrors = 0) : Progress source settings decls n functions done done' := by
  induction functions generalizing n done with
  | nil =>
    cases ran
    exact ⟨clean, .refl _, fun _ _ => rfl, fun j decl f block found => by simp at found⟩
  | cons decl functions ih =>
    rw [Declared.number] at ran
    cases here : decl.isPrototype with
    | true =>
      rw [if_pos here, zip_cons_cons] at ran
      unfold emitFunctions at ran
      rw [filter_cons_of_neg (by simp [here])] at entries size
      split at ran
      · next limit =>
        cases ran
        simp [Report.atLimit, Report.limit, clean] at limit
      · have rest := ih entries size ran
        refine ⟨rest.clean, rest.table, rest.before, ?_⟩
        rw [filter_cons_of_neg (by simp [here])]
        exact rest.finished
    | false =>
      rw [if_neg (by simp [here]), zip_cons_cons] at ran
      unfold emitFunctions at ran
      rw [filter_cons_of_pos (by simp [here])] at entries size
      obtain ⟨f, known, takes⟩ := entries 0 decl rfl
      have later : ∀ (j : Nat) decl', (functions.filter (!·.isPrototype))[j]? = some decl' →
          ∃ f, decls.functions.get? (n + 1 + j) = some f ∧ f.Takes decl'.params := by
        intro j decl' found
        have moved : n + 1 + j = n + (j + 1) := by omega
        rw [moved]
        exact entries (j + 1) decl' found
      rw [length_cons] at size
      split at ran
      · next limit =>
        cases ran
        simp [Report.atLimit, Report.limit, clean] at limit
      rw [Nat.add_zero] at known
      cases body : decl.body with
      | none =>
        rw [body] at ran
        exact (ih later (by omega) ran).skip here fun _ _ _ _ some => by rw [body] at some; cases some
      | some block =>
        rw [body] at ran
        dsimp only at ran
        rw [known] at ran
        dsimp only at ran
        split at ran
        · next native =>
          refine (ih later (by omega) ran).skip here fun f' _ known' bytecode _ => ?_
          cases known.symm.trans known'
          simp [Function.isNative, bytecode] at native
        · next bytecode =>
          rw [bind_eq_ok] at ran
          obtain ⟨done1, emitted, ran⟩ := ran
          obtain ⟨b, code, ranBody, laid, strings, bodies⟩ := emitFunction_eq_ok emitted
          have rest := ih later (by rw [bodies, Array.size_setIfInBounds]; omega) ran
          have errors : b.errors = 0 := by
            have := rest.clean
            rwa [strings] at this
          obtain ⟨fresh, grows⟩ :=
            grows_of_emitBody (Declared.Ordinary.regular ordinary) takes rfl ranBody errors
          have table := rest.table
          rw [strings] at table
          refine ⟨fresh, grows.trans table, fun i low => ?_,
            fun j decl' f' block' found known' native' body' => ?_⟩
          · rw [rest.before i (by omega), bodies, Array.getElem?_setIfInBounds_ne (by omega)]
          · rw [filter_cons_of_pos (by simp [here])] at found
            cases j with
            | zero =>
              cases found
              cases known.symm.trans known'
              cases body.symm.trans body'
              refine ⟨_, ?_, .mk fresh ranBody errors laid table⟩
              rw [Nat.add_zero, rest.before n (Nat.lt_succ_self n), bodies,
                Array.getElem?_setIfInBounds_self_of_lt (by omega)]
            | succ j =>
              have moved : n + 1 + j = n + (j + 1) := by omega
              rw [← moved] at known' ⊢
              exact rest.finished j decl' f' block' found known' native' body'

end Functions

/-! ## Whole programs -/

/-- The codefile made of declarations, the bodies of the functions and all strings. -/
def codefileOf (settings : EmitSettings) (p : ProgramDecls) (table : Array String)
    (bodies : Array (Option FinishedBody)) : Codefile where
  fileType := settings.fileType
  major := Codefile.versionMajor
  minor := Codefile.versionMinor
  entry := p.entry
  functions := p.decls.functions.toList.zipIdx.map fun ((_, f), index) =>
    functionEntry bodies[index]?.join f
  globals := p.decls.globals.toList.map fun (_, g) => globalEntry g
  strings := table.toList.map Utf8.encode

/-- The declarations, strings and bodies of a program that has no mistakes. -/
structure Built (source : SourceText) (settings : EmitSettings) (program : Program) (p : ProgramDecls)
    (table : Array String) (bodies : Array (Option FinishedBody)) : Prop where
  ordinary : Declared.Ordinary p.decls
  faithful : Faithful source settings program p
  grows : Strings.Grows p.strings.table table
  bodies : ∀ (i : Nat) decl f block, program.callable[i]? = some decl →
    p.decls.functions.get? i = some f → f.native = none → decl.body = some block →
    ∃ body, bodies[i]? = some (some body) ∧ LaidOut (bodyScope source settings p.decls decl f) decl block f table body

/-- A program that is emitted without mistakes is built from its declarations. -/
theorem built_of_clean {source : SourceText} {settings : EmitSettings} {program : Program}
    {output : EmitOutput} (emitted : emit program source settings = .ok output)
    (clean : output.report.hasErrors = false) :
    ∃ table bodies, Built source settings program (declareProgram source settings program) table bodies ∧
      output.codefile = codefileOf settings (declareProgram source settings program) table bodies := by
  rw [Report.hasErrors_eq_false] at clean
  rw [emit] at emitted
  rw [bind_eq_ok] at emitted
  obtain ⟨done, ran, emitted⟩ := emitted
  cases emitted
  have ordinary := Declared.ordinary_declareProgram source settings program
  have declared := errors_emitFunctions ordinary ran
  have faithful := faithful_of_clean (Nat.eq_zero_of_le_zero (clean ▸ declared))
  rw [faithful.indices] at ran
  have progress := progress_of_clean ordinary (fun j decl found => ?_) ?_ ran clean
  · refine ⟨done.strings.table, done.bodies, ⟨ordinary, faithful, progress.table, ?_⟩, rfl⟩
    intro i decl f block found known native body
    rw [← Nat.zero_add i] at known ⊢
    exact progress.finished i decl f block found known native body
  · obtain ⟨f, entry, describes⟩ := faithful.callable.entry j decl found
    refine ⟨f, ?_, describes.takes⟩
    rw [Nat.zero_add, SymbolTable.get?, entry]
    rfl
  · rw [Nat.zero_add, Array.size_replicate, faithful.callable.size]
    exact Nat.le_refl _

end Emission

end RegisterLang
