import RegisterLang.Proofs.Correctness
import RegisterLang.Proofs.Termination

/-! # How long arrays live

A program that was emitted without mistakes destroys only arrays that are there, and when it is done only
those are left that it has declared as `const`. Main statement: `executeMain_arrays`, on every level, with any
native functions and any limits.
-/

namespace RegisterLang

open Machine Evaluation List

variable {σ : Type}

/-! ## Runs -/

/-- What a machine does to run the function that its image starts with. -/
inductive Vm.RunsMain (vm : Vm σ) (loader : Loader σ) (world : σ) :
    List (List (Moment σ)) → Outcome σ Value → Prop where
  | mk {image : Image} {natives : Array (Option (NativeFn σ))} {linker : Linker σ}
      {frames : List (List (Moment σ))} {out : Outcome σ Value} (installed : vm.image = some image)
      (executable : image.fileType = .executable)
      (linked : vm.linker.linkAll loader vm.host image.functions.toList #[] = (.ok natives, linker))
      (executes : Executes ⟨image, natives, vm.settings⟩ (.call 0 image.entry)
        (.initial image.globals world) frames out) : RunsMain vm loader world frames out

variable {v : Value} {loader : Loader σ}

/-- A machine that gives a result has called the function that its image starts with. -/
theorem Vm.call_of_executeMain {vm vm' : Vm σ} {image : Image} {world world' : σ}
    (installed : vm.image = some image) (ran : vm.executeMain loader world = (.ok v, vm', world')) :
    image.fileType = .executable ∧ ∃ linker,
      vm.linker.linkAll loader vm.host image.functions.toList #[] = (.ok vm'.natives, linker) ∧
      ∃ s, call ⟨image, vm'.natives, vm.settings⟩ vm.settings.maxCallDepth image.entry
          (.initial image.globals world) = (.ok v, s) ∧
        vm'.globals = s.globals ∧ vm'.lastRun.arrays = s.arrays ∧ world' = s.world := by
  rw [executeMain, installed] at ran
  dsimp only at ran
  split at ran
  · cases ran
  next executable =>
  have executable : image.fileType = .executable := by
    cases kind : image.fileType with
    | executable => rfl
    | library => exact absurd kind executable
  split at ran
  · cases ran
  next natives linker linked =>
  rw [runImage_eq] at ran
  generalize called : call ⟨image, natives, vm.settings⟩ vm.settings.maxCallDepth image.entry
    (.initial image.globals world) = out at ran
  obtain ⟨result, s⟩ := out
  cases ran
  exact ⟨executable, linker, linked, s, called, rfl, rfl, rfl⟩

variable {frames : List (List (Moment σ))} {out : Outcome σ Value}

/-- A run that does not fail in an instruction that destroys an array finds the arrays that it destroys. -/
theorem Machine.Executes.exists_destroy {env : Env σ} {task : Task} {s : State σ}
    (executes : Executes env task s frames out)
    (spared : Spares (task.ending env s).2 ∨ ∃ limit, out.1 = .error (.stepLimitExceeded limit))
    {m : Moment σ} (member : m ∈ frames.flatten) {r : UInt8} (destroys : m.instruction = .arrayDestroy r) :
    ∃ arrays, m.state.arrays.destroy (m.state.reg r).handle = (.ok (), arrays) := by
  rcases destroyed : m.state.arrays.destroy (m.state.reg r).handle with ⟨fault | _, arrays⟩
  · have failed : step env m.frame m.offset (m.offset + m.instruction.length) m.instruction m.state =
        (.error fault, { m.state with arrays }) := by
      rw [destroys, step, destroyed]
      rfl
    obtain ⟨ended, culprit⟩ := executes.culprit member failed
    rcases spared with spared | ⟨limit, limited⟩
    · exact absurd (destroys ▸ culprit) (spared r)
    · -- The step limit is no fault of the heap.
      obtain ⟨t, kind⟩ := ArrayHeap.trap_of_destroy destroyed
      cases ended.symm.trans limited
      cases kind
  · exact ⟨arrays, rfl⟩

/-! ## Programs linked to their host -/

/-- A program linked to an image and to native functions. What is left open is what it finds where nothing was
stored: in locals, on the fast level, and in the registers behind the arguments of a native function. -/
def hosted (source : SourceText) (program : Program) (level : OptLevel) (image : Image)
    (natives : Array (Option (NativeFn σ))) : Linked σ where
  functions := program.callable
  globals := program.globals
  const? := (Emission.constants source program).lookup?
  text t := (image.textAddress? t).getD 0
  address := image.address
  unassigned ty := if level = .fast ∧ ty.isArray = false then Eval.choose else pure 0
  native i args store choices :=
    match natives[i]?.join with
    | some g =>
      let others := nativeArgCount - args.length
      let (v, world) := g image (.ofList (args ++ choices.take others)) store.world
      (.ok v, { store with world }, choices.drop others)
    | none => Eval.stop .stuck store choices

/-- The arguments of a native function and what lies in the registers behind them. -/
theorem NativeArgs.ofList_append_drop {regs : NativeArgs} {args : List Value}
    (given : ∀ (j : Nat) v, args[j]? = some v → regs[j]? = some v) :
    NativeArgs.ofList (args ++ regs.toList.drop args.length) = regs := by
  refine Vector.ext fun j inside => ?_
  rw [NativeArgs.ofList, Vector.getElem_ofFn]
  rw [getD_eq_getElem?_getD]
  have here : regs.toList[j]? = some regs[j] := by simp [inside]
  by_cases low : j < args.length
  · have same := given j _ (getElem?_eq_getElem low)
    rw [Vector.getElem?_eq_getElem inside] at same
    rw [getElem?_append_left low, getElem?_eq_getElem low, ← same]
    rfl
  · have split : args.length + (j - args.length) = j := by omega
    rw [getElem?_append_right (Nat.le_of_not_lt low), getElem?_drop, split, here]
    rfl

variable {natives : Array (Option (NativeFn σ))}

namespace Emission

variable {source : SourceText} {settings : EmitSettings} {program : Program} {p : ProgramDecls}
  {table : Array String} {bodies : Array (Option FinishedBody)} {image : Image}

theorem beside_hosted (built : Built source settings program p table bodies)
    (loaded : Image.ofCodefile (codefileOf settings p table bodies) = .ok image) {l l' : Linker σ}
    {host : HostFunctions σ} (vmSettings : VmSettings)
    (linked : l.linkAll loader host image.functions.toList #[] = (.ok natives, l')) :
    Beside settings program p table (⟨image, natives, vmSettings⟩ : Env σ)
      (hosted source program settings.optLevel image natives) id true where
  functions := rfl
  globals := rfl
  const_eq x := by rw [built.faithful.consts]; rfl
  text := text_of_loaded loaded
  address _ _ _ _ := rfl
  unassigned ty v allowed := by
    unfold hosted
    dsimp only
    by_cases free : settings.optLevel = .fast ∧ ty.isArray = false
    · rw [if_pos free]
      exact ⟨[v], nofun, yields_choose v⟩
    · rw [if_neg free]
      obtain rfl := allowed.resolve_right free
      exact ⟨[], nofun, .pure 0⟩
  quiet ty store choices := by
    unfold hosted
    dsimp only
    split <;> rfl
  native i decl here native := by
    obtain ⟨g, bound⟩ := native_of_linked built loaded linked here native
    refine ⟨g, bound, fun regs args globals arrays world length given =>
      ⟨regs.toList.drop args.length, nofun, fun more => ?_⟩⟩
    have count : nativeArgCount - args.length = (regs.toList.drop args.length).length := by simp
    have known : natives[i]?.join = some g := by
      rw [bound]
      rfl
    simp only [hosted, known]
    rw [count, take_left, drop_left, NativeArgs.ofList_append_drop given]
    rfl
  still i args store choices := by
    unfold hosted
    dsimp only
    cases natives[i]?.join <;> rfl

end Emission

/-! ## What is left -/

/-- A program that is evaluated from the start leaves one array for each `const` array that it has declared. -/
theorem Evaluation.Linked.Orderly.exists_notes {ω : Type} {u : Linked ω} (orderly : u.Orderly) {room : Nat}
    {globals : Array Value} {world : ω} {choices rest : List Value} {store : Store ω}
    (ran : u.run room ⟨globals, .empty, world⟩ choices = (.ok v, store, rest)) :
    ∃ declared, u.noteRun room ⟨globals, .empty, (world, [])⟩ choices = (.ok v, store.keeping declared, rest) ∧
      (∀ var ∈ declared, u.Declared var) ∧ store.arrays.live = declared.countP VarDecl.isConstArray := by
  obtain ⟨notes, noted⟩ := (u.erases_noteRun room).exists_kept ran []
  have accounted := orderly.accounts_noteRun room _ choices v _ _ ArrayHeap.consistent_empty noted
  obtain ⟨_, rfl, declared, count⟩ := accounted.notes
  exact ⟨notes, noted, declared, count.trans (Nat.zero_add _)⟩

namespace Emission

variable {source : SourceText} {settings : EmitSettings} {program : Program} {p : ProgramDecls}
  {table : Array String} {bodies : Array (Option FinishedBody)} {image : Image}
  (built : Built source settings program p table bodies)
  (numbered : (codefileOf settings p table bodies).Numbered)
  (loaded : Image.ofCodefile (codefileOf settings p table bodies) = .ok image)
  {vm vm' : Vm σ} {loader : Loader σ} {world world' : σ} (installed : vm.image = some image)

include loaded in
theorem fileType_of_loaded : settings.fileType = image.fileType := by
  obtain ⟨functions, -, rfl⟩ := Image.ofCodefile_eq_ok loaded
  rfl

include built numbered loaded installed in
/-- A run is cut off by its step limit, or leaves what the evaluation of the program leaves. -/
theorem limited_or_leaves_hosted (executable : settings.fileType = .executable) {linker : Linker σ}
    (linked : vm.linker.linkAll loader vm.host image.functions.toList #[] = (.ok natives, linker)) (world : σ) :
    (∃ limit, (vm.executeMain loader world).1 = .error (.stepLimitExceeded limit)) ∨ ∃ choices r store,
        (hosted source program settings.optLevel image natives).run vm.settings.maxCallDepth
          (initialStore program world) choices = (r, store, []) ∧ Leaves (vm.executeMain loader world) r store := by
  have beside := beside_hosted built loaded vm.settings linked
  have follows := follows_run built beside numbered loaded executable vm.settings.maxCallDepth world
  rw [Vm.executeMain_eq installed ((fileType_of_loaded loaded).symm.trans executable) linked world]
  have ends := @limited_or_leaves σ natives image { vm with linker } _ _ _ world follows
  rcases ends with ⟨-, limited⟩ | ⟨r, store, used, -, yields, leaves⟩
  · exact .inl limited
  · exact .inr ⟨_, r, store, yields [], leaves⟩

include built numbered loaded installed in
theorem exists_destroy_of_runsMain
    (runs : vm.RunsMain loader world frames out) : (vm.executeMain loader world).1 = out.1 ∧
      ∀ m ∈ frames.flatten, ∀ r, m.instruction = .arrayDestroy r →
        ∃ arrays, m.state.arrays.destroy (m.state.reg r).handle = (.ok (), arrays) := by
  obtain ⟨installed', executable, linked, executes⟩ := runs
  cases installed.symm.trans installed'
  have beside := beside_hosted built loaded vm.settings linked
  obtain ⟨out', culprit, ran, -, spared⟩ := serves_main built beside numbered loaded
    ((fileType_of_loaded loaded).trans executable) vm.settings.maxCallDepth world
  have ended := executes.fst_ending
  change (callEnding _ (vm.settings.maxCallDepth - 0) _ _).1 = out at ended
  rw [Nat.sub_zero] at ended
  refine ⟨?_, fun m member r destroys => executes.exists_destroy ?_ member destroys⟩
  · rw [Vm.executeMain_eq installed executable linked world, ← ended, fst_callEnding]
    rfl
  · change Spares (callEnding _ (vm.settings.maxCallDepth - 0) _ _).2 ∨ _
    rw [Nat.sub_zero]
    rw [ran] at ended ⊢
    exact ended ▸ spared

include built numbered loaded installed in
/-- A run of a program without mistakes that ends with a result leaves what its evaluation leaves, beside the
declarations that were executed. -/
theorem exists_notes_of_executeMain (ran : vm.executeMain loader world = (.ok v, vm', world')) :
    ∃ choices rest declared,
      (hosted source program settings.optLevel image vm'.natives).noteRun vm.settings.maxCallDepth
        ((initialStore program world).keeping []) choices =
          (.ok v, ⟨vm'.globals, vm'.lastRun.arrays, (world', declared)⟩, rest) ∧
      vm'.liveArrays = declared.countP VarDecl.isConstArray ∧
      ∀ var ∈ declared, ∃ decl ∈ program.callable, ∃ body, decl.body = some body ∧ var ∈ body.vars := by
  obtain ⟨executable, linker, linked, s, called, globals, arrays, rfl⟩ :=
    Vm.call_of_executeMain installed ran
  have beside := beside_hosted built loaded vm.settings linked
  have follows := follows_run built beside numbered loaded
    ((fileType_of_loaded loaded).trans executable) vm.settings.maxCallDepth world
  rw [called] at follows
  cases follows with
  | @ok _ _ used _ yields =>
    obtain ⟨declared, noted, inside, count⟩ := (beside.orderly built).exists_notes (yields [])
    refine ⟨used ++ [], [], declared, ?_, ?_, inside⟩
    · rw [globals, arrays]
      exact noted
    · rw [Vm.liveArrays, arrays]
      exact count

end Emission

/-- Some function of a program declares a `const` array. -/
def Program.DeclaresConstArray (program : Program) : Prop :=
  ∃ decl ∈ program.callable, ∃ body, decl.body = some body ∧ ∃ var ∈ body.vars, var.isConstArray = true

open Emission in
/-- The code of a program without mistakes can be loaded. On every level, with any native functions and any
limits, a run of it finds every array that it is to destroy, in whatever call. When it ends with a result, it
has done what the program evaluates to, and as many arrays are left as declarations of `const` arrays were
executed; none if the program has no such declaration. -/
theorem executeMain_arrays {source : SourceText} {settings : EmitSettings} {program : Program}
    {output : EmitOutput} (emitted : emit program source settings = .ok output)
    (clean : output.report.hasErrors = false) (numbered : output.codefile.Numbered) :
    ∃ image, Image.ofCodefile output.codefile = .ok image ∧
      ∀ (vm : Vm σ) (loader : Loader σ) (world : σ), vm.image = some image →
        (∀ frames out, vm.RunsMain loader world frames out → (vm.executeMain loader world).1 = out.1 ∧
          ∀ m ∈ frames.flatten, ∀ r, m.instruction = .arrayDestroy r →
            ∃ arrays, m.state.arrays.destroy (m.state.reg r).handle = (.ok (), arrays)) ∧
        ∀ v vm' world', vm.executeMain loader world = (.ok v, vm', world') → (∃ choices rest declared,
            (hosted source program settings.optLevel image vm'.natives).noteRun vm.settings.maxCallDepth
              ((initialStore program world).keeping []) choices =
                (.ok v, ⟨vm'.globals, vm'.lastRun.arrays, (world', declared)⟩, rest) ∧
            vm'.liveArrays = declared.countP VarDecl.isConstArray) ∧
          (¬ program.DeclaresConstArray → vm'.liveArrays = 0) := by
  obtain ⟨table, bodies, built, codefile⟩ := built_of_clean emitted clean
  rw [codefile] at numbered ⊢
  obtain ⟨image, loaded⟩ := built.exists_image
  refine ⟨image, loaded, fun vm loader world installed =>
    ⟨fun frames out => exists_destroy_of_runsMain built numbered loaded installed, ?_⟩⟩
  intro v vm' world' ran
  obtain ⟨choices, rest, declared, noted, live, inside⟩ :=
    exists_notes_of_executeMain built numbered loaded installed ran
  refine ⟨⟨choices, rest, declared, noted, live⟩, fun none => ?_⟩
  rw [live, List.countP_eq_zero]
  intro var member const
  obtain ⟨decl, listed, body, has, here⟩ := inside var member
  exact none ⟨decl, listed, body, has, var, here, const⟩

/-- A program whose calls keep one array and destroy another, except for the last, which returns early. -/
def keepingText : SourceText where
  name := "keep"
  text := "fn Keep(n: Int): Int \x7b if (n == 0) \x7b return 5; \x7d var k: const Int[1] = [n]; " ++
    "var t: Int[2]; t[1] = Keep(n - 1); return t[1]; \x7d fn Main(): Int \x7b return Keep(2); \x7d"

/-- The image of `keepingText`. -/
def keepingImage : Image where
  fileType := .executable
  entry := 1
  functions := #[
    .bytecode 2 0 [51, 16, 68, 4, 2, 5, 64, 57, 2, 49, 112, 35, 2, 48, 114, 35, 16, 83, 32, 0, 0, 2, 50, 112,
      35, 83, 32, 1, 0, 80, 16, 1, 33, 35, 32, 80, 32, 81, 16, 97, 0, 1, 32, 81, 16, 82, 48, 1, 0, 2, 65, 114,
      52, 32, 82, 32, 1, 0, 2, 49, 113, 66, 48, 1, 4, 82, 32, 1, 0, 115, 32, 98],
    .bytecode 0 0 [2, 18, 97, 0, 1, 16, 1, 1, 98]]
  globals := #[]
  strings := #[]

/-- A machine that is about to run `keepingImage`. -/
def keeping : Vm Unit :=
  (Vm.new {}).setImage keepingImage

theorem executeMain_keeping : emitsTo keepingText {} keepingImage = true ∧
    (keeping.executeMain .none ()).1.toOption = some 5 ∧ (keeping.executeMain .none ()).2.1.liveArrays = 2 := by
  decide +kernel

theorem executeMain_arrays_keeping : ∃ vm', keeping.executeMain .none () = (.ok 5, vm', ()) ∧ vm'.liveArrays = 2 ∧
      (∃ choices rest declared, (hosted keepingText (parse keepingText).1 .standard keepingImage vm'.natives).noteRun
          keeping.settings.maxCallDepth ((initialStore (parse keepingText).1 ()).keeping []) choices =
            (.ok 5, ⟨vm'.globals, vm'.lastRun.arrays, ((), declared)⟩, rest) ∧
        declared.countP VarDecl.isConstArray = 2) ∧
      ∃ frames out, keeping.RunsMain .none () frames out ∧ out.1 = .ok 5 ∧
        ∀ m ∈ frames.flatten, ∀ r, m.instruction = .arrayDestroy r →
          ∃ arrays, m.state.arrays.destroy (m.state.reg r).handle = (.ok (), arrays) := by
  obtain ⟨emits, result, live⟩ := executeMain_keeping
  obtain ⟨output, emitted, clean, numbered, loaded⟩ := of_emitsTo emits
  generalize (parse keepingText).1 = program at emitted ⊢
  obtain ⟨image, loaded', all⟩ := executeMain_arrays (σ := Unit) emitted clean numbered
  cases loaded.symm.trans loaded'
  obtain ⟨finds, ends⟩ := all keeping .none () rfl
  obtain ⟨frames, out, executes⟩ := exists_executes_call ⟨keepingImage, #[none, none], keeping.settings⟩ 0
    keepingImage.entry (.initial keepingImage.globals ())
  have runs : keeping.RunsMain .none () frames out := .mk rfl rfl rfl executes
  obtain ⟨same, found⟩ := finds frames out runs
  generalize keeping.executeMain .none () = run at result live ends same ⊢
  obtain ⟨fault | v, vm', world⟩ := run
  · cases result
  cases result
  obtain ⟨⟨choices, rest, declared, noted, count⟩, -⟩ := ends 5 vm' world rfl
  exact ⟨vm', rfl, live, ⟨choices, rest, declared, noted, count.symm.trans live⟩, frames, out, runs, same.symm, found⟩

end RegisterLang
