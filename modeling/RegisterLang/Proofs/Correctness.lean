import RegisterLang.Proofs.Runs

/-! # Programs do what they mean

Main statements: `executeMain_eq_run`, below the fast level a run ends as the evaluation of the program does,
and `executeMain_never_malformed`, on no level a run ends in a fault that only malformed code can cause.
-/

namespace RegisterLang

open Machine Evaluation Image

variable {σ : Type}
  {natives : Array (Option (NativeFn σ))} {loader : Loader σ} {image : Image} {settings : EmitSettings}
  {host : HostFunctions σ} {source : SourceText}

/-! ## Native functions -/

/-- The words that a native function is given for its arguments; the others are zero. -/
def NativeArgs.ofList (args : List Value) : NativeArgs :=
  Vector.ofFn fun j => args.getD j 0

/-- A native function does the same with two images, whatever lies in the registers behind its first `count`
arguments. -/
def NativeFn.DependsOn (g : NativeFn σ) (count : Nat) (image image' : Image) : Prop :=
  ∀ (regs regs' : NativeArgs) (world : σ), (∀ j < count, regs[j]? = regs'[j]?) →
    g image regs world = g image' regs' world

variable {functions : List ImageFunction} {bound : Array (Option (NativeFn σ))} {vm : Vm σ} {free : Bool}
  {l' l : Linker σ}

theorem Linker.linkAll_eq_ok (linked : l.linkAll loader host functions bound = (.ok natives, l')) :
    (∀ i < bound.size, natives[i]? = bound[i]?) ∧
      ∀ (i : Nat) library symbol, functions[i]? = some (.native library symbol) →
        ∃ g, natives[bound.size + i]? = some (some g) := by
  induction functions generalizing l bound with
  | nil =>
    cases linked
    exact ⟨fun _ _ => rfl, fun i library symbol here => by simp at here⟩
  | cons function functions ih =>
    -- The functions behind the first are bound after one more entry.
    have after : ∀ {entry : Option (NativeFn σ)} {l1 : Linker σ},
        l1.linkAll loader host functions (bound.push entry) = (.ok natives, l') →
        (∀ i < bound.size, natives[i]? = bound[i]?) ∧ natives[bound.size]? = some entry ∧
          ∀ (i : Nat) library symbol, functions[i]? = some (.native library symbol) →
            ∃ g, natives[bound.size + (i + 1)]? = some (some g) := by
      intro entry l1 linked
      obtain ⟨before, rest⟩ := ih linked
      rw [Array.size_push] at before rest
      refine ⟨fun i low => ?_, ?_, fun i library symbol here => ?_⟩
      · rw [before i (by omega), Array.getElem?_push_lt low]
        exact (Array.getElem?_eq_getElem low).symm
      · rw [before _ (Nat.lt_succ_self _), Array.getElem?_push_size]
      · obtain ⟨g, found⟩ := rest i library symbol here
        exact ⟨g, by rw [← found]; congr 1; omega⟩
    cases function with
    | bytecode reserve stackArgs code =>
      obtain ⟨before, -, rest⟩ := after linked
      refine ⟨before, fun i library symbol here => ?_⟩
      cases i with
      | zero => cases here
      | succ i => exact rest i library symbol here
    | native library symbol =>
      rw [linkAll] at linked
      split at linked
      · obtain ⟨before, first, rest⟩ := after linked
        refine ⟨before, fun i library symbol here => ?_⟩
        cases i with
        | zero => exact ⟨_, first⟩
        | succ i => exact rest i library symbol here
      · cases linked

theorem Linker.linkAll_eq_error {fault : Fault}
    (failed : l.linkAll loader host functions bound = (.error fault, l')) :
    ∃ library symbol reason, fault = .link library symbol reason := by
  induction functions generalizing l bound with
  | nil => cases failed
  | cons function functions ih =>
    cases function with
    | bytecode reserve stackArgs code => exact ih failed
    | native library symbol =>
      rw [linkAll] at failed
      split at failed
      · exact ih failed
      · next fault' l1 resolved =>
        cases failed
        rw [resolve] at resolved
        split at resolved
        · cases resolved
        split at resolved
        · cases resolved
          exact ⟨_, _, _, rfl⟩
        · split at resolved
          · cases resolved
          · cases resolved
            exact ⟨_, _, _, rfl⟩

theorem Vm.executeMain_eq (installed : vm.image = some image) (executable : image.fileType = .executable)
    {linker : Linker σ} (linked : vm.linker.linkAll loader vm.host image.functions.toList #[] = (.ok natives, linker))
    (world : σ) : vm.executeMain loader world = { vm with linker }.runImage image natives world := by
  rw [executeMain, installed]
  dsimp only
  rw [executable, if_neg nofun, linked]

/-! ## Programs linked to an image -/

/-- Where a text lies in an image. -/
def Image.textAddress? (image : Image) (text : String) : Option Value :=
  (image.strings.findIdx? (· = Utf8.encode text ++ [0])).map image.address

/-- A program linked to an image and to native functions, of which it sees what they do to the world. What a
text stands for, and what reading a local gives that nothing was stored in, is left open. -/
def linkedTo (source : SourceText) (program : Program) (image : Image)
    (natives : Array (Option (NativeFn σ))) (text : String → Value) (unassigned : Eval σ Value) :
    Linked σ where
  functions := program.callable
  globals := program.globals
  const? := (Emission.constants source program).lookup?
  text := text
  address := image.address
  unassigned _ := unassigned
  native i args :=
    match natives[i]?.join with
    | some g => Eval.outside (g image (.ofList args))
    | none => Eval.stop .stuck

variable {unassigned : Eval σ Value} {text : String → Value}

namespace Emission

variable {source : SourceText} {settings : EmitSettings} {program : Program} {p : ProgramDecls}
  {table : Array String} {bodies : Array (Option FinishedBody)} {image : Image}

theorem strings_of_loaded (loaded : ofCodefile (codefileOf settings p table bodies) = .ok image) :
    image.strings = table.map fun text => Utf8.encode text ++ [0] := by
  obtain ⟨functions, -, rfl⟩ := ofCodefile_eq_ok loaded
  refine Array.toList_inj.1 ?_
  simp [codefileOf]

theorem textAddress?_eq (loaded : ofCodefile (codefileOf settings p table bodies) = .ok image)
    (t : String) : image.textAddress? t = (table.findIdx? (· = t)).map image.address := by
  rw [textAddress?, strings_of_loaded loaded, Array.findIdx?_map]
  congr 2
  funext text
  refine decide_eq_decide.2 ⟨fun same => ?_, fun same => by rw [same]⟩
  exact Utf8.encode_inj (List.append_cancel_right same)

theorem native_of_linked (built : Built source settings program p table bodies)
    (loaded : ofCodefile (codefileOf settings p table bodies) = .ok image)
    (linked : l.linkAll loader host image.functions.toList #[] = (.ok natives, l')) {i : Nat} {decl : FunctionDecl}
    (here : program.callable[i]? = some decl) (native : decl.linkage.isSome = true) :
    ∃ g, natives[i]? = some (some g) := by
  obtain ⟨f, entry, describes⟩ := built.faithful.callable.entry i decl here
  obtain ⟨function, at_i, made⟩ := function_of_entry loaded entry
  obtain ⟨library, symbol, rfl⟩ := native_of_function made (describes.native.trans native)
  have found := (Linker.linkAll_eq_ok linked).2 i library symbol
    (by rw [Array.getElem?_toList]; exact at_i)
  rwa [Array.size_empty, Nat.zero_add] at found

theorem beside_linkedTo {env : Env σ} {free : Bool}
    (faithful : Faithful source settings program p)
    (texts : ∀ t i, table.findIdx? (· = t) = some i → text t = env.image.address i)
    (address : ∀ x c, p.decls.consts.lookup? x = some c → c.ty.isConstString = true →
      image.address c.bits.toUInt32.toNat = env.image.address c.bits.toUInt32.toNat)
    (reads : ∀ v, v = 0 ∨ settings.optLevel = .fast →
      ∃ used, (free = false → used = []) ∧ ∀ store, Yields unassigned used store (.ok v) store)
    (quiet : ∀ store choices, (unassigned store choices).2.1 = store)
    (native : ∀ (i : Nat) decl, program.callable[i]? = some decl → decl.linkage.isSome = true →
      ∃ g, env.natives[i]? = some (some g) ∧ natives[i]? = some (some g) ∧
        g.DependsOn decl.params.length image env.image) :
    Beside settings program p table env (linkedTo source program image natives text unassigned) id free where
  functions := rfl
  globals := rfl
  const_eq x := by rw [faithful.consts]; rfl
  text := texts
  address := address
  unassigned ty v allowed := reads v (allowed.imp id And.left)
  quiet ty := quiet
  native i decl here linked := by
    obtain ⟨g, bound, bound', depends⟩ := native i decl here linked
    refine ⟨g, bound, fun regs args globals arrays world length given => ⟨[], fun _ => rfl, ?_⟩⟩
    have same : g image (.ofList args) world = g env.image regs world := by
      refine depends _ _ world fun j low => ?_
      have low : j < args.length := length ▸ low
      have arg := given j _ (List.getElem?_eq_getElem low)
      obtain ⟨inside, -⟩ := Vector.getElem?_eq_some_iff.1 arg
      rw [arg, Vector.getElem?_eq_getElem inside, NativeArgs.ofList, Vector.getElem_ofFn]
      exact congrArg some (by rw [List.getD_eq_getElem?_getD, List.getElem?_eq_getElem low]; rfl)
    have known : natives[i]?.join = some g := by
      rw [bound']
      rfl
    have called : (linkedTo source program image natives text unassigned).native i args =
        Eval.outside (g image (.ofList args)) := by
      simp only [linkedTo, known]
    intro more
    rw [called]
    change (Except.ok (g image (.ofList args) world).1,
      (⟨globals, arrays, (g image (.ofList args) world).2⟩ : Store σ), more) = _
    rw [same]
    rfl
  still i args store choices := by
    unfold linkedTo
    dsimp only
    cases natives[i]?.join <;> rfl

theorem text_of_loaded (loaded : ofCodefile (codefileOf settings p table bodies) = .ok image)
    (t : String) (i : Nat) (found : table.findIdx? (· = t) = some i) :
    (image.textAddress? t).getD 0 = image.address i := by
  rw [textAddress?_eq loaded, found]
  rfl

end Emission

/-! ## Correctness -/

/-- A run ends as an evaluation does. -/
inductive EndsAs : Except Fault Value → Except Stop Value → Prop where
  | ok (v : Value) : EndsAs (.ok v) (.ok v)
  | trap {fault : Fault} {t : Trap} (kind : fault.trap? = some t) :
      EndsAs (.error fault) (.error (.trap t))

/-- A run of a machine leaves what an evaluation leaves. -/
structure Leaves (run : Except Fault Value × Vm σ × σ) (r : Except Stop Value) (store : Store σ) :
    Prop where
  ends : EndsAs run.1 r
  globals : run.2.1.globals = store.globals
  arrays : run.2.1.lastRun.arrays = store.arrays
  world : run.2.2 = store.world

variable {x : Eval σ Value} {store : Store σ}

/-- A run that follows an evaluation is cut off by its step limit, or leaves what the evaluation leaves. -/
theorem limited_or_leaves {world : σ}
    (follows : Emission.Follows vm.settings id free x store (call ⟨image, natives, vm.settings⟩
      vm.settings.maxCallDepth image.entry (.initial image.globals world))) : (vm.settings.maxSteps ≠ none ∧
        ∃ limit, (vm.runImage image natives world).1 = .error (.stepLimitExceeded limit)) ∨
      ∃ r store' used, (free = false → used = []) ∧ Yields x used store r store' ∧
        Leaves (vm.runImage image natives world) r store' := by
  rw [Vm.runImage_eq]
  generalize call ⟨image, natives, vm.settings⟩ vm.settings.maxCallDepth image.entry
    (.initial image.globals world) = out at follows
  cases follows with
  | limited bounded => exact .inl ⟨bounded, _, rfl⟩
  | ok may yields => exact .inr ⟨_, _, _, may, yields, .ok _, rfl, rfl, rfl⟩
  | trap may kind yields => exact .inr ⟨_, _, _, may, yields, .trap kind, rfl, rfl, rfl⟩

/-- Without a step limit, a run that follows an evaluation leaves what it leaves. -/
theorem leaves_of_follows {world : σ} (unlimited : vm.settings.maxSteps = none)
    (follows : Emission.Follows vm.settings id free x store (call ⟨image, natives, vm.settings⟩
      vm.settings.maxCallDepth image.entry (.initial image.globals world))) :
    ∃ r store' used, (free = false → used = []) ∧ Yields x used store r store' ∧
      Leaves (vm.runImage image natives world) r store' :=
  (limited_or_leaves follows).resolve_left fun limited => limited.1 unlimited

/-- A machine is prepared to run a program: the code of the program, which was emitted without mistakes, is
installed, its native functions are found, and there is no step limit. -/
structure Prepared (source : SourceText) (settings : EmitSettings) (program : Program) (image : Image)
    (vm : Vm σ) (loader : Loader σ) (natives : Array (Option (NativeFn σ))) : Prop where
  emitted : ∃ output, emit program source settings = .ok output ∧ output.report.hasErrors = false ∧
    output.codefile.Numbered ∧ ofCodefile output.codefile = .ok image
  executable : settings.fileType = .executable
  installed : vm.image = some image
  unlimited : vm.settings.maxSteps = none
  linked : ∃ linker, vm.linker.linkAll loader vm.host image.functions.toList #[] = (.ok natives, linker)

/-- What a program finds when it starts. -/
def initialStore (program : Program) (world : σ) : Store σ :=
  ⟨(program.globals.map initialValue).toArray, .empty, world⟩

open Emission in
/-- A program runs as it is evaluated when it is linked to the same: to an image in which texts and constants
lie at the same addresses, and to the same native functions. -/
theorem Prepared.leaves {program : Program} (prepared : Prepared source settings program image vm loader natives)
    {base : Image} {natives0 : Array (Option (NativeFn σ))}
    (texts : ∀ t a, image.textAddress? t = some a → text t = a)
    (address : ∀ x c, (constants source program).lookup? x = some c → c.ty.isConstString = true →
      base.address c.bits.toUInt32.toNat = image.address c.bits.toUInt32.toNat)
    (reads : ∀ v, v = 0 ∨ settings.optLevel = .fast →
      ∃ used, (free = false → used = []) ∧ ∀ store, Yields unassigned used store (.ok v) store)
    (quiet : ∀ store choices, (unassigned store choices).2.1 = store)
    (declared : ∀ (i : Nat) decl g, program.callable[i]? = some decl → decl.linkage.isSome = true →
      natives[i]? = some (some g) →
      natives0[i]? = some (some g) ∧ g.DependsOn decl.params.length base image) (world : σ) :
    ∃ r store used, (free = false → used = []) ∧
      Yields ((linkedTo source program base natives0 text unassigned).run vm.settings.maxCallDepth) used
        (initialStore program world) r store ∧ Leaves (vm.executeMain loader world) r store := by
  obtain ⟨⟨output, emitted, clean, numbered, loaded⟩, executable, installed, unlimited, linker, linked⟩ :=
    prepared
  obtain ⟨table, bodies, built, codefile⟩ := built_of_clean emitted clean
  rw [codefile] at numbered loaded
  generalize declareProgram source settings program = p at built numbered loaded
  let env : Env σ := ⟨image, natives, vm.settings⟩
  have beside : Beside settings program p table env
      (linkedTo source program base natives0 text unassigned) id free := by
    refine beside_linkedTo built.faithful (fun t i found => texts t _ ?_)
      (fun x c found string => address x c (built.faithful.consts ▸ found) string) reads quiet
      fun i decl here native => ?_
    · rw [textAddress?_eq loaded, found]
      rfl
    · obtain ⟨g, bound⟩ := native_of_linked built loaded linked here native
      exact ⟨g, bound, declared i decl g here native bound⟩
  have fileType : image.fileType = .executable := by
    obtain ⟨functions, -, rfl⟩ := ofCodefile_eq_ok loaded
    exact executable
  rw [Vm.executeMain_eq installed fileType linked world]
  exact leaves_of_follows (show ({ vm with linker } : Vm σ).settings.maxSteps = none from unlimited)
    (follows_run built beside numbered loaded executable vm.settings.maxCallDepth world)

theorem yields_pure_zero {ω : Type} (level : settings.optLevel ≠ .fast) (v : Value)
    (allowed : v = 0 ∨ settings.optLevel = .fast) : ∃ used, (false = false → used = []) ∧
      ∀ store, Yields (pure 0 : Eval ω Value) used store (.ok v) store := by
  obtain rfl | fast := allowed
  · exact ⟨[], fun _ => rfl, fun store => .pure 0 store⟩
  · exact absurd fast level

/-- Without the fast level, a program runs as it is evaluated: with the same result or the same fault, and to
the same globals, arrays and world. Native functions may keep a record of their calls in the world, so the
calls are the same, too. -/
theorem executeMain_eq_run {source : SourceText} {settings : EmitSettings} {program : Program}
    {image : Image} {vm : Vm σ} {loader : Loader σ} {natives : Array (Option (NativeFn σ))}
    (prepared : Prepared source settings program image vm loader natives) (level : settings.optLevel ≠ .fast)
    (declared : ∀ (i : Nat) decl g, program.callable[i]? = some decl → natives[i]? = some (some g) →
      g.DependsOn decl.params.length image image) (world : σ) : ∃ r store,
      (linkedTo source program image natives (fun t => (image.textAddress? t).getD 0) (pure 0)).run
        vm.settings.maxCallDepth (initialStore program world) [] = (r, store, []) ∧
      Leaves (vm.executeMain loader world) r store := by
  have texts : ∀ t a, image.textAddress? t = some a → (image.textAddress? t).getD 0 = a := by
    intro t a found
    rw [found]
    rfl
  obtain ⟨r, store, used, none, yields, leaves⟩ := prepared.leaves texts (fun _ _ _ _ => rfl)
    (yields_pure_zero level) (fun _ _ => rfl)
    (fun i decl g here _ bound => ⟨bound, declared i decl g here bound⟩) world
  cases none rfl
  exact ⟨r, store, yields [], leaves⟩

/-- Whether a text is emitted without mistakes, to code that is loaded as an image. -/
def emitsTo (source : SourceText) (settings : EmitSettings) (image : Image) : Bool :=
  match emit (parse source).1 source settings with
  | .error _ => false
  | .ok output =>
    !output.report.hasErrors && decide (output.codefile.functions.length < 2 ^ 32) &&
      decide (output.codefile.globals.length < 2 ^ 32) &&
      decide (output.codefile.strings.length < 2 ^ 32) &&
      decide ((ofCodefile output.codefile).toOption = some image)

theorem of_emitsTo (holds : emitsTo source settings image = true) :
    ∃ output, emit (parse source).1 source settings = .ok output ∧ output.report.hasErrors = false ∧
      output.codefile.Numbered ∧ ofCodefile output.codefile = .ok image := by
  unfold emitsTo at holds
  generalize emit (parse source).1 source settings = emitted at holds ⊢
  cases emitted with
  | error e => cases holds
  | ok output =>
    simp only [Bool.and_eq_true, Bool.not_eq_true', decide_eq_true_eq] at holds
    obtain ⟨⟨⟨⟨clean, functions⟩, globals⟩, strings⟩, loaded⟩ := holds
    refine ⟨output, rfl, clean, ⟨functions, globals, strings⟩, ?_⟩
    cases result : ofCodefile output.codefile with
    | error e =>
      rw [result] at loaded
      cases loaded
    | ok image' =>
      rw [result] at loaded
      cases loaded
      rfl

/-- The image of `lengthOfText`. -/
def lengthOfImage : Image where
  fileType := .executable
  entry := 1
  functions := #[.native "host" "strlen", .bytecode 0 0 [8, 16, 2, 0, 0, 0, 97, 0, 1, 16, 1, 1, 98]]
  globals := #[7]
  strings := #[[104, 111, 115, 116, 0], [115, 116, 114, 108, 101, 110, 0], [104, 105, 0]]

/-- A native function that notes its argument. -/
def recorder : NativeFn (List Value) :=
  fun _ args calls => (2, calls ++ [args.get ⟨0, by decide⟩])

/-- A machine whose host offers the recorder. -/
def recording : Vm (List Value) :=
  { Vm.new {} with host := HostFunctions.empty.register "host" "strlen" recorder }

theorem recorder_dependsOn {count : Nat} (some_arg : 0 < count) (image image' : Image) :
    recorder.DependsOn count image image' := by
  intro regs regs' calls same
  have first := same 0 some_arg
  have first : regs.get ⟨0, by decide⟩ = regs'.get ⟨0, by decide⟩ := Option.some.inj first
  rw [recorder, recorder, first]

theorem prepared_recording : Prepared lengthOfText {} (parse lengthOfText).1 lengthOfImage
    (recording.setImage lengthOfImage) .none #[some recorder, none] where
  emitted := of_emitsTo (by decide +kernel)
  executable := rfl
  installed := rfl
  unlimited := rfl
  linked := ⟨recording.linker, rfl⟩

theorem executeMain_eq_run_recording : ∃ r store,
      (linkedTo lengthOfText (parse lengthOfText).1 lengthOfImage #[some recorder, none]
        (fun t => (lengthOfImage.textAddress? t).getD 0) (pure 0)).run
        (recording.setImage lengthOfImage).settings.maxCallDepth
        (initialStore (parse lengthOfText).1 []) [] = (r, store, []) ∧
      Leaves ((recording.setImage lengthOfImage).executeMain .none []) r store := by
  have params : ((parse lengthOfText).1.callable.map fun decl => decl.params.length) = [1, 0] := by
    decide +kernel
  have prepared := prepared_recording
  generalize (parse lengthOfText).1 = program at params prepared ⊢
  refine executeMain_eq_run prepared nofun (fun i decl g here bound => ?_) []
  have count := congrArg (Option.map fun decl : FunctionDecl => decl.params.length) here
  rw [← List.getElem?_map, params] at count
  match i with
  | 0 =>
    have one : 1 = decl.params.length := Option.some.inj count
    cases (Option.some.inj bound : some recorder = some g)
    exact recorder_dependsOn (by omega) _ _
  | 1 => cases (Option.some.inj bound : none = some g)
  | i + 2 => cases (bound : none = some (some g))

/-! ## Faults of malformed code -/

/-- Whether only malformed code can cause a fault. -/
def Fault.isMalformed : Fault → Bool
  | invalidInstruction .. | fellOffEnd .. | badFunction .. | badGlobal .. | badString .. | badSlot ..
  | stackUnderflow .. => true
  | noImage | noEntryPoint | link .. | divisionByZero .. | callDepthExceeded .. | stepLimitExceeded ..
  | nullArray | staleArray .. | arrayIndexOutOfBounds .. | arrayTooLarge .. => false

theorem Fault.isMalformed_of_trap {fault : Fault} {t : Trap} (kind : fault.trap? = some t) :
    fault.isMalformed = false := by
  cases fault <;> first | rfl | cases kind

/-- A program whose native functions and unassigned locals may give any value, and that sees nothing of the
world. -/
def anyhow (source : SourceText) (program : Program) (image : Image) : Linked Unit where
  functions := program.callable
  globals := program.globals
  const? := (Emission.constants source program).lookup?
  text t := (image.textAddress? t).getD 0
  address := image.address
  unassigned _ := Eval.choose
  native _ _ := Eval.choose

theorem yields_choose {ω : Type} (v : Value) (store : Store ω) : Yields Eval.choose [v] store (.ok v) store :=
  fun _ => rfl

open Emission in
theorem beside_anyhow {program : Program} {p : ProgramDecls} {table : Array String}
    {bodies : Array (Option FinishedBody)} (env : Env σ) (built : Built source settings program p table bodies)
    (loaded : ofCodefile (codefileOf settings p table bodies) = .ok env.image)
    (native : ∀ (i : Nat) decl, program.callable[i]? = some decl → decl.linkage.isSome = true →
      ∃ g, env.natives[i]? = some (some g)) :
    Beside settings program p table env (anyhow source program env.image) (fun _ => ()) true where
  functions := rfl
  globals := rfl
  const_eq x := by
    rw [built.faithful.consts]
    rfl
  text := text_of_loaded loaded
  address _ _ _ _ := rfl
  unassigned _ v _ := ⟨[v], nofun, yields_choose v⟩
  quiet _ _ _ := rfl
  native i decl here linked := by
    obtain ⟨g, bound⟩ := native i decl here linked
    exact ⟨g, bound, fun regs args globals arrays world _ _ => ⟨[_], nofun, yields_choose _ _⟩⟩

open Emission in
/-- The code of a program without mistakes can be loaded, and on no level, with any native functions and any
limits, a run of it ends in a fault that only malformed code can cause. A fault ends all calls that are
open, so there is none in any of them. -/
theorem executeMain_never_malformed {source : SourceText} {settings : EmitSettings} {program : Program}
    {output : EmitOutput} (emitted : emit program source settings = .ok output)
    (clean : output.report.hasErrors = false) (numbered : output.codefile.Numbered) :
    ∃ image, Image.ofCodefile output.codefile = .ok image ∧
      ∀ (vm : Vm σ) (loader : Loader σ) (world : σ), vm.image = some image →
        ∀ fault, (vm.executeMain loader world).1 = .error fault → fault.isMalformed = false := by
  obtain ⟨table, bodies, built, codefile⟩ := built_of_clean emitted clean
  rw [codefile] at numbered ⊢
  obtain ⟨image, loaded⟩ := built.exists_image
  refine ⟨image, loaded, fun vm loader world installed fault failed => ?_⟩
  have fileType : image.fileType = settings.fileType := by
    obtain ⟨functions, -, rfl⟩ := Image.ofCodefile_eq_ok loaded
    rfl
  rw [Vm.executeMain, installed] at failed
  dsimp only at failed
  split at failed
  · cases failed
    rfl
  next executable =>
  have executable : settings.fileType = .executable := by
    cases kind : settings.fileType with
    | executable => rfl
    | library => exact absurd (fileType.trans kind) executable
  split at failed
  · next missing =>
    cases failed
    obtain ⟨library, symbol, reason, rfl⟩ := Linker.linkAll_eq_error missing
    rfl
  · next natives linker linked =>
    let env : Env σ := ⟨image, natives, vm.settings⟩
    have beside := beside_anyhow env built loaded fun i decl here native =>
      native_of_linked built loaded linked here native
    have follows := follows_run built beside numbered loaded executable vm.settings.maxCallDepth world
    change (call env vm.settings.maxCallDepth image.entry (.initial image.globals world)).1 = .error fault at failed
    generalize call env vm.settings.maxCallDepth env.image.entry (.initial env.image.globals world) = out
      at follows failed
    cases follows with
    | limited bounded =>
      cases failed
      rfl
    | ok may yields => cases failed
    | trap may kind yields =>
      cases failed
      exact Fault.isMalformed_of_trap kind

theorem executeMain_never_malformed_recording :
    ∃ output image, emit (parse lengthOfText).1 lengthOfText {} = .ok output ∧
      Image.ofCodefile output.codefile = .ok image ∧
      ∀ (vm : Vm (List Value)) (loader : Loader (List Value)) (calls : List Value), vm.image = some image →
        ∀ fault, (vm.executeMain loader calls).1 = .error fault → fault.isMalformed = false := by
  obtain ⟨output, emitted, clean, numbered, -⟩ := prepared_recording.emitted
  obtain ⟨image, loaded, safe⟩ := executeMain_never_malformed emitted clean numbered
  exact ⟨output, image, emitted, loaded, safe⟩

end RegisterLang
