import RegisterLang.Proofs.Correctness
import RegisterLang.Proofs.Instrumentation

/-! # Runs are independent of one another

A machine keeps its image, the functions of its host and the libraries that it has opened. Nothing else of what was done
with it reaches into a run, and a run that cannot start leaves everything as it was. Main statement:
`executeMain_independent`.
-/

namespace RegisterLang

variable {σ : Type} {fault : Fault}

/-! ## What can be done with a machine -/

namespace Vm

/-- What can be done with a machine from outside. -/
inductive Deed (σ : Type) where
  | install (image : Image)
  | register (library symbol : String) (f : NativeFn σ)
  /-- Offer these functions of the host in place of all others. -/
  | offer (host : HostFunctions σ)
  | run

/-- The machine and the world after something was done. -/
def perform (loader : Loader σ) (before : Vm σ × σ) : Deed σ → Vm σ × σ
  | .install image => (before.1.setImage image, before.2)
  | .register library symbol f => ({ before.1 with host := before.1.host.register library symbol f }, before.2)
  | .offer host => ({ before.1 with host }, before.2)
  | .run => (before.1.executeMain loader before.2).2

/-- A new machine with the settings, the functions of the host and the image of this one. -/
def renewed (vm : Vm σ) : Vm σ :=
  let new := { Vm.new vm.settings with host := vm.host }
  vm.image.elim new new.setImage

end Vm

/-- Whether a fault keeps a run from starting. -/
def Fault.preventsRun : Fault → Bool
  | noImage | noEntryPoint | link .. => true
  | _ => false

/-- A function whose results do not depend on the world. -/
def NativeFn.Steady (f : NativeFn σ) : Prop :=
  ∀ image args world world', (f image args world).1 = (f image args world').1

/-! ## Libraries that were opened before -/

namespace Linker

/-- A linker looks in these directories, and every library that it has open is the one that it would open now. -/
structure Sound (loader : Loader σ) (paths : List String) (l : Linker σ) : Prop where
  searchPaths : l.searchPaths = paths
  faithful : ∀ name library, l.libraries.lookup name = some library →
    openFirst loader (paths.map (join · (fileName name)) ++ [fileName name]) "no candidate paths" = .ok library

variable {loader : Loader σ} {paths : List String} {l : Linker σ}

theorem sound_ofPaths (loader : Loader σ) (paths : List String) : (ofPaths paths).Sound loader paths where
  searchPaths := rfl
  faithful name library found := by cases found

theorem Sound.openLibrary (sound : l.Sound loader paths) (name : String) : (l.openLibrary loader name).1 =
        openFirst loader (paths.map (join · (fileName name)) ++ [fileName name]) "no candidate paths" ∧
      (l.openLibrary loader name).2.Sound loader paths := by
  rw [Linker.openLibrary, sound.searchPaths]
  cases opened : l.libraries.lookup name with
  | some library => exact ⟨(sound.faithful name library opened).symm, sound⟩
  | none =>
    dsimp only
    cases found : openFirst loader (paths.map (join · (fileName name)) ++ [fileName name]) "no candidate paths" with
    | error reason => exact ⟨rfl, sound⟩
    | ok library =>
      refine ⟨rfl, rfl, ?_⟩
      intro other library' here
      rw [List.lookup_cons] at here
      by_cases same : other = name
      · subst same
        rw [beq_self_eq_true] at here
        cases here
        exact found
      · rw [beq_false_of_ne same] at here
        exact sound.faithful other library' here

/-- What was opened before makes no difference to the function that is found. -/
theorem Sound.resolve (sound : l.Sound loader paths) (host : HostFunctions σ) (library symbol : String) :
    (l.resolve loader host library symbol).1 = ((ofPaths paths).resolve loader host library symbol).1 ∧
      (l.resolve loader host library symbol).2.Sound loader paths := by
  obtain ⟨first, after⟩ := sound.openLibrary library
  obtain ⟨first', -⟩ := (sound_ofPaths loader paths).openLibrary library
  rw [← first'] at first
  rw [Linker.resolve, Linker.resolve]
  cases host.lookup? library symbol with
  | some f => exact ⟨rfl, sound⟩
  | none =>
    generalize l.openLibrary loader library = opened at *
    generalize (ofPaths paths).openLibrary loader library = opened' at *
    obtain ⟨result, l1⟩ := opened
    obtain ⟨result', l1'⟩ := opened'
    cases first
    cases result with
    | error reason => exact ⟨rfl, after⟩
    | ok lib =>
      dsimp only
      cases lib (symbolName symbol) with
      | some _ | none => exact ⟨rfl, after⟩

theorem Sound.linkAll (sound : l.Sound loader paths) (host : HostFunctions σ) (functions : List ImageFunction)
    (bound : Array (Option (NativeFn σ))) :
    (l.linkAll loader host functions bound).1 = ((ofPaths paths).linkAll loader host functions bound).1 ∧
      (l.linkAll loader host functions bound).2.Sound loader paths := by
  induction functions generalizing l bound with
  | nil => exact ⟨rfl, sound⟩
  | cons function functions ih =>
    cases function with
    | bytecode reserve stackArgs code => exact ih sound _
    | native library symbol =>
      obtain ⟨same, after⟩ := sound.resolve host library symbol
      obtain ⟨-, after'⟩ := (sound_ofPaths loader paths).resolve host library symbol
      rw [Linker.linkAll, Linker.linkAll]
      generalize l.resolve loader host library symbol = resolved at *
      generalize (ofPaths paths).resolve loader host library symbol = resolved' at *
      obtain ⟨result, l1⟩ := resolved
      obtain ⟨result', l1'⟩ := resolved'
      cases same
      cases result with
      | error fault => exact ⟨rfl, after⟩
      | ok binding => exact ⟨(ih after _).1.trans (ih after' _).1.symm, (ih after _).2⟩

end Linker

/-! ## Runs that start -/

theorem Fault.preventsRun_of_trap (traps : ∃ t, fault.trap? = some t) : fault.preventsRun = false := by
  obtain ⟨t, kind⟩ := traps
  cases fault with
  | noImage | noEntryPoint | link => cases kind
  | _ => rfl

namespace Machine

variable {env : Env σ}

theorem preventsRun_step {frame : Frame} {offset next : Nat} {i : Instruction} {s s' : State σ}
    (failed : step env frame offset next i s = (.error fault, s')) : fault.preventsRun = false := by
  have refused {α : Type} {result : Except Fault α × ArrayHeap} {go : α → State σ → State σ}
      (failed : onArrays result go s = (.error fault, s')) : result = (.error fault, result.2) :=
    Prod.ext (onArrays_eq_error.1 (congrArg Prod.fst failed)) rfl
  cases i with
  | arrayNew dst length =>
    rw [step] at failed
    exact Fault.preventsRun_of_trap (ArrayHeap.trap_of_create (refused failed))
  | arrayGet dst array index =>
    rw [step] at failed
    exact Fault.preventsRun_of_trap (ArrayHeap.trap_of_get (refused failed))
  | arraySet array index value =>
    rw [step] at failed
    exact Fault.preventsRun_of_trap (ArrayHeap.trap_of_set (refused failed))
  | arrayDestroy reg =>
    rw [step] at failed
    exact Fault.preventsRun_of_trap (ArrayHeap.trap_of_destroy (refused failed))
  | _ =>
    simp only [step, jump, advance] at failed
    repeat' split at failed
    all_goals cases failed
    all_goals rfl

/-- A run that has started does not end in a fault that keeps runs from starting. -/
theorem Executes.preventsRun {task : Task} {s : State σ} {frames : List (List (Moment σ))} {out : Outcome σ Value}
    (executes : Executes env task s frames out) (failed : out.1 = .error fault) : fault.preventsRun = false := by
  induction executes with
  | fellOff | limited | invalid | missing | tooDeep | underflow =>
    cases failed
    rfl
  | fault fetches stepped =>
    cases failed
    exact preventsRun_step stepped
  | ret fetches stepped => cases failed
  | next fetches stepped rest ih | skip fetches stepped rest ih => exact ih failed
  | callFails fetches stepped called ih => exact ih failed
  | callReturns fetches stepped called rest ih_call ih => exact ih failed
  | native found =>
    rw [callNative] at failed
    split at failed
    · cases failed
      rfl
    · cases failed
  | @body _ _ _ _ _ _ _ frame _ out found room entered ran ih =>
    rcases out with ⟨fault' | v, s⟩
    · exact ih failed
    · cases failed

theorem preventsRun_main {world : σ} (failed : (env.main world).1 = .error fault) : fault.preventsRun = false := by
  obtain ⟨frames, out, executes⟩ := exists_executes_call env 0 env.image.entry (.initial env.image.globals world)
  have same := executes.eq_call
  subst same
  exact executes.preventsRun failed

/-- The same machine, with native functions that give what they give in this world. -/
def Env.still (env : Env σ) (world : σ) : Env Unit where
  image := env.image
  natives := env.natives.map (Option.map fun f image args _ => ((f image args world).1, ()))
  settings := env.settings

theorem mirrors_still (steady : ∀ f, some f ∈ env.natives → NativeFn.Steady f) (world : σ) :
    env.Mirrors (env.still world) id fun _ => () where
  image := rfl
  maxCallDepth := rfl
  maxSteps := rfl
  records _ _ := rfl
  natives index s := by
    simp only [callNative, Env.still, Array.getElem?_map]
    cases found : env.natives[index.toNat]? with
    | none => rfl
    | some native =>
      cases native with
      | none => rfl
      | some f =>
        have same := steady f (Array.mem_of_getElem? found) env.image s.nativeArgs world s.world
        change returned (.ok (f env.image s.nativeArgs world).1, _) = _
        rw [same]
        rfl

/-- Where the native functions do not depend on the world, a run in another world is the same apart from the world. -/
theorem view_main (steady : ∀ f, some f ∈ env.natives → NativeFn.Steady f) (world world' : σ) :
    (env.main world').1 = (env.main world).1 ∧
      (env.main world').2.view id (fun _ => ()) = (env.main world).2.view id fun _ => () := by
  have mirrors := mirrors_still steady world
  have same := mirrors.call env.image.entry (.initial env.image.globals world)
  have same' := mirrors.call env.image.entry (.initial env.image.globals world')
  have both := same'.symm.trans same
  exact Prod.mk.inj both

end Machine

open Machine

namespace Vm

/-- The linker of a machine looks where the settings say, and has kept what it found there. -/
def Sound (loader : Loader σ) (vm : Vm σ) : Prop :=
  vm.linker.Sound loader vm.settings.libraryPaths

variable {loader : Loader σ} {vm : Vm σ}

/-- A machine starts a run, or cannot and changes nothing but what its linker has opened. -/
theorem Sound.executeMain_cases (sound : vm.Sound loader) (world : σ) :
    (∃ fault linker, fault.preventsRun = true ∧ linker.Sound loader vm.settings.libraryPaths ∧
      vm.executeMain loader world = (.error fault, { vm with linker }, world)) ∨
    ∃ image natives linker, vm.image = some image ∧ image.fileType = .executable ∧
      vm.linker.linkAll loader vm.host image.functions.toList #[] = (.ok natives, linker) ∧
      linker.Sound loader vm.settings.libraryPaths ∧
      vm.executeMain loader world = { vm with linker }.runImage image natives world := by
  obtain ⟨settings, host, opened, image, globals, bound, context⟩ := vm
  cases image with
  | none => exact .inl ⟨.noImage, opened, rfl, sound, rfl⟩
  | some image =>
    cases kind : image.fileType with
    | library => exact .inl ⟨.noEntryPoint, opened, rfl, sound, if_pos kind⟩
    | executable =>
      have after := (Linker.Sound.linkAll sound host image.functions.toList #[]).2
      cases linked : opened.linkAll loader host image.functions.toList #[] with
      | mk result linker =>
        rw [linked] at after
        cases result with
        | ok natives =>
          exact .inr ⟨image, natives, linker, rfl, kind, linked, after, executeMain_eq rfl kind linked world⟩
        | error fault =>
          obtain ⟨name, symbol, reason, rfl⟩ := Linker.linkAll_eq_error linked
          refine .inl ⟨.link name symbol reason, linker, rfl, after, ?_⟩
          rw [executeMain]
          dsimp only
          rw [kind, linked]
          rfl

theorem Sound.perform (sound : vm.Sound loader) (world : σ) (deed : Deed σ) :
    (perform loader (vm, world) deed).1.Sound loader := by
  cases deed with
  | install _ | register _ _ _ | offer _ => exact sound
  | run =>
    rcases sound.executeMain_cases world with
      ⟨fault, linker, -, after, ran⟩ | ⟨image, natives, linker, -, -, -, after, ran⟩
    · rw [Vm.perform, ran]
      exact after
    · rw [Vm.perform, ran]
      exact after

theorem Sound.foldl (world : σ) (sound : vm.Sound loader) (deeds : List (Deed σ)) :
    (deeds.foldl (Vm.perform loader) (vm, world)).1.Sound loader := by
  induction deeds generalizing vm world with
  | nil => exact sound
  | cons deed deeds ih => exact ih _ (sound.perform world deed)

theorem Sound.executeMain_renewed (sound : vm.Sound loader) {image : Image}
    {natives : Array (Option (NativeFn σ))} {linker : Linker σ} (installed : vm.image = some image)
    (executable : image.fileType = .executable)
    (linked : vm.linker.linkAll loader vm.host image.functions.toList #[] = (.ok natives, linker)) (world : σ) :
    ∃ new, vm.renewed.executeMain loader world =
      conclude new natives (Env.main ⟨image, natives, vm.settings⟩ world) := by
  have same := (Linker.Sound.linkAll sound vm.host image.functions.toList #[]).1
  rw [linked] at same
  have renewed : vm.renewed = { Vm.new vm.settings with host := vm.host }.setImage image := by
    rw [Vm.renewed, installed]
    rfl
  have linked' : vm.renewed.linker.linkAll loader vm.renewed.host image.functions.toList #[] =
      (.ok natives,
        ((Linker.ofPaths vm.settings.libraryPaths).linkAll loader vm.host image.functions.toList #[]).2) := by
    rw [renewed]
    exact Prod.ext same.symm rfl
  rw [executeMain_eq (by rw [renewed]; rfl) executable linked' world, renewed]
  exact ⟨_, rfl⟩

end Vm

/-- Whatever was done with a machine before, a run that gets past linking does what it does on a new machine with the
same settings, functions of the host and image. The run on the new machine may see another world when none of the
functions that are linked depends on the world. A run that cannot start leaves the globals, what can be seen of the
last run and the native functions as they were. -/
theorem executeMain_independent (settings : VmSettings) (loader : Loader σ) (start : σ) (deeds : List (Vm.Deed σ))
    {vm vm' : Vm σ} {world world' : σ} {result : Except Fault Value}
    (done : deeds.foldl (Vm.perform loader) (.new settings, start) = (vm, world))
    (ran : vm.executeMain loader world = (result, vm', world')) :
    ((∀ fault, result = .error fault → fault.preventsRun = false) →
      ∀ other, (other = world ∨ ∀ f, some f ∈ vm'.natives → NativeFn.Steady f) →
        ∃ renewed other', vm.renewed.executeMain loader other = (result, renewed, other') ∧
          renewed.globals = vm'.globals ∧ renewed.lastRun = vm'.lastRun ∧ renewed.liveArrays = vm'.liveArrays) ∧
    (∀ fault, result = .error fault → fault.preventsRun = true →
      vm'.globals = vm.globals ∧ vm'.lastRun = vm.lastRun ∧ vm'.liveArrays = vm.liveArrays ∧
        vm'.natives = vm.natives) := by
  have sound : vm.Sound loader := by
    have new : (Vm.new settings : Vm σ).Sound loader := Linker.sound_ofPaths loader _
    have sound := Vm.Sound.foldl start new deeds
    rw [done] at sound
    exact sound
  rcases sound.executeMain_cases world with
    ⟨fault, linker, prevented, -, ended⟩ | ⟨image, natives, linker, installed, executable, linked, -, started⟩
  · cases ran.symm.trans ended
    refine ⟨fun past => ?_, fun _ _ _ => ⟨rfl, rfl, rfl, rfl⟩⟩
    rw [past fault rfl] at prevented
    cases prevented
  · rw [started] at ran
    cases ran
    constructor
    · intro past other comparable
      obtain ⟨new, started'⟩ := sound.executeMain_renewed installed executable linked other
      have same : (Env.main ⟨image, natives, vm.settings⟩ other).1 = (Env.main ⟨image, natives, vm.settings⟩ world).1 ∧
          (Env.main ⟨image, natives, vm.settings⟩ other).2.view id (fun _ => ()) =
            (Env.main ⟨image, natives, vm.settings⟩ world).2.view id fun _ => () := by
        rcases comparable with rfl | steady
        · exact ⟨rfl, rfl⟩
        · exact view_main steady world other
      obtain ⟨result, state⟩ := same
      rw [started']
      refine ⟨_, _, Prod.ext result rfl, ?_, ?_, ?_⟩
      · exact congrArg (fun s => s.globals) state
      · exact congrArg (fun s => LastRun.mk s.steps s.jumps s.arrays) state
      · exact congrArg (fun s => s.arrays.live) state
    · intro fault failed prevented
      rw [preventsRun_main failed] at prevented
      cases prevented

/-- A program that adds one to its global, passes it to a native function and leaves an array behind. -/
def noting : Image where
  fileType := .executable
  entry := 0
  functions := #[
    .bytecode 0 0 ([.globalGet 1 0, .inc 1, .globalSet 1 0, .call8 1, .ldi8 2 1, .arrayNew 3 2, .ret].flatMap
      Instruction.encode),
    .native "host" "note"]
  globals := #[4]
  strings := #[]

/-- A function that gives its first argument back, in a world that counts its calls. -/
def note : NativeFn Nat :=
  fun _ args world => (args.toList.headD 0, world + 1)

/-- What is done with a machine: the program is run in vain before the function that it needs is registered, and then
once more. -/
def notingDeeds : List (Vm.Deed Nat) :=
  [.install noting, .run, .register "host" "note" note, .run]

/-- The machine after that, and the world. -/
def noted : Vm Nat × Nat :=
  notingDeeds.foldl (Vm.perform .none) (.new {}, 0)

theorem executeMain_independent_noting :
    (noted.2 = 1 ∧ ∃ new world, noted.1.renewed.executeMain .none 7 = (.ok 5, new, world) ∧ new.globals = #[5] ∧
      new.lastRun.steps = 7 ∧ new.liveArrays = 1) ∧
    ∃ vm world, [Vm.Deed.install noting].foldl (Vm.perform .none) (.new {}, 0) = (vm, world) ∧
      (vm.executeMain .none world).2.1.globals = #[4] := by
  constructor
  · have facts : noted.2 = 1 ∧ (noted.1.executeMain .none noted.2).1 = .ok 5 ∧
        (noted.1.executeMain .none noted.2).2.1.globals = #[5] ∧
        (noted.1.executeMain .none noted.2).2.1.lastRun.steps = 7 ∧
        (noted.1.executeMain .none noted.2).2.1.liveArrays = 1 := by
      decide +kernel
    have natives : (noted.1.executeMain .none noted.2).2.1.natives = #[none, some note] := rfl
    rcases ran : noted.1.executeMain .none noted.2 with ⟨result, vm, world⟩
    rw [ran] at facts natives
    obtain ⟨count, rfl, globals, steps, live⟩ := facts
    obtain ⟨past, -⟩ := executeMain_independent {} .none 0 notingDeeds (Prod.ext rfl rfl : _ = (noted.1, noted.2)) ran
    have steady : ∀ f, some f ∈ vm.natives → NativeFn.Steady f := by
      intro f linked
      rw [natives] at linked
      rcases List.mem_cons.1 (Array.mem_def.1 linked) with impossible | linked
      · cases impossible
      · cases List.mem_singleton.1 linked
        intro image args world world'
        rfl
    obtain ⟨new, other, ran', sameGlobals, sameRun, sameLive⟩ := past nofun 7 (.inr steady)
    refine ⟨count, new, other, ran', ?_, ?_, ?_⟩
    · rw [sameGlobals, globals]
    · rw [sameRun, steps]
    · rw [sameLive, live]
  · refine ⟨_, _, rfl, ?_⟩
    rcases ran : ((Vm.new {} : Vm Nat).setImage noting).executeMain .none 0 with ⟨result, vm, world⟩
    have prevented : ∃ fault, result = .error fault ∧ fault.preventsRun = true := by
      have failed : (((Vm.new {} : Vm Nat).setImage noting).executeMain .none 0).1 =
          .error (.link "host" "note" "libhost.so: cannot open shared object file") := by
        decide +kernel
      rw [ran] at failed
      exact ⟨_, failed, rfl⟩
    obtain ⟨fault, failed, prevents⟩ := prevented
    obtain ⟨-, kept⟩ := executeMain_independent {} .none 0 [.install noting] rfl ran
    exact (kept fault failed prevents).1

end RegisterLang
