import RegisterLang.Machine.Run

/-! # The virtual machine

A machine keeps an image, the functions of its host and the libraries it opened. Every run starts from
the image's globals. The registers, the stack and all else that a run works on outlive it, and are reset
when the next one starts. A run that cannot start leaves what the last one left.
-/

namespace RegisterLang

/-- What a run works on. -/
structure Context where
  regs : Machine.Registers
  flags : Flags
  stack : Array Value
  arrays : ArrayHeap
  /-- How many frames are open. -/
  depth : Nat
  steps : Nat
  jumps : Array Machine.JumpRecord

namespace Context

variable {σ : Type}

def empty : Context :=
  ⟨Vector.replicate registerCount 0, .clear, #[], .empty, 0, 0, #[]⟩

def reset (c : Context) : Context :=
  { c with
    regs := Vector.replicate registerCount 0
    flags := .clear
    stack := #[]
    arrays := .empty
    depth := 0
    steps := 0
    jumps := #[] }

def state (c : Context) (globals : Array Value) (world : σ) : Machine.State σ :=
  ⟨c.regs, c.flags, c.stack, c.arrays, globals, c.steps, c.jumps, world⟩

/-- The context after a call that leaves a state. A call closes the frames that it opens. -/
def after (c : Context) (s : Machine.State σ) : Context :=
  ⟨s.regs, s.flags, s.stack, s.arrays, c.depth, s.steps, s.jumps⟩

end Context

/-- What can be seen of the last run. -/
structure LastRun where
  steps : Nat
  jumps : Array Machine.JumpRecord
  arrays : ArrayHeap
  deriving DecidableEq, Repr, Inhabited

/-- A virtual machine whose native functions act on a world of type `σ`. -/
structure Vm (σ : Type) where
  settings : VmSettings
  host : HostFunctions σ
  linker : Linker σ
  image : Option Image
  globals : Array Value
  natives : Array (Option (NativeFn σ))
  context : Context

namespace Vm

variable {σ : Type}

def new (settings : VmSettings) : Vm σ :=
  { settings
    host := .empty
    linker := .ofPaths settings.libraryPaths
    image := none
    globals := #[]
    natives := #[]
    context := .empty }

def setImage (vm : Vm σ) (image : Image) : Vm σ :=
  { vm with
    image := some image
    globals := image.globals
    natives := Array.replicate image.functions.size none }

/-- What a machine gives and keeps when its run is over. -/
def conclude (vm : Vm σ) (natives : Array (Option (NativeFn σ))) (out : Machine.Outcome σ Value) :
    Except Fault Value × Vm σ × σ :=
  (out.1, { vm with natives, globals := out.2.globals, context := vm.context.after out.2 }, out.2.world)

def runImage (vm : Vm σ) (image : Image) (natives : Array (Option (NativeFn σ))) (world : σ) :
    Except Fault Value × Vm σ × σ :=
  let context := vm.context.reset
  { vm with context }.conclude natives <|
    Machine.call ⟨image, natives, vm.settings⟩ (vm.settings.maxCallDepth - context.depth) image.entry
      (context.state image.globals world)

/-- Nothing that the last run left is there when a run starts. -/
theorem runImage_eq (vm : Vm σ) (image : Image) (natives : Array (Option (NativeFn σ))) (world : σ) :
    vm.runImage image natives world = { vm with context := vm.context.reset }.conclude natives
      (Machine.call ⟨image, natives, vm.settings⟩ vm.settings.maxCallDepth image.entry
        (.initial image.globals world)) :=
  rfl

def executeMain (vm : Vm σ) (loader : Loader σ) (world : σ) : Except Fault Value × Vm σ × σ :=
  match vm.image with
  | none => (.error .noImage, vm, world)
  | some image =>
    if image.fileType = .library then (.error .noEntryPoint, vm, world)
    else
      match vm.linker.linkAll loader vm.host image.functions.toList #[] with
      | (.error fault, linker) => (.error fault, { vm with linker }, world)
      | (.ok natives, linker) => { vm with linker }.runImage image natives world

def global? (vm : Vm σ) (index : Nat) : Option Value :=
  vm.globals[index]?

def lastRun (vm : Vm σ) : LastRun :=
  ⟨vm.context.steps, vm.context.jumps, vm.context.arrays⟩

def liveArrays (vm : Vm σ) : Nat :=
  vm.lastRun.arrays.live

end Vm

end RegisterLang
