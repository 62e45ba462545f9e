import RegisterLang.Machine.Fault
import RegisterLang.Machine.Image

/-! # Native functions

A native function takes ten words, may read the strings of the image, and may change the world outside
of the machine, whose type is a parameter. Functions registered by the host win over those of libraries.
A library is opened once and stays open.
-/

namespace RegisterLang

/-- How many registers a native function is given, from register one on. -/
def nativeArgCount : Nat := 10

abbrev NativeArgs : Type := Vector Value nativeArgCount

/-- A native function that acts on a world of type `σ`. -/
abbrev NativeFn (σ : Type) : Type := Image → NativeArgs → σ → Value × σ

variable {σ : Type}

structure HostFunctions (σ : Type) where
  entries : List ((String × String) × NativeFn σ)

namespace HostFunctions

def empty : HostFunctions σ := ⟨[]⟩

instance : Inhabited (HostFunctions σ) := ⟨empty⟩

/-- Offer a function, in place of an earlier one with the same library and symbol. -/
def register (h : HostFunctions σ) (library symbol : String) (f : NativeFn σ) :
    HostFunctions σ :=
  ⟨((library, symbol), f) :: h.entries.filter (·.1 ≠ (library, symbol))⟩

def lookup? (h : HostFunctions σ) (library symbol : String) : Option (NativeFn σ) :=
  h.entries.lookup (library, symbol)

def size (h : HostFunctions σ) : Nat :=
  h.entries.length

def isEmpty (h : HostFunctions σ) : Bool :=
  h.entries.isEmpty

end HostFunctions

/-- An open library: its functions by symbol. -/
abbrev Library (σ : Type) : Type := String → Option (NativeFn σ)

/-- The loader of the platform: the library in a file, or why it cannot be opened. -/
abbrev Loader (σ : Type) : Type := String → Except String (Library σ)

namespace Loader

def none : Loader σ := fun path => .error s!"{path}: cannot open shared object file"

end Loader

/-- A function bound to an import, and where it was found. -/
inductive Binding (σ : Type) where
  | host (f : NativeFn σ)
  | dynamic (f : NativeFn σ)

namespace Binding

def fn : Binding σ → NativeFn σ
  | host f | dynamic f => f

end Binding

/-- The libraries that were opened so far, by name. -/
structure Linker (σ : Type) where
  searchPaths : List String
  libraries : List (String × Library σ)

namespace Linker

def ofPaths (searchPaths : List String) : Linker σ :=
  ⟨searchPaths, []⟩

instance : Inhabited (Linker σ) := ⟨ofPaths []⟩

def loadedLibraries (l : Linker σ) : Nat :=
  l.libraries.length

def fileName (library : String) : String :=
  "lib" ++ library ++ ".so"

def join (dir file : String) : String :=
  if dir.isEmpty || dir.endsWith "/" then dir ++ file else dir ++ "/" ++ file

/-- The first of several files that can be opened, or why the last one cannot. -/
def openFirst (loader : Loader σ) : List String → String → Except String (Library σ)
  | [], reason => .error reason
  | path :: paths, _ =>
    match loader path with
    | .ok library => .ok library
    | .error reason => openFirst loader paths reason

/-- Open a library, unless it is open: in the search paths first, then where the platform looks. -/
def openLibrary (l : Linker σ) (loader : Loader σ) (library : String) :
    Except String (Library σ) × Linker σ :=
  match l.libraries.lookup library with
  | some lib => (.ok lib, l)
  | none =>
    let file := fileName library
    match openFirst loader (l.searchPaths.map (join · file) ++ [file]) "no candidate paths" with
    | .ok lib => (.ok lib, { l with libraries := (library, lib) :: l.libraries })
    | .error reason => (.error reason, l)

/-- The name that a library knows a symbol by: one zero character at its end only closes it. -/
def symbolName (symbol : String) : String :=
  match symbol.toList.reverse with
  | '\x00' :: name => String.ofList name.reverse
  | _ => symbol

def resolve (l : Linker σ) (loader : Loader σ) (host : HostFunctions σ) (library symbol : String) :
    Except Fault (Binding σ) × Linker σ :=
  match host.lookup? library symbol with
  | some f => (.ok (.host f), l)
  | none =>
    match l.openLibrary loader library with
    | (.error reason, l) => (.error (.link library symbol reason), l)
    | (.ok lib, l) =>
      match lib (symbolName symbol) with
      | some f => (.ok (.dynamic f), l)
      | none => (.error (.link library symbol s!"undefined symbol: {symbol}"), l)

/-- Find the native functions of an image, in order, up to the first that is missing. -/
def linkAll (loader : Loader σ) (host : HostFunctions σ) :
    List ImageFunction → Linker σ → Array (Option (NativeFn σ)) →
    Except Fault (Array (Option (NativeFn σ))) × Linker σ
  | [], l, bound => (.ok bound, l)
  | .bytecode .. :: rest, l, bound => linkAll loader host rest l (bound.push none)
  | .native library symbol :: rest, l, bound =>
    match l.resolve loader host library symbol with
    | (.ok b, l) => linkAll loader host rest l (bound.push (some b.fn))
    | (.error fault, l) => (.error fault, l)

end Linker

end RegisterLang
