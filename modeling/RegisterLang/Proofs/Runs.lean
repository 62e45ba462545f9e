import RegisterLang.Machine.Vm
import RegisterLang.Proofs.Loading

/-! # Runs of whole programs

The functions of a program that was emitted without mistakes serve one another: each call does what the
evaluation of the function does, by induction on the number of calls that may still be opened. Main
statements: `ready_of_beside`, and `follows_run` for the function that a run starts with.
-/

namespace RegisterLang

open Machine Evaluation List SymbolTable Image

variable {image : Image}

/-! ## Names in order -/

theorem SymbolTable.find?_eq_findIdx? {α : Type} {t : SymbolTable α} (distinct : t.names.Nodup)
    (name : String) : t.find? name = t.names.findIdx? (· = name) := by
  cases found : t.names.findIdx? (· = name) with
  | some i =>
    obtain ⟨low, here, -⟩ := findIdx?_eq_some_iff_getElem.1 found
    have here : t.names[i]? = some name := by
      rw [getElem?_eq_getElem low]
      exact congrArg some (of_decide_eq_true here)
    rw [names, getElem?_map, Array.getElem?_toList, Option.map_eq_some_iff] at here
    obtain ⟨⟨_, a⟩, entry, rfl⟩ := here
    exact find?_of_nodup distinct entry
  | none =>
    rw [← lookup?_eq_none, ← contains_eq_false, Bool.eq_false_iff, ne_eq, ← mem_names]
    intro member
    have other := findIdx?_eq_none_iff.1 found name member
    simp at other

namespace Image

theorem ofCodefile_eq_ok {f : Codefile} (loaded : ofCodefile f = .ok image) :
    ∃ functions, f.functions.mapM (function f) = .ok functions ∧
      image = ⟨f.fileType, f.entry, functions.toArray, (f.globals.map globalValue).toArray,
        (f.strings.map (· ++ [0])).toArray⟩ := by
  rw [ofCodefile, bind_eq_ok] at loaded
  obtain ⟨functions, mapped, loaded⟩ := loaded
  cases loaded
  exact ⟨functions, mapped, rfl⟩

end Image

namespace Emission

variable {σ ω : Type} {source : SourceText} {settings : EmitSettings} {program : Program}
  {p : ProgramDecls} {table : Array String} {bodies : Array (Option FinishedBody)}
  {f : Function} {decl : FunctionDecl} {i room : Nat} {block : Block} {name : String} {l : Link σ ω}
  {body : FinishedBody} {is : List Instruction}

theorem Faithful.global_names (faithful : Faithful source settings program p) :
    p.decls.globals.names = program.globals.map (·.name.name) := by
  rw [names, faithful.globals, map_map]
  rfl

variable {decls : Declarations} {functions : List FunctionDecl} {scope : Scope} {first last final : Body}

theorem Declared.Callable.names (callable : Declared.Callable decls table functions) :
    decls.functions.names = functions.map (·.name.name) := by
  have size : decls.functions.entries.size = functions.length := callable.size
  refine ext_getElem? fun i => ?_
  rw [SymbolTable.names, SymbolTable.toList, getElem?_map, Array.getElem?_toList, getElem?_map]
  cases here : functions[i]? with
  | some decl =>
    obtain ⟨f, entry, -⟩ := callable.entry i decl here
    rw [entry]
    rfl
  | none =>
    rw [getElem?_eq_none_iff] at here
    rw [Array.getElem?_eq_none (by omega)]
    rfl

theorem Declared.Callable.of_entry (callable : Declared.Callable decls table functions)
    (entry : decls.functions.entries[i]? = some (name, f)) :
    ∃ decl, functions[i]? = some decl ∧ Declared.Describes decl f table := by
  have size : decls.functions.entries.size = functions.length := callable.size
  have low : i < functions.length := size ▸ (Array.getElem?_eq_some_iff.1 entry).1
  obtain ⟨f', entry', describes⟩ := callable.entry i _ (getElem?_eq_getElem low)
  cases entry.symm.trans entry'
  exact ⟨_, getElem?_eq_getElem low, describes⟩

theorem Declared.Describes.of_own (describes : Declared.Describes decl f table) (member : decl ∈ program.callable)
    (own : decl.linkage = none) : f.native = none ∧ ∃ block, decl.body = some block := by
  have native := describes.native
  rw [own] at native
  have callable := (mem_filter.1 member).2
  rw [FunctionDecl.isPrototype, own] at callable
  exact ⟨by simpa using native, Option.isSome_iff_exists.1 (by simpa using callable)⟩

/-! ## A program beside its code -/

/-- A program is linked to what its loaded code is linked to. Evaluation sees the world through `view`, and
may choose values when it is `free` to. -/
structure Beside (settings : EmitSettings) (program : Program) (p : ProgramDecls)
    (table : Array String) (env : Env σ) (u : Linked ω) (view : σ → ω) (free : Bool) : Prop where
  functions : u.functions = program.callable
  globals : u.globals = program.globals
  const_eq : ∀ x, u.const? x = p.decls.consts.lookup? x
  text : ∀ t i, table.findIdx? (· = t) = some i → u.text t = env.image.address i
  address : ∀ x c, p.decls.consts.lookup? x = some c → c.ty.isConstString = true →
    u.address c.bits.toUInt32.toNat = env.image.address c.bits.toUInt32.toNat
  unassigned : ∀ ty v, v = 0 ∨ settings.optLevel = .fast ∧ ty.isArray = false →
    ∃ used, (free = false → used = []) ∧ ∀ store, Yields (u.unassigned ty) used store (.ok v) store
  quiet : ∀ ty store choices, (u.unassigned ty store choices).2.1 = store
  native : ∀ (i : Nat) decl, program.callable[i]? = some decl → decl.linkage.isSome = true →
    ∃ g, env.natives[i]? = some (some g) ∧
      ∀ (regs : NativeArgs) (args : List Value) (globals : Array Value) (arrays : ArrayHeap) (world : σ),
        args.length = decl.params.length → (∀ (j : Nat) v, args[j]? = some v → regs[j]? = some v) →
        ∃ used, (free = false → used = []) ∧
          Yields (u.native i args) used ⟨globals, arrays, view world⟩
            (.ok (g env.image regs world).1) ⟨globals, arrays, view (g env.image regs world).2⟩
  still : ∀ i args store choices, (u.native i args store choices).2.1.arrays = store.arrays := by
    intros; rfl

theorem Link.Gives.of_view {α : Type} {l' : Link σ ω} {x : Eval ω α} {r : Except Stop α} {c c' : Core σ}
    (given : l.Gives c x r c') (view : l'.view = l.view) (free : l'.free = l.free) : l'.Gives c x r c' := by
  obtain ⟨used, may, yields⟩ := given
  refine ⟨used, fun bound => may (free ▸ bound), ?_⟩
  rw [Link.store, Link.store, view]
  exact yields

/-! ## The code of a function -/

/-- How the code of a function came about: the body before and behind its statements, and at its end. -/
structure CodeOf (scope : Scope) (block : Block) (f : Function) (table : Array String)
    (body : FinishedBody) (first last final : Body) (is : List Instruction) : Prop extends
    Whole scope block first last final, EndsAt scope last final where
  locals : first.locals = f.locals
  reserve : first.localReserve = 0
  start : first.pos = 0
  isParam : ∀ x l, first.locals.lookup? x = some l → l.isParam = true
  separate : first.locals.names.Nodup
  tidyFirst : Tidy scope first
  laid : final.code.Laid is
  body_eq : body = ⟨last.localReserve, is.flatMap Instruction.encode⟩
  table : Strings.Grows last.strings.table table

theorem LaidOut.codeOf (regular : Regular (bodyScope source settings decls decl f)) (takes : f.Takes decl.params)
    (laidOut : LaidOut (bodyScope source settings decls decl f) decl block f table body) :
    ∃ first last final is, CodeOf (bodyScope source settings decls decl f) block f table body first
      last final is := by
  obtain @⟨strings, final, code, clean, ran, none, finished, grows⟩ := laidOut
  obtain ⟨-, does⟩ := Setting.emits_emitBody (w := idle _ unnamed) regular decl.name block _ _ _ ran
  have fresh : Fresh (bodyScope source settings decls decl f) (Body.initial strings f.locals).2 :=
    takes.fresh rfl clean
  obtain ⟨pool, homes, last, taken, whole⟩ := does (none.trans clean.symm) fresh
  have endsAt := whole.endsAt rfl rfl
  obtain ⟨is, laid, bytes, -, -⟩ := CodeBuffer.laid_of_finish endsAt.inside finished
  refine ⟨_, last, final, is, whole, endsAt, rfl, rfl, rfl, fresh.isParam, fresh.distinct,
    fresh.tidy pool homes taken, laid, ?_, whole.closed.table.trans grows⟩
  rw [whole.closed.localReserve, bytes]

section
variable (codeOf : CodeOf scope block f table body first last final is)
include codeOf

/-- The types of the locals are those that the declarations of the function give them. -/
theorem CodeOf.local_eq (takes : f.Takes decl.params) (x : String) :
    (localTypes decl.params block).lookup x = (last.locals.lookup? x).map Local.ty := by
  have params : first.keys = decl.params.map fun q => (q.name.name, q.ty, true) := by
    rw [Body.keys, codeOf.locals]
    refine ext_getElem? fun i => ?_
    rw [getElem?_map, toList, Array.getElem?_toList, takes.entry, Option.map_map, getElem?_map]
    rfl
  have types : localTypes decl.params block = last.locals.toList.map fun y => (y.1, y.2.ty) := by
    have keys := congrArg (map fun y : String × Ty × Bool => (y.1, y.2.1)) codeOf.keys
    rw [params, Body.keys, map_append, map_map, map_map, map_map] at keys
    exact keys.symm
  rw [types, lookup?_eq_lookup (codeOf.distinct codeOf.separate)]
  induction last.locals.toList with
  | nil => rfl
  | cons entry entries ih =>
    obtain ⟨y, l⟩ := entry
    rw [map_cons, lookup_cons, lookup_cons]
    cases x == y with
    | true => rfl
    | false => exact ih

theorem CodeOf.exists_local {var : VarDecl} (member : var ∈ block.vars) :
    ∃ l, last.locals.lookup? var.name.name = some l ∧ l.ty = var.fullTy := by
  have key : varKey var ∈ last.keys := by
    rw [codeOf.keys]
    exact mem_append_right _ (mem_map_of_mem member)
  obtain ⟨⟨y, l⟩, entry, same⟩ := mem_map.1 key
  obtain ⟨rfl, ty, -⟩ : y = var.name.name ∧ l.ty = var.fullTy ∧ l.isParam = false := by
    simpa [varKey] using same
  exact ⟨l, lookup?_of_mem (codeOf.distinct codeOf.separate) entry, ty⟩

/-- The parameters and variables of a function have different names, and no array is assigned to. -/
theorem CodeOf.orderly (takes : f.Takes decl.params) : decl.Orderly block where
  distinct := by
    have distinct := codeOf.distinct codeOf.separate
    rw [names_eq_keys, codeOf.keys, map_append, ← names_eq_keys, codeOf.locals, takes.names_eq,
      map_map] at distinct
    exact distinct
  scalar x target var member array := by
    rintro rfl
    obtain ⟨l, found, ty⟩ := codeOf.exists_local member
    have other := (codeOf.scalars _ target).isArray found
    rw [ty, VarDecl.fullTy, if_pos array] at other
    exact absurd array (Bool.eq_false_iff.1 other)

end

/-! ## Calls -/

variable {env : Env σ} {u : Linked ω} {view : σ → ω} {free : Bool}

/-- A run of the code of a function, with `room` for so many calls inside it. -/
def bodySetting (source : SourceText) (settings : EmitSettings) (p : ProgramDecls) (env : Env σ)
    (u : Linked ω) (view : σ → ω) (free : Bool) (room : Nat) (frame : Frame) (below : Array Value)
    {decl : FunctionDecl} {block : Block} {f : Function} {body : FinishedBody} {first last final : Body}
    {is : List Instruction}
    (codeOf : CodeOf (bodyScope source settings p.decls decl f) block f table body first last final is) :
    Setting σ ω where
  scope := bodyScope source settings p.decls decl f
  link :=
    { code :=
        { env := env
          callee := callEnding env room
          frame := frame
          buffer := final.code
          is := is
          laid := codeOf.laid
          encodable := codeOf.laid.encodable codeOf.fits }
      view := view
      free := free }
  meaning := u.meaning (u.invoke room) (localTypes decl.params block)
  last := last
  below := below

/-- Calls with `room` for so many more calls do what evaluation says. -/
def Ready (p : ProgramDecls) (env : Env σ) (u : Linked ω) (view : σ → ω) (free : Bool) (room : Nat) :
    Prop :=
  ∀ l : Link σ ω, l.code.env = env → l.code.callee = callEnding env room → l.view = view → l.free = free →
    ∀ (i : Nat) name f, p.decls.functions.entries[i]? = some (name, f) →
      Serves l (u.invoke room) p.decls.globals.size i f

section
variable (beside : Beside settings program p table env u view free) (faithful : Faithful source settings program p)
include beside faithful

theorem Beside.global?_eq (invoke : Nat → List Value → Eval ω Value)
    (locals : List (String × Ty)) (x : String) : (u.meaning invoke locals).global? x =
      (p.decls.globals.find? x).bind fun i => program.globals[i]?.map fun g => (i, g.ty) := by
  have found : p.decls.globals.find? x = u.globals.findIdx? (·.name.name = x) := by
    rw [find?_eq_findIdx? faithful.distinct, faithful.global_names, findIdx?_map, beside.globals]
    rfl
  rw [found, ← beside.globals]
  rfl

theorem Beside.function?_eq (invoke : Nat → List Value → Eval ω Value)
    (locals : List (String × Ty)) (x : String) : (u.meaning invoke locals).function? x =
      (p.decls.functions.find? x).bind fun i => program.callable[i]?.map fun decl => (i, decl) := by
  have found : p.decls.functions.find? x = u.functions.findIdx? (·.name.name = x) := by
    rw [find?_eq_findIdx? faithful.callable.distinct, faithful.callable.names,
      findIdx?_map, beside.functions]
    rfl
  rw [found, ← beside.functions]
  rfl

theorem Beside.global?_of_find? (invoke : Nat → List Value → Eval ω Value)
    (locals : List (String × Ty)) {x : String} {g : Global} (found : p.decls.globals.find? x = some i)
    (known : p.decls.globals.lookup? x = some g) : (u.meaning invoke locals).global? x = some (i, g.ty) := by
  obtain ⟨j, found', entry⟩ := lookup?_eq_some.1 known
  cases found.symm.trans found'
  have listed : p.decls.globals.toList[i]? = some (x, g) := by
    rw [Array.getElem?_toList]
    exact entry
  rw [faithful.globals, getElem?_map, Option.map_eq_some_iff] at listed
  obtain ⟨v, here, same⟩ := listed
  cases same
  rw [beside.global?_eq faithful, found, Option.bind_some, here]
  rfl

theorem Beside.function?_of_find? (invoke : Nat → List Value → Eval ω Value)
    (locals : List (String × Ty)) {x : String} (found : p.decls.functions.find? x = some i)
    (known : p.decls.functions.lookup? x = some f) : p.decls.functions.entries[i]? = some (x, f) ∧ ∃ decl,
      (u.meaning invoke locals).function? x = some (i, decl) ∧ Declared.Describes decl f p.strings.table := by
  obtain ⟨j, found', entry⟩ := lookup?_eq_some.1 known
  cases found.symm.trans found'
  obtain ⟨decl, here, describes⟩ := faithful.callable.of_entry entry
  refine ⟨entry, decl, ?_, describes⟩
  rw [beside.function?_eq faithful, found, Option.bind_some, here]
  rfl

/-- Evaluation sees the locals of a function as they are declared in the end. -/
theorem Beside.sees (takes : f.Takes decl.params)
    (codeOf : CodeOf (bodyScope source settings p.decls decl f) block f table body first last final is)
    (invoke : Nat → List Value → Eval ω Value) :
    Sees (u.meaning invoke (localTypes decl.params block)) (bodyScope source settings p.decls decl f)
      last.locals where
  local_some x l found := (codeOf.local_eq takes x).trans (by rw [found]; rfl)
  local_none x missing _ := (codeOf.local_eq takes x).trans (by rw [missing]; rfl)
  global_some x i g found known := beside.global?_of_find? faithful _ _ found known
  global_none x missing := by
    refine (beside.global?_eq faithful _ _ _).trans ?_
    rw [lookup?_eq_none] at missing
    exact missing ▸ Option.bind_none _
  const_eq := beside.const_eq
  function_some x i f' found known := by
    obtain ⟨-, decl', here, describes⟩ := beside.function?_of_find? faithful invoke _ found known
    exact ⟨decl', here, describes.ret.symm, describes.params.symm⟩

end

theorem bodySetting_sound (built : Built source settings program p table bodies)
    (beside : Beside settings program p table env u view free)
    (numbered : (codefileOf settings p table bodies).Numbered) (strings : env.image.strings.size = table.size)
    (ready : Ready p env u view free room) {frame : Frame} {below : Array Value} (takes : f.Takes decl.params)
    (codeOf : CodeOf (bodyScope source settings p.decls decl f) block f table body first last final is)
    (ends : frame.localsEnd = frame.base + f.stackArgs + last.localReserve) :
    (bodySetting source settings p env u view free room frame below codeOf).Sound where
  code := codeOf.within
  frame := ends
  stop := codeOf.stop
  tidy := codeOf.tidy
  finished := codeOf.finished
  names := beside.sees built.faithful takes codeOf _
  few x i found := Nat.lt_trans (lt_of_find? found) (length_globals ▸ numbered.globals)
  const_string x c found string := by
    refine ⟨?_, beside.address x c found string⟩
    obtain ⟨index, bits, inside⟩ := built.faithful.text x c found string
    obtain ⟨more, grown⟩ := (built.faithful.grows.trans built.grows).append
    change c.bits.toUInt32.toNat < env.image.strings.size
    rw [strings, bits, UInt32.toUInt32_toUInt64, grown]
    exact toNat_lt_of_isIndex (inside.append more)
  serves x i f' found known :=
    ready _ rfl rfl rfl rfl i x f' (beside.function?_of_find? built.faithful (u.invoke room) [] found known).1
  text t i found := by
    obtain ⟨more, grown⟩ := codeOf.table.append
    have found' : table.findIdx? (· = t) = some i := by
      rw [grown]
      exact Strings.findIdx?_append found more
    have low : i < table.size := (Array.findIdx?_eq_some_iff_getElem.1 found').1
    exact ⟨beside.text t i found', Nat.lt_trans low (length_strings ▸ numbered.strings), strings.symm ▸ low⟩
  unassigned c ty v allowed := by
    obtain ⟨used, may, yields⟩ := beside.unassigned ty v allowed
    exact ⟨used, may, yields _⟩
  quiet := beside.quiet

theorem size_strings (loaded : ofCodefile (codefileOf settings p table bodies) = .ok image) :
    image.strings.size = table.size := by
  obtain ⟨functions, -, rfl⟩ := ofCodefile_eq_ok loaded
  simp [codefileOf]

theorem function_of_entry (loaded : ofCodefile (codefileOf settings p table bodies) = .ok image)
    (entry : p.decls.functions.entries[i]? = some (name, f)) : ∃ g, image.functions[i]? = some g ∧
      function (codefileOf settings p table bodies) (functionEntry bodies[i]?.join f) = .ok g := by
  obtain ⟨functions, mapped, rfl⟩ := ofCodefile_eq_ok loaded
  have here : (codefileOf settings p table bodies).functions[i]? =
      some (functionEntry bodies[i]?.join f) := by
    rw [codefileOf]
    rw [getElem?_map, getElem?_zipIdx, toList, Array.getElem?_toList, entry]
    simp
  obtain ⟨g, at_i, made⟩ := (mapM_eq_ok mapped).2 i _ here
  exact ⟨g, by rw [getElem?_toArray]; exact at_i, made⟩

theorem native_of_function {body? : Option FinishedBody} {file : Codefile} {g : ImageFunction}
    (made : function file (functionEntry body? f) = .ok g) (native : f.native.isSome = true) :
    ∃ library symbol, g = .native library symbol := by
  obtain ⟨link, native⟩ := Option.isSome_iff_exists.1 native
  unfold functionEntry at made
  rw [native, function, bind_eq_ok] at made
  obtain ⟨library, -, made⟩ := made
  rw [bind_eq_ok] at made
  obtain ⟨symbol, -, made⟩ := made
  cases made
  exact ⟨library, symbol, rfl⟩

theorem Built.exists_codeOf (built : Built source settings program p table bodies) (member : decl ∈ program.callable)
    (body : decl.body = some block) (own : decl.linkage.isSome = false) :
    ∃ f finished first last final is, Declared.Describes decl f p.strings.table ∧
      CodeOf (bodyScope source settings p.decls decl f) block f table finished first last final is := by
  obtain ⟨i, here⟩ := mem_iff_getElem?.1 member
  obtain ⟨f, entry, describes⟩ := built.faithful.callable.entry i decl here
  have known : p.decls.functions.get? i = some f := by
    rw [get?, entry]
    rfl
  obtain ⟨bytecode, -⟩ := describes.of_own member (by simpa using own)
  obtain ⟨finished, -, laidOut⟩ := built.bodies i decl f block here known bytecode body
  obtain ⟨first, last, final, is, codeOf⟩ :=
    laidOut.codeOf (Declared.Ordinary.regular built.ordinary) describes.takes
  exact ⟨f, finished, first, last, final, is, describes, codeOf⟩

theorem Beside.orderly (beside : Beside settings program p table env u view free)
    (built : Built source settings program p table bodies) : u.Orderly where
  unassigned ty store choices := by rw [beside.quiet]
  native := beside.still
  body decl member block body own := by
    obtain ⟨f, finished, first, last, final, is, describes, codeOf⟩ :=
      built.exists_codeOf (beside.functions ▸ member) body own
    exact codeOf.orderly describes.takes

section Calls

variable (built : Built source settings program p table bodies)
  (beside : Beside settings program p table env u view free)
  (numbered : (codefileOf settings p table bodies).Numbered)
  (loaded : ofCodefile (codefileOf settings p table bodies) = .ok env.image)

include numbered in
theorem toNat_index (entry : p.decls.functions.entries[i]? = some (name, f)) : (UInt32.ofNat i).toNat = i := by
  have low : i < p.decls.functions.size := (Array.getElem?_eq_some_iff.1 entry).1
  exact UInt32.toNat_ofNat_of_lt' (Nat.lt_trans low (length_functions ▸ numbered.functions))

theorem callEnding_native {index : UInt32} {library symbol : String} (s : State σ)
    (entry : env.image.functions[index.toNat]? = some (.native library symbol)) :
    callEnding env room index s = (callNative env index s, none) := by
  rw [callEnding, entry]

include beside numbered loaded in
/-- A function of a library is called in the same way by the code and by evaluation. -/
theorem serves_native (callee : l.code.callee = callEnding env room) (seen : l.view = view) (may : l.free = free)
    (entry : p.decls.functions.entries[i]? = some (name, f)) (here : program.callable[i]? = some decl)
    (describes : Declared.Describes decl f p.strings.table) (linked : decl.linkage.isSome = true) :
    Serves l (u.invoke room) p.decls.globals.size i f := by
  intro s args below length regs stack globals consistent
  obtain ⟨g, bound, acts⟩ := beside.native i decl here linked
  obtain ⟨function, at_i, made⟩ := function_of_entry loaded entry
  have index := toNat_index numbered entry
  obtain ⟨library, symbol, rfl⟩ := native_of_function made (describes.native.trans linked)
  -- All arguments are in registers, so the stack holds nothing of the call.
  have direct : f.stackArgs = 0 := describes.direct (describes.native.trans linked)
  have count := describes.takes.count
  have few : f.registerArgs ≤ nativeArgCount := describes.takes.few
  rw [describes.params, length_map] at length
  have nothing : args.drop f.registerArgs = [] := drop_eq_nil_of_le (by omega)
  rw [nothing] at stack
  have given : ∀ (j : Nat) v, args[j]? = some v → s.nativeArgs[j]? = some v := by
    intro j v arg
    have low : j < args.length := (List.getElem?_eq_some_iff.1 arg).1
    rw [Vector.getElem?_eq_getElem (by omega), State.nativeArgs, Vector.getElem_ofFn]
    exact congrArg some (regs j v (by omega) arg)
  obtain ⟨used, bounded, yields⟩ := acts s.nativeArgs args s.globals s.arrays s.world length given
  let v := (g env.image s.nativeArgs s.world).1
  let s' : State σ := { s with world := (g env.image s.nativeArgs s.world).2 }
  have invoked : u.invoke room i args = u.native i args := by
    rw [Linked.invoke, Linked.invokeWith, beside.functions, here]
    simp only [linked, if_true]
  refine .inr (.inl ⟨v, s'.setReg returnReg v, ?_, ⟨used, fun bound => bounded (may ▸ bound), ?_⟩,
    consistent, ?_, s'.core.reg_setReg_self returnReg v, rfl⟩)
  · rw [callee, callEnding_native s (index.symm ▸ at_i), callNative, index, bound]
    rfl
  · rw [invoked, Link.store, Link.store, seen]
    exact yields
  · rw [show (s'.setReg returnReg v).stack = s.stack from rfl, stack]
    simp

include built beside numbered loaded in
/-- A function with a body of its own does what its evaluation does, when those that it calls do. -/
theorem serves_body (same : l.code.env = env) (callee : l.code.callee = callEnding env (room + 1))
    (seen : l.view = view) (may : l.free = free) (entry : p.decls.functions.entries[i]? = some (name, f))
    (here : program.callable[i]? = some decl) (describes : Declared.Describes decl f p.strings.table)
    (bytecode : f.native = none) (own : decl.linkage = none) (body : decl.body = some block)
    (ready : Ready p env u view free room) : Serves l (u.invoke (room + 1)) p.decls.globals.size i f := by
  intro s args below length regs stack globals consistent
  have takes := describes.takes
  have known : p.decls.functions.get? i = some f := by
    rw [get?, entry]
    rfl
  obtain ⟨finished, stored, laidOut⟩ := built.bodies i decl f block here known bytecode body
  have regular : Regular (bodyScope source settings p.decls decl f) :=
    Declared.Ordinary.regular built.ordinary
  obtain ⟨first, last, final, is, codeOf⟩ := laidOut.codeOf regular takes
  obtain ⟨function, at_i, made⟩ := function_of_entry loaded entry
  have index := toNat_index numbered entry
  have few := codeOf.tidy.few
  have fit := takes.fit
  have function_eq : function =
      .bytecode last.localReserve f.stackArgs (is.flatMap Instruction.encode) := by
    unfold functionEntry at made
    rw [bytecode, stored, codeOf.body_eq] at made
    cases made
    rw [UInt16.toNat_ofNat_of_lt' (Nat.lt_succ_of_le few), UInt16.toNat_ofNat_of_lt' (Nat.lt_succ_of_le fit)]
  have size : s.stack.size = below.size + f.stackArgs := by
    have count := takes.count
    rw [describes.params, length_map] at length
    simp only [stack, Array.size_append, size_toArray, length_reverse, length_drop]
    omega
  let frame : Frame := ⟨UInt32.ofNat i, below.size, s.stack.size + last.localReserve⟩
  let w := bodySetting source settings p env u view free room frame below codeOf
  have sound : w.Sound := bodySetting_sound built beside numbered (size_strings loaded) ready takes codeOf
    (by rw [show frame.localsEnd = s.stack.size + last.localReserve from rfl, size])
  let entered : Core σ := { s.core with stack := s.stack ++ Array.replicate last.localReserve 0 }
  have same_start : w.Matches first (bindParams decl.params args) entered :=
    takes.matches codeOf.locals codeOf.reserve rfl (by rw [length, describes.params, length_map])
      regs rfl (congrArg (· + last.localReserve) size)
      (congrArg (· ++ Array.replicate last.localReserve 0) stack) globals
  have ends : w.link.Ends first.pos entered (u.runBody (u.invoke room) decl block args) w.Intact := by
    unfold Linked.runBody Linked.endBody
    rw [← describes.ret]
    exact w.ends_body sound regular codeOf.toWhole codeOf.isParam codeOf.separate codeOf.tidyFirst
      (.refl _) same_start fun consistent used locals' flow store yields =>
        (beside.orderly built).exists_destroyAll (beside.functions ▸ mem_of_getElem? here) body
          (by rw [own]; rfl) consistent (yields [])
  rw [codeOf.start] at ends
  have invoked : u.invoke (room + 1) i args = u.runBody (u.invoke room) decl block args := by
    rw [Linked.invoke, Linked.invokeWith, beside.functions, here]
    simp [own, body]
  have stands : env.image.functions[(UInt32.ofNat i).toNat]? =
      some (.bytecode last.localReserve f.stackArgs (is.flatMap Instruction.encode)) := by
    rw [index, at_i, function_eq]
  have called := Setting.call_of_ends (w := w) (show w.link.code.callee = callEnding env room from rfl)
    stands rfl size rfl ends consistent
  rw [callee, same, invoked]
  obtain limited | ⟨v, s', ran, given, consistent', stack', result, globals'⟩ |
    ⟨t, fault, s', culprit, ran, kind, given, spared⟩ := called
  · exact .inl limited
  · exact .inr (.inl ⟨v, s', ran, Link.Gives.of_view given seen may, consistent', stack', result,
      globals'.trans globals.symm⟩)
  · exact .inr (.inr ⟨t, fault, s', culprit, ran, kind, Link.Gives.of_view given seen may, spared⟩)

include beside numbered loaded in
theorem serves_no_room (callee : l.code.callee = callEnding env 0)
    (entry : p.decls.functions.entries[i]? = some (name, f)) (here : program.callable[i]? = some decl)
    (bytecode : f.native = none) (own : decl.linkage = none) (body : decl.body = some block) :
    Serves l (u.invoke 0) p.decls.globals.size i f := by
  intro s args below length regs stack globals consistent
  obtain ⟨function, at_i, made⟩ := function_of_entry loaded entry
  have index := toNat_index numbered entry
  obtain ⟨reserve, stackArgs, code, rfl⟩ :
      ∃ reserve stackArgs code, function = .bytecode reserve stackArgs code := by
    unfold functionEntry at made
    rw [bytecode] at made
    dsimp only at made
    split at made
    · cases made
      exact ⟨_, _, _, rfl⟩
    · cases made
      exact ⟨_, _, _, rfl⟩
  have invoked : u.invoke 0 i args = Eval.stop (.trap .callDepthExceeded) := by
    rw [Linked.invoke, Linked.invokeWith, beside.functions, here]
    simp [own, body]
  refine .inr (.inr ⟨.callDepthExceeded, .callDepthExceeded env.settings.maxCallDepth, s, none, ?_, rfl, ?_,
    spares_none⟩)
  · rw [callee, callEnding, index, at_i]
  · rw [invoked]
    exact .stop _ _

include built beside numbered loaded in
/-- Every call does what evaluation says, by induction on the room for calls inside it. -/
theorem ready_of_beside (room : Nat) : Ready p env u view free room := by
  intro l same callee seen may i name f entry
  obtain ⟨decl, here, describes⟩ := built.faithful.callable.of_entry entry
  cases own : decl.linkage with
  | some link => exact serves_native beside numbered loaded callee seen may entry here describes (by rw [own]; rfl)
  | none =>
    obtain ⟨bytecode, block, body⟩ := describes.of_own (mem_of_getElem? here) own
    cases room with
    | zero => exact serves_no_room beside numbered loaded callee entry here bytecode own body
    | succ room =>
      exact serves_body built beside numbered loaded same callee seen may entry here describes bytecode own body
        (ready_of_beside room)

/-- What can become of a run beside an evaluation: the step limit cuts it off, or both give the same result,
or both fail in the same way; then they leave the same. -/
inductive Follows (settings : VmSettings) (view : σ → ω) (free : Bool) (x : Eval ω Value)
    (store : Store ω) : Outcome σ Value → Prop where
  | limited {limit : Nat} {s : State σ} (bounded : settings.maxSteps ≠ none) :
      Follows settings view free x store (.error (.stepLimitExceeded limit), s)
  | ok {v : Value} {s : State σ} {used : List Value} (may : free = false → used = [])
      (yields : Yields x used store (.ok v) ⟨s.globals, s.arrays, view s.world⟩) :
      Follows settings view free x store (.ok v, s)
  | trap {t : Trap} {fault : Fault} {s : State σ} {used : List Value} (may : free = false → used = [])
      (kind : fault.trap? = some t)
      (yields : Yields x used store (.error (.trap t)) ⟨s.globals, s.arrays, view s.world⟩) :
      Follows settings view free x store (.error fault, s)

theorem globals_image (faithful : Faithful source settings program p)
    (loaded : ofCodefile (codefileOf settings p table bodies) = .ok image) :
    image.globals = (program.globals.map initialValue).toArray := by
  obtain ⟨functions, -, rfl⟩ := ofCodefile_eq_ok loaded
  rw [codefileOf]
  rw [faithful.globals, map_map, map_map]
  refine congrArg toArray (map_congr_left fun v member => ?_)
  change (if (if v.ty.isScalar then v.ty.primitive else .any) = Primitive.byte then
    initialValue v &&& 0xFF else initialValue v) = initialValue v
  split
  · next scalar =>
    split
    · next byte =>
      have small : (initialValue v).toNat ≤ 255 := faithful.small v member scalar byte
      refine UInt64.toNat.inj ?_
      exact (Nat.and_two_pow_sub_one_eq_mod _ 8).trans (Nat.mod_eq_of_lt (Nat.lt_succ_of_le small))
    · rfl
  · exact if_neg (by decide)

include built beside numbered loaded in
/-- The function that a program starts with does what its evaluation does, and destroys no array that is not
there. -/
theorem serves_main (executable : settings.fileType = .executable) (room : Nat) (world : σ) :
    ∃ out culprit, callEnding env room env.image.entry (.initial env.image.globals world) = (out, culprit) ∧
      Follows env.settings view free (u.run room)
        ⟨(program.globals.map initialValue).toArray, .empty, view world⟩ out ∧
      (Spares culprit ∨ ∃ limit, out.1 = .error (.stepLimitExceeded limit)) := by
  obtain ⟨index, f, found, known, entry, bytecode, none⟩ :=
    (built.faithful.entry executable).exists_main
  obtain ⟨f', stands⟩ := entry_of_find? found
  cases (show some f' = some f by rw [← known, get?, stands]; rfl)
  obtain ⟨functions, -, image⟩ := ofCodefile_eq_ok loaded
  have start : env.image.entry = UInt32.ofNat index := by
    rw [image]
    exact entry
  have globals : env.image.globals = (program.globals.map initialValue).toArray :=
    globals_image built.faithful loaded
  have size : env.image.globals.size = p.decls.globals.size := by
    have names := congrArg length built.faithful.global_names
    rw [SymbolTable.names, length_map, SymbolTable.toList, length_map] at names
    rw [globals, size_toArray, length_map, ← names]
    rfl
  have main : u.run room = u.invoke room index [] := by
    have here : u.functions.findIdx? (·.name.name = "Main") = some index := by
      rw [find?_eq_findIdx? built.faithful.callable.distinct,
        built.faithful.callable.names, findIdx?_map, ← beside.functions] at found
      exact found
    rw [Linked.run, Linked.runWith, here]
  let l : Link σ ω := ⟨noCode env (callEnding env room), view, free⟩
  have serves := ready_of_beside built beside numbered loaded room l rfl rfl rfl rfl index _ f stands
    (.initial env.image.globals world) [] #[] (by rw [none]; rfl) (fun i v _ here => by cases here)
    (by rw [drop_nil]; rfl) size ArrayHeap.consistent_empty
  rw [start, main, ← globals]
  change Limited env (callEnding env room _ _).1 ∨ (∃ v s', callEnding env room _ _ = _ ∧ _) ∨
    ∃ t fault s' culprit, callEnding env room _ _ = _ ∧ _ at serves
  obtain ⟨bounded, limit, cut⟩ | ⟨v, s', ran, ⟨used, may, yields⟩, -⟩ |
    ⟨t, fault, s', culprit, ran, kind, ⟨used, may, yields⟩, spared⟩ := serves
  · generalize callEnding env room (UInt32.ofNat index) (.initial env.image.globals world) = ending at cut
    obtain ⟨⟨r, s'⟩, culprit⟩ := ending
    cases cut
    exact ⟨_, _, rfl, .limited bounded, .inr ⟨limit, rfl⟩⟩
  · exact ⟨_, _, ran, .ok may yields, .inl spares_none⟩
  · exact ⟨_, _, ran, .trap may kind yields, .inl spared⟩

include built beside numbered loaded in
theorem follows_run (executable : settings.fileType = .executable) (room : Nat) (world : σ) :
    Follows env.settings view free (u.run room) ⟨(program.globals.map initialValue).toArray, .empty, view world⟩
      (call env room env.image.entry (.initial env.image.globals world)) := by
  obtain ⟨out, culprit, ran, follows, -⟩ :=
    serves_main built beside numbered loaded executable room world
  rw [← fst_callEnding, ran]
  exact follows

end Calls

/-- A run of the code of a function of a program, which was emitted without mistakes, loaded, and linked to
what the program is linked to. -/
inductive FunctionRun (source : SourceText) (settings : EmitSettings) (program : Program) :
    Setting σ ω → Prop where
  | mk {p : ProgramDecls} {table : Array String} {bodies : Array (Option FinishedBody)} {env : Env σ}
      {u : Linked ω} {view : σ → ω} {free : Bool} {room : Nat} {frame : Frame} {below : Array Value}
      {decl : FunctionDecl} {block : Block} {f : Function} {body : FinishedBody} {first last final : Body}
      {is : List Instruction} (built : Built source settings program p table bodies)
      (beside : Beside settings program p table env u view free)
      (numbered : (codefileOf settings p table bodies).Numbered)
      (loaded : ofCodefile (codefileOf settings p table bodies) = .ok env.image)
      (takes : f.Takes decl.params)
      (codeOf : CodeOf (bodyScope source settings p.decls decl f) block f table body first last final is)
      (ends : frame.localsEnd = frame.base + f.stackArgs + last.localReserve) :
      FunctionRun source settings program (bodySetting source settings p env u view free room frame below codeOf)

theorem FunctionRun.sound {w : Setting σ ω} (run : FunctionRun source settings program w) : w.Sound := by
  obtain ⟨built, beside, numbered, loaded, takes, codeOf, ends⟩ := run
  exact bodySetting_sound built beside numbered (size_strings loaded)
    (ready_of_beside built beside numbered loaded _) takes codeOf ends

theorem FunctionRun.regular {w : Setting σ ω} (run : FunctionRun source settings program w) : Regular w.scope := by
  obtain ⟨built, -⟩ := run
  exact Declared.Ordinary.regular built.ordinary

end Emission

end RegisterLang
