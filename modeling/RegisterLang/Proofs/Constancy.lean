import RegisterLang.Proofs.Accesses
import RegisterLang.Proofs.ConstantStores
import RegisterLang.Proofs.Levels

/-! # Constants

A program that was emitted without mistakes stores to each of its constants once: to a global when the run starts, to a
parameter when a call starts, to a local where it gets its first value. What is `const` about an array is the variable.
Its elements are left alone only where the array is not given away, nor stored to by name. Main statements:
`executeMain_constants`, on every level, with any native functions and any limits, and `exists_overwrites`, that the
elements of other arrays can be stored to.
-/

namespace RegisterLang

open Machine Evaluation Emission

variable {σ : Type}

namespace Evaluation

/-- A later event stores to a constant only if that is an element of an array whose declaration `allows` it. -/
def Trace.KeepsConstants (allows : FunctionDecl → VarDecl → Prop) (t : Trace) : Prop :=
  t.events.Pairwise fun e e' => e.breaks e' = true → ∃ decl var handle, e = .filled decl var handle ∧ allows decl var

theorem Event.eq_element_of_breaks {decl : FunctionDecl} {var : VarDecl} {handle : UInt32} {e : Event}
    (breaks : (Event.filled decl var handle).breaks e = true) : var.ty.isConst = true ∧ e = .element handle := by
  cases e with
  | element handle' =>
    simp only [Event.breaks, Bool.and_eq_true, decide_eq_true_eq] at breaks
    exact ⟨breaks.1, breaks.2 ▸ rfl⟩
  | _ => cases breaks

/-- What a sound trace stores to again is exposed, wherever the arrays that are not exposed are left intact. -/
theorem Trace.Sound.keepsConstants {globals : List VarDecl} {t : Trace} (sound : t.Sound globals) {known : Prop}
    (intact : known → t.Intact) : t.KeepsConstants fun decl var => known → var.name.name ∈ decl.exposed := by
  by_cases holds : known
  · refine (List.pairwise_and_iff.2 ⟨sound.unbroken, intact holds⟩).imp fun {e e'} ⟨unbroken, spared⟩ breaks => ?_
    obtain ⟨decl, var, handle, rfl⟩ := unbroken breaks
    obtain ⟨constant, same⟩ := Event.eq_element_of_breaks breaks
    refine ⟨decl, var, handle, rfl, fun _ => ?_⟩
    by_contra hidden
    exact spared decl var handle rfl ⟨constant, hidden⟩ same
  · refine sound.unbroken.imp fun unbroken breaks => ?_
    obtain ⟨decl, var, handle, same⟩ := unbroken breaks
    exact ⟨decl, var, handle, same, fun impossible => absurd impossible holds⟩

end Evaluation

/-- Neither native functions nor what lies in locals that were not stored to can change globals or arrays. -/
theorem quiet_hosted (source : SourceText) (program : Program) (level : OptLevel) (image : Image)
    (natives : Array (Option (NativeFn σ))) : (hosted source program level image natives).Quiet where
  unassigned ty store choices := by
    unfold hosted
    dsimp only
    split <;> exact ⟨rfl, rfl⟩
  native i args store choices := by
    unfold hosted
    dsimp only
    cases natives[i]?.join <;> exact ⟨rfl, rfl⟩

/-- The code of a program without mistakes can be loaded. On every level, with any native functions, its evaluation can
be traced so that the trace tells each change of a global, a local or an array. Whatever the limit for calls, a trace
never stores again to a global, parameter or local that was declared `const`, nor to an element of an array that was,
apart from arrays that their function passes on, returns or stores to by name. The latter holds of a program that
declares nothing as `Any` and keeps arrays apart. A machine whose native functions are found and that is not cut off by
its step limit leaves what the traced evaluation leaves. -/
theorem executeMain_constants {source : SourceText} {settings : EmitSettings} {program : Program}
    {output : EmitOutput} (emitted : emit program source settings = .ok output)
    (clean : output.report.hasErrors = false) (numbered : output.codefile.Numbered)
    (executable : settings.fileType = .executable) : ∃ image, Image.ofCodefile output.codefile = .ok image ∧
      ∀ (vm : Vm σ) (loader : Loader σ) (natives : Array (Option (NativeFn σ))) (linker : Linker σ),
        vm.image = some image → vm.linker.linkAll loader vm.host image.functions.toList #[] = (.ok natives, linker) →
        (hosted source program settings.optLevel image natives).Faithful ∧ (∀ room world choices,
          ((hosted source program settings.optLevel image natives).traceRun room
            ((initialStore program world).keeping ⟨0, []⟩) choices).2.1.trace.KeepsConstants fun decl var =>
              program.NoAny ∧ program.ArraysApart → var.name.name ∈ decl.exposed) ∧
        ∀ world, (∃ limit, (vm.executeMain loader world).1 = .error (.stepLimitExceeded limit)) ∨
          ∃ choices r store,
            (hosted source program settings.optLevel image natives).traceRun vm.settings.maxCallDepth
              ((initialStore program world).keeping ⟨0, []⟩) choices = (r, store, []) ∧
            Leaves (vm.executeMain loader world) r (store.seen Prod.fst) := by
  obtain ⟨table, bodies, built, codefile⟩ := built_of_clean emitted clean
  rw [codefile] at numbered ⊢
  obtain ⟨image, loaded⟩ := built.exists_image
  refine ⟨image, loaded, fun vm loader natives linker installed linked => ?_⟩
  have beside := beside_hosted built loaded vm.settings linked
  have faithful := (quiet_hosted source program settings.optLevel image natives).faithful
  have storesOnce : (hosted source program settings.optLevel image natives).StoresOnce :=
    ⟨beside.orderly built, beside.stores_once built⟩
  refine ⟨faithful, fun room world choices => ?_, fun world => ?_⟩
  · apply (storesOnce.sound_traceRun room (initialStore program world) choices).keepsConstants
    intro ⟨noAny, apart⟩
    have arraysApart := arraysApart_hosted built beside executable noAny apart
    exact arraysApart.intact_traceRun room ArrayHeap.consistent_empty choices
  · rw [Vm.executeMain_eq installed ((fileType_of_loaded loaded).symm.trans executable) linked world]
    have follows := follows_run built beside numbered loaded executable vm.settings.maxCallDepth world
    have ends := @limited_or_leaves σ natives image { vm with linker } _ _ _ world follows
    rcases ends with ⟨-, limited⟩ | ⟨r, left, used, -, yields, leaves⟩
    · exact .inl limited
    · obtain ⟨trace, ran⟩ := (faithful.forgets vm.settings.maxCallDepth).exists_kept (yields []) ⟨0, []⟩
      exact .inr ⟨_, r, _, ran, leaves⟩

/-- A program with constants of each kind, whose calls keep one array and store to another. -/
def summingText : SourceText where
  name := "sum"
  text := "var base: const Int = 3; fn Add(n: const Int): Int \x7b var k: const Int[2] = [n, base]; " ++
    "var s: const Int; s = k[0] + k[1]; var t: Int[1] = [s]; t[0] = t[0] + 1; return t[0]; \x7d " ++
    "fn Main(): Int \x7b return Add(Add(1)); \x7d"

/-- The image of `summingText`. -/
def summingImage : Image where
  fileType := .executable
  entry := 1
  functions := #[
    .bytecode 3 0 [2, 50, 112, 35, 2, 48, 114, 35, 16, 84, 48, 0, 0, 0, 0, 2, 65, 114, 36, 48, 83, 32, 0, 0, 82, 32, 0,
      0, 2, 48, 113, 66, 48, 82, 32, 0, 0, 2, 49, 113, 82, 48, 16, 68, 80, 83, 64, 1, 0, 2, 49, 112, 35, 82, 48, 1, 0,
      2, 64, 114, 36, 48, 83, 32, 2, 0, 82, 32, 2, 0, 2, 48, 113, 66, 48, 34, 64, 82, 32, 2, 0, 2, 48, 114, 35, 64, 82,
      32, 2, 0, 2, 48, 113, 66, 48, 1, 4, 82, 32, 2, 0, 115, 32, 98],
    .bytecode 0 0 [2, 17, 97, 0, 1, 16, 80, 16, 81, 16, 97, 0, 1, 16, 1, 1, 98]]
  globals := #[3]
  strings := #[]

theorem executeMain_constants_summing : (parse summingText).1.NoAny ∧ (parse summingText).1.ArraysApart ∧
      ∃ vm', (bare summingImage).executeMain .none () = (.ok 9, vm', ()) ∧
        ∃ choices store, (hosted summingText (parse summingText).1 .standard summingImage #[none, none]).traceRun
            (bare summingImage).settings.maxCallDepth ((initialStore (parse summingText).1 ()).keeping ⟨0, []⟩)
            choices = (.ok 9, store, []) ∧ store.arrays = vm'.lastRun.arrays ∧
        store.trace.KeepsConstants fun decl var => var.name.name ∈ decl.exposed := by
  obtain ⟨emits, noAny, apart⟩ : emitsTo summingText {} summingImage = true ∧ (parse summingText).1.NoAny ∧
      (parse summingText).1.ArraysApart := by
    decide +kernel
  obtain ⟨output, emitted, clean, numbered, loaded⟩ := of_emitsTo emits
  have result : ((bare summingImage).executeMain .none ()).1.toOption = some 9 := by decide +kernel
  generalize (parse summingText).1 = program at emitted noAny apart ⊢
  obtain ⟨image, loaded', all⟩ := executeMain_constants (σ := Unit) emitted clean numbered rfl
  cases loaded.symm.trans loaded'
  obtain ⟨-, keeps, runs⟩ := all (bare summingImage) .none #[none, none] (bare summingImage).linker rfl rfl
  have runs := runs ()
  generalize (bare summingImage).executeMain .none () = run at result runs ⊢
  obtain ⟨fault | v, vm', world⟩ := run
  · cases result
  cases result
  rcases runs with ⟨limit, limited⟩ | ⟨choices, r, store, traced, leaves⟩
  · cases limited
  · obtain ⟨ends, -, same, -⟩ := leaves
    cases ends
    refine ⟨noAny, apart, vm', rfl, choices, store, traced, same.symm, ?_⟩
    have keeps := keeps (bare summingImage).settings.maxCallDepth () choices
    rw [traced] at keeps
    refine keeps.imp fun allowed breaks => ?_
    obtain ⟨decl, var, handle, same, exposed⟩ := allowed breaks
    exact ⟨decl, var, handle, same, exposed ⟨noAny, apart⟩⟩

/-! ## Programs that store to elements again -/

/-- A text without mistakes that declares nothing as `Any` and keeps arrays apart, with an image of it that is run and
stores to a constant again. -/
def Overwrites (source : SourceText) (image : Image) (natives : Array (Option (NativeFn Unit))) : Prop :=
  emitsTo source {} image = true ∧ (parse source).1.NoAny ∧ (parse source).1.ArraysApart ∧
    ((bare image).executeMain .none ()).1.toOption = some 9 ∧
    ¬ ((hosted source (parse source).1 .standard image natives).traceRun (bare image).settings.maxCallDepth
      ((initialStore (parse source).1 ()).keeping ⟨0, []⟩) []).2.1.trace.events.Pairwise fun e e' => e.breaks e' = false

/-- An array that is passed to a function whose parameter is no constant. -/
def pokingText : SourceText where
  name := "poke"
  text := "fn Poke(p: Int[2]): Int \x7b p[0] = 9; return 0; \x7d " ++
    "fn Main(): Int \x7b var a: const Int[2] = [1, 2]; Poke(a); return a[0]; \x7d"

def pokingImage : Image where
  fileType := .executable
  entry := 1
  functions := #[
    .bytecode 0 0 [2, 32, 2, 57, 114, 18, 48, 2, 0, 98],
    .bytecode 1 0 [2, 34, 112, 18, 2, 33, 2, 48, 114, 19, 32, 2, 34, 2, 49, 114, 19, 32, 83, 16, 0, 0, 82, 16, 0, 0, 97,
      0, 1, 16, 82, 16, 0, 0, 2, 32, 113, 49, 32, 1, 3, 98]]
  globals := #[]
  strings := #[]

/-- An array whose element is assigned to. -/
def editingText : SourceText where
  name := "edit"
  text := "fn Main(): Int \x7b var a: const Int[2] = [1, 2]; a[0] = 9; return a[0]; \x7d"

def editingImage : Image where
  fileType := .executable
  entry := 0
  functions := #[
    .bytecode 1 0 [2, 34, 112, 18, 2, 33, 2, 48, 114, 19, 32, 2, 34, 2, 49, 114, 19, 32, 83, 16, 0, 0, 82, 16, 0, 0, 2,
      32, 2, 57, 114, 18, 48, 82, 16, 0, 0, 2, 32, 113, 49, 32, 1, 3, 98]]
  globals := #[]
  strings := #[]

/-- A program without mistakes can store to an element of a `const` array again: by an assignment to the element, or in
a function that the array is passed to. -/
theorem exists_overwrites :
    Overwrites pokingText pokingImage #[none, none] ∧ Overwrites editingText editingImage #[none] := by
  unfold Overwrites
  constructor
  · decide +kernel
  · decide +kernel

end RegisterLang
