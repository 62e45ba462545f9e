import RegisterLang.Proofs.Levels
import RegisterLang.Proofs.Lifetimes
import RegisterLang.Proofs.Typing

/-! # Locals that are read

A program that was emitted without mistakes reads no local that nothing was stored in, unless a block that stores
to it was passed over in the same call. Main statements: `executeMain_watched`, on every level, with any native
functions and any limits, and `strict_run_skippedLocal`, that a block that was passed over makes the difference.
-/

namespace RegisterLang

open Machine Evaluation Emission

variable {σ : Type}

/-- The code of a program without mistakes can be loaded. On every level, with any native functions, its
evaluation does the same when it is stopped at each local that has no value, unless a block that stores to the
local was passed over in the same call: so it never is stopped. A machine whose native functions are found and
that is not cut off by its step limit leaves what this evaluation leaves. -/
theorem executeMain_watched {source : SourceText} {settings : EmitSettings} {program : Program}
    {output : EmitOutput} (emitted : emit program source settings = .ok output)
    (clean : output.report.hasErrors = false) (numbered : output.codefile.Numbered)
    (executable : settings.fileType = .executable) : ∃ image, Image.ofCodefile output.codefile = .ok image ∧
      ∀ (vm : Vm σ) (loader : Loader σ) (natives : Array (Option (NativeFn σ))) (linker : Linker σ),
        vm.image = some image → vm.linker.linkAll loader vm.host image.functions.toList #[] = (.ok natives, linker) →
        (∀ room, (hosted source program settings.optLevel image natives).watchRun room =
          (hosted source program settings.optLevel image natives).run room) ∧
        ∀ world, (∃ limit, (vm.executeMain loader world).1 = .error (.stepLimitExceeded limit)) ∨ ∃ choices r store,
            (hosted source program settings.optLevel image natives).watchRun vm.settings.maxCallDepth
              (initialStore program world) choices = (r, store, []) ∧
            Leaves (vm.executeMain loader world) r store := by
  obtain ⟨table, bodies, built, codefile⟩ := built_of_clean emitted clean
  rw [codefile] at numbered ⊢
  obtain ⟨image, loaded⟩ := built.exists_image
  refine ⟨image, loaded, fun vm loader natives linker installed linked => ?_⟩
  have beside := beside_hosted built loaded vm.settings linked
  have watched := beside.watchRun_eq built executable
  refine ⟨watched, fun world => ?_⟩
  rw [watched, Vm.executeMain_eq installed ((fileType_of_loaded loaded).symm.trans executable) linked world,
    Vm.runImage_eq]
  have follows := follows_run built beside numbered loaded executable vm.settings.maxCallDepth world
  generalize call ⟨image, natives, vm.settings⟩ vm.settings.maxCallDepth image.entry
    (.initial image.globals world) = out at follows
  cases follows with
  | limited => exact .inl ⟨_, rfl⟩
  | ok may yields => exact .inr ⟨_, _, _, yields [], .ok _, rfl, rfl, rfl⟩
  | trap may kind yields => exact .inr ⟨_, _, _, yields [], .trap kind, rfl, rfl, rfl⟩

theorem executeMain_watched_keeping : ∃ vm', keeping.executeMain .none () = (.ok 5, vm', ()) ∧
      ∃ choices, (hosted keepingText (parse keepingText).1 .standard keepingImage #[none, none]).watchRun
          keeping.settings.maxCallDepth (initialStore (parse keepingText).1 ()) choices =
        (.ok 5, ⟨vm'.globals, vm'.lastRun.arrays, ()⟩, []) := by
  obtain ⟨emits, result, -⟩ := executeMain_keeping
  obtain ⟨output, emitted, clean, numbered, loaded⟩ := of_emitsTo emits
  generalize (parse keepingText).1 = program at emitted ⊢
  obtain ⟨image, loaded', all⟩ := executeMain_watched (σ := Unit) emitted clean numbered rfl
  cases loaded.symm.trans loaded'
  obtain ⟨-, runs⟩ := all keeping .none #[none, none] keeping.linker rfl rfl
  have runs := runs ()
  generalize keeping.executeMain .none () = run at result runs ⊢
  obtain ⟨fault | v, vm', world⟩ := run
  · cases result
  cases result
  rcases runs with ⟨limit, limited⟩ | ⟨choices, r, ⟨globals, arrays, world⟩, watched, ends, same, same', -⟩
  · cases limited
  · cases ends
    cases same
    cases same'
    exact ⟨vm', rfl, choices, watched⟩

/-- The image of `skippedLocal`. -/
def skippedImage : Image :=
  assignedImage 1 [2, 23, 85, 16, 0, 0, 0, 0, 84, 16, 0, 0, 0, 0, 51, 16, 68, 6, 2, 17, 83, 16, 0, 0, 100, 0, 0]

/-- A program without mistakes can read a local that nothing was stored in: a block that stores to it stands
further up in the text, but is not run. -/
theorem strict_run_skippedLocal : emitsTo skippedLocal {} skippedImage = true ∧
      ((bare skippedImage).executeMain .none ()).1.toOption = some 0 ∧
      ((hosted skippedLocal (parse skippedLocal).1 .standard skippedImage #[none]).strict.run 1
        (initialStore (parse skippedLocal).1 ()) []).1 = .error .unassigned := by
  decide +kernel

end RegisterLang
