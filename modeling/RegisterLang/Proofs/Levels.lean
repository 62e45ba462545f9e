import RegisterLang.Proofs.Assigned
import RegisterLang.Proofs.Correctness

/-! # Levels of optimization

Code of different levels does the same, unless the fast level is used and a local is read that nothing was
stored in: it then lives in a register that may hold anything. Main statements: `executeMain_levels_agree`
and `executeMain_unassigned_differs`.
-/

namespace RegisterLang

open Machine Evaluation

variable {σ : Type}

/-- An evaluation that reads assigned locals only gives what the strict one gives. -/
theorem Evaluation.Settles.unique {ω α : Type} {x y : Eval ω α} (settles : Settles x y)
    {used : List Value} {store store' : Store ω} {r : Except Stop α}
    (yields : Yields y used store r store') (assigned : (x store []).1 ≠ .error .unassigned) :
    x store [] = (r, store', []) := by
  obtain ⟨r0, store0, ran, same⟩ := settles store
  rw [ran] at assigned
  have given := (same assigned (used ++ [])).symm.trans (yields [])
  obtain ⟨rfl, rfl, -⟩ := Prod.mk.inj given |>.imp_right Prod.mk.inj
  exact ran

/-- Where a text lies in one of two images. -/
def textIn (image image' : Image) (text : String) : Value :=
  ((image.textAddress? text).orElse fun _ => image'.textAddress? text).getD 0

/-- Equal strings of two images lie at the same addresses. -/
def SameAddresses (image image' : Image) : Prop :=
  ∀ (i j : Nat) text, image.strings[i]? = some text → image'.strings[j]? = some text →
    image.address i = image'.address j

theorem strings_of_textAddress? {image : Image} {t : String} {a : Value} (found : image.textAddress? t = some a) :
    ∃ i : Nat, image.strings[i]? = some (Utf8.encode t ++ [0]) ∧ image.address i = a := by
  rw [Image.textAddress?, Option.map_eq_some_iff] at found
  obtain ⟨i, found, address⟩ := found
  obtain ⟨low, here, -⟩ := Array.findIdx?_eq_some_iff_getElem.1 found
  refine ⟨i, ?_, address⟩
  rw [Array.getElem?_eq_getElem low]
  exact congrArg some (of_decide_eq_true here)

theorem textIn_eq {image image' : Image} (addresses : SameAddresses image image') {t : String} {a : Value}
    (found : image'.textAddress? t = some a) : textIn image image' t = a := by
  rw [textIn]
  cases first : image.textAddress? t with
  | none => rw [found]; rfl
  | some b =>
    obtain ⟨i, here, rfl⟩ := strings_of_textAddress? first
    obtain ⟨j, here', rfl⟩ := strings_of_textAddress? found
    exact addresses i j _ here here'

namespace Emission

variable {source : SourceText} {settings : EmitSettings} {program : Program} {output : EmitOutput}
  {image : Image}

/-- The strings of constants are the first of an image, whatever the settings. -/
theorem string_of_constant (emitted : emit program source settings = .ok output)
    (clean : output.report.hasErrors = false)
    (loaded : Image.ofCodefile output.codefile = .ok image) {x : String} {c : ConstValue}
    (found : (constants source program).lookup? x = some c) (string : c.ty.isConstString = true) :
    ∃ text, (constantStrings source program)[c.bits.toUInt32.toNat]? = some text ∧
      image.strings[c.bits.toUInt32.toNat]? = some (Utf8.encode text ++ [0]) := by
  obtain ⟨table, bodies, built, codefile⟩ := built_of_clean emitted clean
  rw [codefile] at loaded
  obtain ⟨index, bits, inside⟩ := built.faithful.text x c (built.faithful.consts ▸ found) string
  obtain ⟨more, grown⟩ := (built.faithful.grows.trans built.grows).append
  have low := toNat_lt_of_isIndex inside
  rw [bits, UInt32.toUInt32_toUInt64, strings_of_loaded loaded, grown, Array.getElem?_map,
    Array.getElem?_append_left low, Array.getElem?_eq_getElem low]
  exact ⟨_, rfl, rfl⟩

end Emission

/-! ## Two levels -/

section Levels

variable {source : SourceText} {settings settings' : EmitSettings} {program : Program}
  {image image' : Image} {vm vm' : Vm σ} {loader loader' : Loader σ}
  {natives natives' : Array (Option (NativeFn σ))}

/-- A run of any level ends as the strict evaluation does, if that reads assigned locals only. -/
theorem Prepared.leaves_strict (prepared : Prepared source settings program image vm loader natives) {base : Image}
    {natives0 : Array (Option (NativeFn σ))} {text : String → Value}
    (texts : ∀ t a, image.textAddress? t = some a → text t = a)
    (address : ∀ x c, (Emission.constants source program).lookup? x = some c → c.ty.isConstString = true →
      base.address c.bits.toUInt32.toNat = image.address c.bits.toUInt32.toNat)
    (declared : ∀ (i : Nat) decl g, program.callable[i]? = some decl → decl.linkage.isSome = true →
      natives[i]? = some (some g) →
      natives0[i]? = some (some g) ∧ g.DependsOn decl.params.length base image) (world : σ)
    (assigned : ((linkedTo source program base natives0 text (pure 0)).strict.run
      vm.settings.maxCallDepth (initialStore program world) []).1 ≠ .error .unassigned) :
    ∃ r store, (linkedTo source program base natives0 text (pure 0)).strict.run
        vm.settings.maxCallDepth (initialStore program world) [] = (r, store, []) ∧
      Leaves (vm.executeMain loader world) r store := by
  obtain ⟨r, store, used, -, yields, leaves⟩ := prepared.leaves texts address
    (fun v _ => ⟨[v], (nofun : true = false → [v] = []), yields_choose v⟩) (fun _ _ => rfl) declared world
  have native : ∀ i args, Settles ((linkedTo source program base natives0 text Eval.choose).native i args)
      ((linkedTo source program base natives0 text Eval.choose).native i args) := by
    intro i args
    simp only [linkedTo]
    split
    · exact .outside _
    · exact .stop _
  exact ⟨r, store, (Linked.settles_run native _).unique yields assigned, leaves⟩

/-- Code of two levels ends with the same result or the same fault, and leaves the same, when no level is the
fast one or no local is read that nothing was stored in. -/
theorem executeMain_levels_agree (first : Prepared source settings program image vm loader natives)
    (second : Prepared source settings' program image' vm' loader' natives')
    (depth : vm'.settings.maxCallDepth = vm.settings.maxCallDepth) (addresses : SameAddresses image image')
    (externs : ∀ (i : Nat) decl, program.callable[i]? = some decl → decl.linkage.isSome = true →
      natives'[i]? = natives[i]?)
    (declared : ∀ (i : Nat) decl g, program.callable[i]? = some decl → natives[i]? = some (some g) →
      g.DependsOn decl.params.length image image') (world : σ)
    (assigned : settings.optLevel ≠ .fast ∧ settings'.optLevel ≠ .fast ∨
      ((linkedTo source program image natives (textIn image image') (pure 0)).strict.run
        vm.settings.maxCallDepth (initialStore program world) []).1 ≠ .error .unassigned) :
    ∃ r store, Leaves (vm.executeMain loader world) r store ∧ Leaves (vm'.executeMain loader' world) r store := by
  have texts : ∀ t a, image.textAddress? t = some a → textIn image image' t = a := by
    intro t a found
    rw [textIn, found]
    rfl
  have constants : ∀ x c, (Emission.constants source program).lookup? x = some c →
      c.ty.isConstString = true →
      image.address c.bits.toUInt32.toNat = image'.address c.bits.toUInt32.toNat := by
    intro x c found string
    obtain ⟨output, emitted, clean, -, loaded⟩ := first.emitted
    obtain ⟨output', emitted', clean', -, loaded'⟩ := second.emitted
    obtain ⟨text, known, here⟩ := Emission.string_of_constant emitted clean loaded found string
    obtain ⟨text', known', here'⟩ := Emission.string_of_constant emitted' clean' loaded' found string
    cases known.symm.trans known'
    exact addresses _ _ _ here here'
  -- What does the same with two images does the same with one of them, whatever the registers hold.
  have own : ∀ (i : Nat) decl g, program.callable[i]? = some decl → decl.linkage.isSome = true →
      natives[i]? = some (some g) →
      natives[i]? = some (some g) ∧ g.DependsOn decl.params.length image image := by
    intro i decl g here _ bound
    refine ⟨bound, fun regs regs' world same => ?_⟩
    have depends := declared i decl g here bound
    rw [depends regs regs' world same, depends regs' regs' world fun _ _ => rfl]
  have other : ∀ (i : Nat) decl g, program.callable[i]? = some decl → decl.linkage.isSome = true →
      natives'[i]? = some (some g) →
      natives[i]? = some (some g) ∧ g.DependsOn decl.params.length image image' := by
    intro i decl g here native bound
    rw [externs i decl here native] at bound
    exact ⟨bound, declared i decl g here bound⟩
  obtain ⟨level, level'⟩ | assigned := assigned
  · obtain ⟨r, store, used, none, yields, leaves⟩ := first.leaves texts (fun _ _ _ _ => rfl)
      (yields_pure_zero level) (fun _ _ => rfl) own world
    obtain ⟨r', store', used', none', yields', leaves'⟩ := second.leaves
      (fun _ _ => textIn_eq addresses) constants (yields_pure_zero level') (fun _ _ => rfl) other world
    cases none rfl
    cases none' rfl
    rw [depth] at yields'
    cases (yields []).symm.trans (yields' [])
    exact ⟨r, store, leaves, leaves'⟩
  · obtain ⟨r, store, ran, leaves⟩ := first.leaves_strict texts (fun _ _ _ _ => rfl) own world assigned
    rw [← depth] at assigned ran
    obtain ⟨r', store', ran', leaves'⟩ := second.leaves_strict (fun _ _ => textIn_eq addresses) constants
      other world assigned
    cases ran.symm.trans ran'
    exact ⟨r, store, leaves, leaves'⟩

end Levels

/-- A text whose local is assigned before it is read. -/
def assignedLocal : SourceText where
  name := "assigned"
  text := "var g: Int; fn Main(): Int \x7b g = 7; var x: Int; x = g + 1; return x; \x7d"

/-- The image of `assignedLocal` with the given slots and code. -/
def assignedImage (slots : Nat) (code : List UInt8) : Image :=
  ⟨.executable, 0, #[.bytecode slots 0 code], #[0], #[]⟩

/-- The local in a slot. -/
def inSlot : Image :=
  assignedImage 1 [2, 23, 85, 16, 0, 0, 0, 0, 84, 16, 0, 0, 0, 0, 34, 16, 83, 16, 0, 0, 100, 0, 0]

/-- The local in a register. -/
def inRegister : Image :=
  assignedImage 0 [2, 23, 85, 16, 0, 0, 0, 0, 84, 32, 0, 0, 0, 0, 34, 32, 1, 18, 1, 1, 98]

/-- A machine with an image and nothing else. -/
def bare (image : Image) : Vm Unit :=
  (Vm.new {}).setImage image

theorem executeMain_levels_agree_assignedLocal : ∃ r store, Leaves ((bare inSlot).executeMain .none ()) r store ∧
      Leaves ((bare inRegister).executeMain .none ()) r store := by
  have slot : Prepared assignedLocal {} (parse assignedLocal).1 inSlot (bare inSlot) .none #[none] :=
    ⟨of_emitsTo (by decide +kernel), rfl, rfl, rfl, .ofPaths [], rfl⟩
  have register : Prepared assignedLocal { optLevel := .fast } (parse assignedLocal).1 inRegister
      (bare inRegister) .none #[none] :=
    ⟨of_emitsTo (by decide +kernel), rfl, rfl, rfl, .ofPaths [], rfl⟩
  have result : ((linkedTo assignedLocal (parse assignedLocal).1 inSlot #[none] (textIn inSlot inRegister)
      (pure 0)).strict.run (bare inSlot).settings.maxCallDepth
      (initialStore (parse assignedLocal).1 ()) []).1.toOption = some 8 := by
    decide +kernel
  generalize (parse assignedLocal).1 = program at slot register result
  have unbound : ∀ (i : Nat) g, (#[none] : Array (Option (NativeFn Unit)))[i]? ≠ some (some g) := by
    intro i g
    cases i <;> simp
  refine executeMain_levels_agree slot register rfl ?_ (fun _ _ _ _ => rfl)
    (fun i _ g _ bound => absurd bound (unbound i g)) () (.inr fun unassigned => ?_)
  · intro i j text here
    simp [inSlot, assignedImage] at here
  · rw [unassigned] at result
    cases result

/-! ## Locals that nothing was stored in -/

/-- A text whose local is assigned in a block that is not run. -/
def skippedLocal : SourceText where
  name := "skipped"
  text := "var g: Int; fn Main(): Int \x7b g = 7; var x: Int; if g == 0 \x7b x = 1; \x7d return x; \x7d"

/-- What a text without native functions gives on a level. -/
def resultOf (source : SourceText) (level : OptLevel) : Option Value := do
  let bytes ← (compile source { optLevel := level }).toOption
  let image ← (Image.ofBytes bytes).toOption
  ((bare image).executeMain .none ()).1.toOption

/-- Code of the fast level gives what the register of a local held before, where code of the other levels
gives zero. -/
theorem executeMain_unassigned_differs :
    resultOf skippedLocal .plain = some 0 ∧ resultOf skippedLocal .standard = some 0 ∧
      resultOf skippedLocal .fast = some 7 := by
  decide +kernel

end RegisterLang
