import RegisterLang.Proofs.Levels
import RegisterLang.Proofs.Lifetimes

/-! # Constants of a program

A constant stands for its literal: a name that means a constant is evaluated as the literal is, to the same bits or
to the address of the same text. A text as a constant of another type than a constant string is the exception, and
stands for the index of the text. Main statements: `executeMain_const_eq_literal` and `executeMain_anyText`.
-/

namespace RegisterLang

open Machine Evaluation

variable {σ : Type}

namespace Emission

variable {source : SourceText} {settings : EmitSettings} {program : Program} {p : ProgramDecls}
  {table : Array String} {bodies : Array (Option FinishedBody)} {image : Image} {const : ConstDecl}

theorem Faithful.exists_folded (faithful : Faithful source settings program p) (member : const ∈ program.consts) :
    ∃ c, p.decls.consts.lookup? const.name.name = some c ∧ c.ty = const.ty ∧
      Declared.Folds (constantStrings source program) const.value c.ty c.bits := by
  have distinct : (program.consts.map (·.name.name)).Nodup :=
    faithful.const_names ▸ faithful.callable.apart.of_append_right.of_append_right
  have named : const.name.name ∈ p.decls.consts.names :=
    faithful.const_names ▸ List.mem_map_of_mem member
  cases known : p.decls.consts.lookup? const.name.name with
  | none =>
    rw [← SymbolTable.contains_eq_false, SymbolTable.mem_names.1 named] at known
    cases known
  | some c =>
    obtain ⟨const', member', same, folds⟩ := faithful.folded _ c known
    cases List.inj_on_of_nodup_map distinct member' member same
    exact ⟨c, rfl, folds⟩

/-- No global has the name of a constant. -/
theorem Faithful.global_of_const (faithful : Faithful source settings program p) (member : const ∈ program.consts) :
    program.globals.findIdx? (·.name.name = const.name.name) = none := by
  have apart := faithful.callable.apart.of_append_right
  rw [faithful.global_names, faithful.const_names] at apart
  rw [List.findIdx?_eq_none_iff]
  intro var listed
  refine decide_eq_false fun same => List.disjoint_of_nodup_append apart (List.mem_map_of_mem listed) ?_
  rw [same]
  exact List.mem_map_of_mem member

/-- A text of a program lies in its image, with a zero behind it. -/
theorem string_of_foundAt (loaded : Image.ofCodefile (codefileOf settings p table bodies) = .ok image)
    (few : table.size < 2 ^ 32) {t : String} {index : UInt32} (found : Declared.FoundAt table t index) :
    image.strings[index.toNat]? = some (Utf8.encode t ++ [0]) ∧
      (image.textAddress? t).getD 0 = image.address index.toNat := by
  obtain ⟨i, rfl, found⟩ := found
  obtain ⟨low, here, -⟩ := Array.findIdx?_eq_some_iff_getElem.1 found
  rw [UInt32.toNat_ofNat_of_lt' (Nat.lt_trans low few), text_of_loaded loaded t i found, strings_of_loaded loaded,
    Array.getElem?_map, Array.getElem?_eq_getElem low, of_decide_eq_true here]
  exact ⟨rfl, rfl⟩

theorem eval_const (built : Built source settings program p table bodies)
    (numbered : (codefileOf settings p table bodies).Numbered)
    (loaded : Image.ofCodefile (codefileOf settings p table bodies) = .ok image) (member : const ∈ program.consts)
    (kept : const.ty.isConstString = true ∨ ∀ t span, const.value.peel ≠ .str t span)
    {natives : Array (Option (NativeFn σ))} {m : Meaning σ} {invoke : Nat → List Value → Eval σ Value}
    {types : List (String × Ty)}
    (same : (hosted source program settings.optLevel image natives).meaning invoke types = m)
    (other : types.lookup const.name.name = none) (locals : Locals) (span : Span) :
    m.eval locals (.name const.name.name span) = m.eval locals const.value ∧
      ∀ t span', const.value.peel = .str t span' → ∃ i : Nat, image.strings[i]? = some (Utf8.encode t ++ [0]) ∧
        m.eval locals const.value = pure (.value (image.address i)) := by
  subst same
  obtain ⟨c, known, ty, folds⟩ := built.faithful.exists_folded member
  rw [built.faithful.consts] at known
  have named : ((hosted source program settings.optLevel image natives).meaning invoke types).eval locals
      (.name const.name.name span) = pure (.value (if c.ty.isConstString then image.address c.bits.toUInt32.toNat
        else c.bits)) := by
    simp [Meaning.eval, Meaning.readName, Linked.meaning, hosted, other, built.faithful.global_of_const member, known,
      Meaning.constValue]
  rw [named, ty]
  cases folds with
  | number kind gives =>
    rw [← ty, kind, gives]
    exact ⟨rfl, fun t span' literal => absurd literal (kept.resolve_left (by simp [← ty, kind]) t span')⟩
  | @text t _ index literal bits found =>
    obtain ⟨more, grown⟩ := (built.faithful.grows.trans built.grows).append
    obtain ⟨here, address⟩ := string_of_foundAt loaded (by simpa [codefileOf] using numbered.strings)
      (grown ▸ found.append more)
    have string : const.ty.isConstString = true := kept.resolve_right fun none => none _ _ literal
    have value : ((hosted source program settings.optLevel image natives).meaning invoke types).eval locals
        const.value = pure (.value (image.address index.toNat)) := by
      rw [← Setting.eval_peel, literal, ← address]
      rfl
    rw [string, if_pos rfl, bits, UInt32.toUInt32_toUInt64, value]
    refine ⟨rfl, fun t' span' literal' => ?_⟩
    cases literal.symm.trans literal'
    exact ⟨_, here, rfl⟩

end Emission

open Emission in
/-- The code of a program without mistakes can be loaded. On every level, with any native functions, a machine whose
native functions are found and that is not cut off by its step limit leaves what the evaluation of the program
leaves. In this evaluation the name of a constant gives what its literal gives, wherever no parameter hides it; the
literal of a string gives the address at which its text lies with a zero behind it. Constants that are strings have
to be of the type of a constant string. -/
theorem executeMain_const_eq_literal {source : SourceText} {settings : EmitSettings} {program : Program}
    {output : EmitOutput} (emitted : emit program source settings = .ok output)
    (clean : output.report.hasErrors = false) (numbered : output.codefile.Numbered)
    (executable : settings.fileType = .executable) : ∃ image, Image.ofCodefile output.codefile = .ok image ∧
      ∀ (vm : Vm σ) (loader : Loader σ) (natives : Array (Option (NativeFn σ))) (linker : Linker σ),
        vm.image = some image → vm.linker.linkAll loader vm.host image.functions.toList #[] = (.ok natives, linker) →
        (∀ const ∈ program.consts, (const.ty.isConstString = true ∨ ∀ t span, const.value.peel ≠ .str t span) →
          ∀ m invoke types, (hosted source program settings.optLevel image natives).meaning invoke types = m →
            types.lookup const.name.name = none → ∀ locals span,
            m.eval locals (.name const.name.name span) = m.eval locals const.value ∧
            ∀ t span', const.value.peel = .str t span' → ∃ i : Nat, image.strings[i]? = some (Utf8.encode t ++ [0]) ∧
                m.eval locals const.value = pure (.value (image.address i))) ∧
        ∀ world, (∃ limit, (vm.executeMain loader world).1 = .error (.stepLimitExceeded limit)) ∨ ∃ choices r store,
            (hosted source program settings.optLevel image natives).run vm.settings.maxCallDepth
              (initialStore program world) choices = (r, store, []) ∧
            Leaves (vm.executeMain loader world) r store := by
  obtain ⟨table, bodies, built, codefile⟩ := built_of_clean emitted clean
  rw [codefile] at numbered ⊢
  obtain ⟨image, loaded⟩ := built.exists_image
  refine ⟨image, loaded, fun vm loader natives linker installed linked => ⟨?_, ?_⟩⟩
  · intro const member kept m invoke types same other locals span
    exact eval_const built numbered loaded member kept same other locals span
  · exact limited_or_leaves_hosted built numbered loaded installed executable linked

/-- A text with a constant that is a string. -/
def foldedText : SourceText where
  name := "folded"
  text := "const S: const Byte* = \"abc\"; fn Main(): Any \x7b return S; \x7d"

/-- The image of `foldedText`. -/
def foldedImage : Image :=
  ⟨.executable, 0, #[.bytecode 0 0 [8, 0, 0, 0, 0, 0, 98]], #[], #[[97, 98, 99, 0]]⟩

theorem executeMain_const_eq_literal_foldedText :
    ∃ const ∈ (parse foldedText).1.consts, const.name.name = "S" ∧ ∀ locals span,
      ((hosted foldedText (parse foldedText).1 .standard foldedImage #[none]).meaning (ω := Unit)
          (fun _ _ => pure 0) []).eval locals (.name "S" span) =
        ((hosted foldedText (parse foldedText).1 .standard foldedImage #[none]).meaning
          (fun _ _ => pure 0) []).eval locals const.value := by
  obtain ⟨output, emitted, clean, numbered, loaded⟩ :=
    of_emitsTo (show emitsTo foldedText {} foldedImage = true by decide +kernel)
  obtain ⟨const, member, named, string⟩ :
      ∃ const ∈ (parse foldedText).1.consts, const.name.name = "S" ∧ const.ty.isConstString = true := by
    decide +kernel
  obtain ⟨image, loaded', all⟩ := executeMain_const_eq_literal (σ := Unit) emitted clean numbered rfl
  cases loaded.symm.trans loaded'
  obtain ⟨same, -⟩ := all (bare foldedImage) .none #[none] (bare foldedImage).linker rfl rfl
  refine ⟨const, member, named, fun locals span => ?_⟩
  rw [← named]
  exact (same const member (.inl string) _ (fun _ _ => pure 0) [] rfl rfl locals span).1

/-- A text that returns an expression, beside a constant of type `Any` that is a string. -/
def anyText (e : String) : SourceText where
  name := "any"
  text := "const S: Any = \"abc\"; fn Main(): Any \x7b return " ++ e ++ "; \x7d"

/-- The constant gives the index of the string, where its literal gives the address. -/
theorem executeMain_anyText : resultOf (anyText "S") .standard = some 0 ∧
      resultOf (anyText "\"abc\"") .standard = some (foldedImage.address 0) ∧ foldedImage.address 0 ≠ 0 := by
  decide +kernel

end RegisterLang
