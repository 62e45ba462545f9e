import RegisterLang.Compilation
import RegisterLang.Proofs.Programs
import RegisterLang.Proofs.Serialization

/-! # What a compilation gives can be loaded

Each thing that loading asks for is looked after in another place: the entry and the names of native
functions where functions are declared, the bits of globals where they are, the length of a string where it
is first used. Main statement: `compile_loads`.
-/

namespace RegisterLang

open List

namespace Report

theorem totalErrors_foldl_error (ds : Array Diagnostic) (r : Report) :
    (ds.foldl error r).totalErrors = r.totalErrors + ds.size := by
  rw [← Array.foldl_toList, ← Array.length_toList]
  induction ds.toList generalizing r with
  | nil => rfl
  | cons d ds ih =>
    rw [foldl_cons, ih, length_cons]
    change r.totalErrors + 1 + ds.length = _
    omega

theorem totalErrors_foldl_warning (ds : Array Diagnostic) (r : Report) :
    (ds.foldl warning r).totalErrors = r.totalErrors := by
  rw [← Array.foldl_toList]
  induction ds.toList generalizing r with
  | nil => rfl
  | cons d ds ih => exact ih _

theorem totalErrors_extend (r later : Report) : (r.extend later).totalErrors = r.totalErrors + later.totalErrors := by
  rw [extend, totalErrors_foldl_warning]
  have stored := later.stored_le
  change (later.errors.foldl error r).totalErrors + later.dropped = _
  rw [totalErrors_foldl_error, dropped]
  omega

end Report

namespace Utf8

theorem loop_eq (bytes : ByteArray) (i : Nat) (before : List UInt8) :
    ByteArray.toList.loop bytes i before = before.reverse ++ bytes.data.toList.drop i := by
  fun_induction ByteArray.toList.loop bytes i before with
  | case1 i before low ih =>
    have here : bytes.get! i = bytes.data.toList[i] := getElem!_pos bytes.data i low
    rw [ih, reverse_cons, append_assoc, singleton_append, here, getElem_cons_drop]
  | case2 i before stop =>
    rw [drop_eq_nil_of_le (Nat.le_of_not_lt stop), append_nil]

theorem encode_eq (text : String) : encode text = text.toByteArray.data.toList := by
  rw [encode, ByteArray.toList, loop_eq]
  rfl

theorem length_encode (text : String) : (encode text).length = text.utf8ByteSize := by
  rw [encode_eq]
  rfl

theorem encode_inj {text other : String} (same : encode text = encode other) : text = other := by
  rw [encode_eq, encode_eq] at same
  exact String.toByteArray_inj.1 (ByteArray.ext (Array.toList_inj.1 same))

end Utf8

/-- A text compiles when no stage finds a mistake and the codefile can be written. -/
theorem compile_eq_ok {source : SourceText} {settings : EmitSettings} {bytes : List UInt8} :
    compile source settings = .ok bytes ↔ (parse source).2.hasErrors = false ∧
      ∃ output, emit (parse source).1 source settings = .ok output ∧
        output.report.hasErrors = false ∧ output.codefile.encode = .ok bytes := by
  rw [compile]
  generalize parse source = parsed
  obtain ⟨program, report⟩ := parsed
  simp only [Report.hasErrors_eq_false]
  cases mistakes : report.hasErrors with
  | true =>
    have : report.totalErrors ≠ 0 := fun none => by
      rw [Report.hasErrors_eq_false.2 none] at mistakes
      cases mistakes
    simp [this]
  | false =>
    have none := Report.hasErrors_eq_false.1 mistakes
    rw [if_neg (by simp)]
    cases emit program source settings with
    | error e => simp
    | ok output =>
      dsimp only
      have total := report.totalErrors_extend output.report
      rw [none, Nat.zero_add] at total
      split
      · next more =>
        have : output.report.totalErrors ≠ 0 := by
          rw [← total]
          simpa [Report.hasErrors, Nat.pos_iff_ne_zero] using more
        simp [this]
      · next clean =>
        have : output.report.totalErrors = 0 := by
          rw [← total]
          simpa [Report.hasErrors] using clean
        cases encoded : output.codefile.encode <;> simp [none, this, encoded]

namespace Image

theorem exists_ofCodefile {f : Codefile} (complete : f.Complete) : ∃ image, ofCodefile f = .ok image := by
  have each : ∀ entry ∈ f.functions, ∃ function, Image.function f entry = .ok function := by
    intro entry member
    cases entry with
    | bytecode localReserve stackArgs code => exact ⟨_, rfl⟩
    | native library symbol =>
      obtain ⟨low, low'⟩ := complete.names library symbol member
      refine ⟨.native (Utf8.decodeLossy f.strings[library.toNat]) (Utf8.decodeLossy f.strings[symbol.toNat]), ?_⟩
      rw [function, name, name, getElem?_eq_getElem low, getElem?_eq_getElem low']
      rfl
  obtain ⟨functions, loaded⟩ := Codefile.exists_mapM each
  rw [ofCodefile, loaded]
  exact ⟨_, rfl⟩

end Image

namespace Emission

variable {source : SourceText} {settings : EmitSettings} {program : Program} {p : ProgramDecls}
  {table : Array String} {bodies : Array (Option FinishedBody)}

theorem toNat_lt_of_isIndex {index : UInt32} (inside : Declared.IsIndex table index) : index.toNat < table.size := by
  obtain ⟨i, low, rfl⟩ := inside
  exact Nat.lt_of_le_of_lt (UInt32.toNat_ofNat' ▸ Nat.mod_le i _) low

theorem length_functions : (codefileOf settings p table bodies).functions.length = p.decls.functions.size := by
  simp [codefileOf, SymbolTable.toList, SymbolTable.size]

theorem length_globals : (codefileOf settings p table bodies).globals.length = p.decls.globals.size := by
  simp [codefileOf, SymbolTable.toList, SymbolTable.size]

theorem length_strings : (codefileOf settings p table bodies).strings.length = table.size := by
  simp [codefileOf]

theorem mem_functions {entry : FunctionEntry} (member : entry ∈ (codefileOf settings p table bodies).functions) :
    ∃ (i : Nat) (name : String) (f : Function), p.decls.functions.entries[i]? = some (name, f) ∧
      entry = functionEntry bodies[i]?.join f := by
  obtain ⟨⟨⟨name, f⟩, i⟩, inside, rfl⟩ := mem_map.1 member
  rw [mk_mem_zipIdx_iff_getElem?, Array.getElem?_toList] at inside
  exact ⟨i, name, f, inside, rfl⟩

namespace Built

section
variable (built : Built source settings program p table bodies)
include built

theorem loadable : (codefileOf settings p table bodies).Loadable where
  version := rfl
  entry executable := by
    obtain ⟨index, f, found, -, entry, -⟩ := (built.faithful.entry executable).exists_main
    have low := SymbolTable.lt_of_find? found
    have small : p.entry.toNat ≤ index := entry ▸ UInt32.toNat_ofNat' ▸ Nat.mod_le index _
    rw [length_functions]
    exact Nat.lt_of_le_of_lt small low
  names library symbol member := by
    obtain ⟨i, name, f, entry, same⟩ := mem_functions member
    have low : i < program.callable.length := by
      rw [← built.faithful.callable.size]
      exact (Array.getElem?_eq_some_iff.1 entry).1
    obtain ⟨f', entry', describes⟩ :=
      built.faithful.callable.entry i _ (getElem?_eq_getElem low)
    cases entry.symm.trans entry'
    obtain ⟨more, grown⟩ := built.grows.append
    rw [length_strings]
    cases native : f.native with
    | none =>
      unfold functionEntry at same
      rw [native] at same
      dsimp only at same
      split at same <;> cases same
    | some link =>
      unfold functionEntry at same
      rw [native] at same
      cases same
      obtain ⟨library, symbol⟩ := describes.linked link native
      rw [grown]
      exact ⟨toNat_lt_of_isIndex (library.append more), toNat_lt_of_isIndex (symbol.append more)⟩

theorem bits :
    ∀ g ∈ (codefileOf settings p table bodies).globals, g.primitive = .byte → g.bits ≤ 255 := by
  intro entry member byte
  obtain ⟨⟨name, g⟩, inside, rfl⟩ := mem_map.1 member
  rw [built.faithful.globals] at inside
  obtain ⟨v, declared, same⟩ := mem_map.1 inside
  cases same
  change (if v.ty.isScalar then v.ty.primitive else .any) = Primitive.byte at byte
  split at byte
  · next scalar => exact built.faithful.small v declared scalar byte
  · cases byte

theorem texts : ∀ s ∈ (codefileOf settings p table bodies).strings, s.length ≤ 65535 := by
  intro s member
  obtain ⟨text, inside, rfl⟩ := mem_map.1 member
  have short := built.grows.short built.faithful.short text (Array.mem_toList_iff.1 inside)
  rw [Utf8.length_encode]
  exact short

theorem exists_image : ∃ image, Image.ofCodefile (codefileOf settings p table bodies) = .ok image :=
  Image.exists_ofCodefile built.loadable.toComplete

end

end Built

end Emission

namespace Codefile

/-- The tables of a codefile are short enough to be counted, so each entry has an index of its own. -/
structure Numbered (f : Codefile) : Prop where
  functions : f.functions.length < 2 ^ 32
  globals : f.globals.length < 2 ^ 32
  strings : f.strings.length < 2 ^ 32

/-- The tables of a codefile and the code of its functions are short enough to be counted. -/
structure Counted (f : Codefile) : Prop extends Numbered f where
  code : ∀ localReserve stackArgs code, .bytecode localReserve stackArgs code ∈ f.functions → code.length < 2 ^ 32

theorem Counted.of_encode {f : Codefile} {bytes : List UInt8} (written : f.encode = .ok bytes) : f.Counted := by
  obtain ⟨tables, made, -⟩ := encode_eq_ok.1 written
  obtain ⟨functions, globals, strings, pieces, _, mapped, -⟩ := encodeTables_eq_ok.1 made
  refine ⟨⟨functions, globals, strings⟩, fun localReserve stackArgs code member => ?_⟩
  obtain ⟨i, found⟩ := mem_iff_getElem?.1 member
  obtain ⟨piece, -, made⟩ := (mapM_eq_ok mapped).2 i _ found
  exact (encodeFunction_bytecode.1 made).1

end Codefile

/-- What a text compiles to is read back as the codefile that was emitted for it, and can be loaded. A text
in which no stage finds a mistake compiles unless there is too much of something to count it. -/
theorem compile_loads (source : SourceText) (settings : EmitSettings) :
    (∀ bytes, compile source settings = .ok bytes → bytes.length < 2 ^ 64 →
      ∃ output, emit (parse source).1 source settings = .ok output ∧
        Codefile.decode bytes = .ok output.codefile ∧ ∃ image, Image.ofBytes bytes = .ok image) ∧
    (∀ output, (parse source).2.hasErrors = false →
      emit (parse source).1 source settings = .ok output → output.report.hasErrors = false →
      ((∃ bytes, compile source settings = .ok bytes) ↔ output.codefile.Counted)) := by
  refine ⟨fun bytes compiled short => ?_, fun output parsed emitted clean => ?_⟩
  · obtain ⟨-, output, emitted, clean, encoded⟩ := compile_eq_ok.1 compiled
    obtain ⟨table, bodies, built, codefile⟩ := Emission.built_of_clean emitted clean
    have loadable : output.codefile.Loadable := codefile ▸ built.loadable
    have decoded : Codefile.decode bytes = .ok output.codefile :=
      Codefile.decode_eq_ok.2 ⟨loadable, codefile ▸ built.bits, short, encoded⟩
    obtain ⟨image, loaded⟩ := Image.exists_ofCodefile loadable.toComplete
    refine ⟨output, emitted, decoded, image, ?_⟩
    rw [Image.ofBytes, decoded]
    exact loaded
  · obtain ⟨table, bodies, built, codefile⟩ := Emission.built_of_clean emitted clean
    constructor
    · rintro ⟨bytes, compiled⟩
      obtain ⟨-, output', emitted', -, encoded⟩ := compile_eq_ok.1 compiled
      cases emitted.symm.trans emitted'
      exact .of_encode encoded
    · intro counted
      have fits : output.codefile.Fits :=
        ⟨counted.functions, counted.globals, counted.strings, counted.code, codefile ▸ built.bits,
          codefile ▸ built.texts⟩
      obtain ⟨bytes, encoded⟩ := fits.encode
      exact ⟨bytes, compile_eq_ok.2 ⟨parsed, output, emitted, clean, encoded⟩⟩

/-- A text with a global, a native function and a string. -/
def lengthOfText : SourceText where
  name := "length"
  text := "var g: Byte = 7; @extern(\"host\", \"strlen\") fn Len(s: const Byte*): Int; " ++
    "fn Main(): Int \x7b return Len(\"hi\"); \x7d"

theorem compile_loads_lengthOfText : ∃ bytes output, compile lengthOfText {} = .ok bytes ∧ bytes.length = 92 ∧
      Codefile.decode bytes = .ok output ∧ output.Counted ∧ ∃ image, Image.ofBytes bytes = .ok image := by
  have size : (compile lengthOfText {}).toOption.map List.length = some 92 := by decide +kernel
  cases compiled : compile lengthOfText {} with
  | error report =>
    rw [compiled] at size
    cases size
  | ok bytes =>
    rw [compiled] at size
    have length : bytes.length = 92 := Option.some.inj size
    obtain ⟨reads, counts⟩ := compile_loads lengthOfText {}
    obtain ⟨output, emitted, decoded, loads⟩ := reads bytes compiled (by omega)
    obtain ⟨parsed, output', emitted', clean, -⟩ := compile_eq_ok.1 compiled
    cases emitted.symm.trans emitted'
    have counted := (counts output parsed emitted clean).1 ⟨bytes, compiled⟩
    exact ⟨bytes, output.codefile, rfl, length, decoded, counted, loads⟩

end RegisterLang
