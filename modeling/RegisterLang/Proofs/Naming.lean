import RegisterLang.Proofs.Exposure
import RegisterLang.Proofs.Levels

/-! # Names of a program

The functions, globals and constants of a program that is emitted without mistakes have different names, and so
have the parameters and variables of each function. No parameter has the name of a global, and no variable that of
a global or a constant. A parameter may have the name of a constant, which it then hides. Main statements:
`emit_names_apart` and `executeMain_hiddenConst`.
-/

namespace RegisterLang

open Emission SymbolTable

variable {source : SourceText} {settings : EmitSettings} {program : Program}

namespace Emission

variable {p : ProgramDecls} {table : Array String} {bodies : Array (Option FinishedBody)} {decl : FunctionDecl}

/-- A variable of a function was given its name when no parameter, global or constant had it. -/
theorem CodeOf.outside {scope : Scope} {block : Block} {f : Function} {body : FinishedBody} {first last final : Body}
    {is : List Instruction} (codeOf : CodeOf scope block f table body first last final is)
    (takes : f.Takes decl.params) {var : VarDecl} (member : var ∈ block.vars) :
    var.name.name ∉ scope.decls.globals.names ++ scope.decls.consts.names := by
  obtain ⟨l, found, -⟩ := codeOf.exists_local member
  have absent : first.locals.lookup? var.name.name = none := by
    rw [← contains_eq_false, Bool.eq_false_iff, ne_eq, ← mem_names, codeOf.locals,
      takes.names_eq]
    intro isParam
    exact List.disjoint_of_nodup_append (codeOf.orderly takes).distinct isParam (List.mem_map_of_mem member)
  obtain ⟨no_global, no_const⟩ := codeOf.grown.new _ l absent found
  rw [List.mem_append, mem_names, mem_names, contains_eq_false.2 no_global,
    contains_eq_false.2 no_const]
  simp

theorem Built.vars_apart (built : Built source settings program p table bodies) (member : decl ∈ program.callable)
    (own : decl.linkage = none) : (decl.params.map (·.name.name) ++ decl.vars.map (·.name.name)).Nodup ∧
      ∀ var ∈ decl.vars, var.name.name ∉ p.decls.globals.names ++ p.decls.consts.names := by
  cases body : decl.body with
  | none =>
    have isPrototype : decl.isPrototype = true := by simp [FunctionDecl.isPrototype, body, own]
    simp [Program.callable, isPrototype] at member
  | some block =>
    obtain ⟨f, _, _, _, _, _, describes, codeOf⟩ := built.exists_codeOf member body (by simp [own])
    rw [FunctionDecl.vars_of_body body]
    exact ⟨(codeOf.orderly describes.takes).distinct, fun var member => codeOf.outside describes.takes member⟩

end Emission

/-- The names of a program that is emitted without mistakes are unambiguous, apart from parameters with the name of
a constant. -/
theorem emit_names_apart {output : EmitOutput} (emitted : emit program source settings = .ok output)
    (clean : output.report.hasErrors = false) : (program.callable.map (·.name.name) ++
        (program.globals.map (·.name.name) ++ program.consts.map (·.name.name))).Nodup ∧ ∀ decl ∈ program.callable,
        (decl.params.map (·.name.name)).Nodup ∧
        (∀ param ∈ decl.params, param.name.name ∉ program.globals.map (·.name.name)) ∧ (decl.linkage = none →
          (decl.params.map (·.name.name) ++ decl.vars.map (·.name.name)).Nodup ∧ ∀ var ∈ decl.vars,
            var.name.name ∉ program.globals.map (·.name.name) ++ program.consts.map (·.name.name)) := by
  obtain ⟨table, bodies, built, -⟩ := built_of_clean emitted clean
  have callable := built.faithful.callable
  have vars := fun decl (member : decl ∈ program.callable) => built.vars_apart member
  have names := callable.apart
  rw [callable.names] at names
  rw [← built.faithful.global_names, ← built.faithful.const_names]
  refine ⟨names, fun decl member => ⟨?_, callable.outside decl member, vars decl member⟩⟩
  obtain ⟨i, here⟩ := List.mem_iff_getElem?.1 member
  obtain ⟨f, -, describes⟩ := callable.entry i decl here
  rw [← describes.takes.names_eq]
  exact describes.takes.distinct

/-- A text with names of each kind. -/
def plainNames : SourceText where
  name := "names"
  text := "const C: Int = 5; var g: Int = 2; fn Add(a: Int): Int \x7b var x: Int = a + C; return x + g; \x7d " ++
    "fn Main(): Int \x7b return Add(1); \x7d"

theorem emit_names_apart_plainNames :
    ((parse plainNames).1.callable.map (·.name.name) ++ ((parse plainNames).1.globals.map (·.name.name) ++
        (parse plainNames).1.consts.map (·.name.name))).Nodup ∧
      ∀ decl ∈ (parse plainNames).1.callable, decl.linkage = none →
        (decl.params.map (·.name.name) ++ decl.vars.map (·.name.name)).Nodup := by
  have clean : (emit (parse plainNames).1 plainNames {}).toOption.map (·.report.hasErrors) = some false := by
    decide +kernel
  generalize (parse plainNames).1 = program at clean ⊢
  cases emitted : emit program plainNames {} with
  | error => simp [emitted, Except.toOption] at clean
  | ok output =>
    rw [emitted] at clean
    obtain ⟨names, functions⟩ := emit_names_apart emitted (Option.some.inj clean)
    exact ⟨names, fun decl member own => ((functions decl member).2.2 own).1⟩

/-- A text with a parameter that has the name of a constant. -/
def hiddenConst : SourceText where
  name := "hidden"
  text := "const N: Int = 5; fn Id(N: Int): Int \x7b return N; \x7d fn Main(): Int \x7b return Id(7); \x7d"

/-- The text is compiled, and the name means the parameter. -/
theorem executeMain_hiddenConst : (∃ decl ∈ (parse hiddenConst).1.callable, ∃ param ∈ decl.params,
      param.name.name ∈ (parse hiddenConst).1.consts.map (·.name.name)) ∧
      resultOf hiddenConst .standard = some 7 := by
  decide +kernel

end RegisterLang
