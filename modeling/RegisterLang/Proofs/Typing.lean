import RegisterLang.Proofs.Runs
import RegisterLang.Proofs.TextOrder
import RegisterLang.Proofs.Tracing

/-! # Names and types of functions

The statements of a function that is emitted without mistakes read each of their locals further down in the text
than a store to it, and have the types that they need. They store to each constant of the function at one place of
the text at most, and to no global that is a constant. Main statements: `Beside.ordered_and_typed` and
`Beside.stores_once`, for all functions of a program.
-/

namespace RegisterLang

open Evaluation

namespace Emission

variable {ω : Type} {source : SourceText} {settings : EmitSettings} {program : Program} {p : ProgramDecls}
  {table : Array String} {bodies : Array (Option FinishedBody)} {σ : Type} {env : Machine.Env σ} {u : Linked ω}
  {view : σ → ω} {free : Bool}

theorem CodeOf.walks {scope : Scope} {block : Block} {f : Function} {body : FinishedBody} {first last final : Body}
    {is : List Instruction} (codeOf : CodeOf scope block f table body first last final is) (regular : Regular scope)
    (m : Meaning ω) :
    Walks scope m block.stores (block.Ordered m.owns) (m.BlockTyped scope.ret block) f.locals last.locals := by
  obtain ⟨-, does⟩ := Setting.emits_emitStmts (w := idle scope m) regular .body block.stmts _ _ _ codeOf.ran
  obtain ⟨-, walks⟩ := does codeOf.clean codeOf.errors codeOf.tidyFirst
  rw [codeOf.locals] at walks
  obtain ⟨stmts, span⟩ := block
  exact walks

theorem Function.Takes.marks {f : Function} {params : List Param} (takes : f.Takes params) :
    Marks f.locals (params.map fun q => q.name.name) := by
  intro x l found _
  obtain ⟨i, -, entry⟩ := SymbolTable.lookup?_eq_some.1 found
  rw [takes.entry, Option.map_eq_some_iff] at entry
  obtain ⟨param, here, same⟩ := entry
  cases same
  exact List.mem_map_of_mem (List.mem_of_getElem? here)

theorem Function.Takes.known {f : Function} {params : List Param} (takes : f.Takes params) (scope : Scope) :
    ∀ x ∈ params.map fun q => q.name.name, Known scope f.locals x := by
  intro x member
  rw [← takes.names_eq] at member
  cases found : f.locals.lookup? x with
  | none =>
    rw [← SymbolTable.contains_eq_false, SymbolTable.mem_names.1 member] at found
    cases found
  | some l =>
    obtain ⟨i, param, -, -, rfl⟩ := takes.of_lookup found
    exact .inl ⟨_, found, rfl⟩

section
variable (beside : Beside settings program p table env u view free)
  (built : Built source settings program p table bodies)
include beside built

/-- Each function of a program that is emitted without mistakes reads its locals further down than it stores to
them, and has the types that it needs, beside a trace as well. -/
theorem Beside.ordered_and_typed (decl : FunctionDecl) (member : decl ∈ u.functions)
    (block : Block) (body : decl.body = some block) (own : decl.linkage.isSome = false)
    (invoke : Nat → List Value → Eval (Traced ω) Value) :
    InTextOrder decl block ∧ (u.traced.meaning invoke (localTypes decl.params block)).BlockTyped decl.ret block := by
  obtain ⟨f, finished, first, last, final, is, describes, codeOf⟩ :=
    built.exists_codeOf (beside.functions ▸ member) body own
  have plain := beside.sees built.faithful describes.takes codeOf (u.invoke 0)
  have sees : Sees (u.traced.meaning invoke (localTypes decl.params block)) _ last.locals :=
    ⟨plain.1, plain.2, plain.3, plain.4, plain.5, plain.6⟩
  have walks := codeOf.walks (Declared.Ordinary.regular built.ordinary)
    (u.traced.meaning invoke (localTypes decl.params block))
  refine ⟨walks.ordered sees _ describes.takes.marks, ?_⟩
  rw [← describes.ret]
  exact walks.typed sees

/-- Each function of a program that is emitted without mistakes stores to each of its constants once in its text,
parameters being stored to at its start, and to no global that is a constant. -/
theorem Beside.stores_once (decl : FunctionDecl) (member : decl ∈ u.functions)
    (block : Block) (body : decl.body = some block) (own : decl.linkage.isSome = false)
    (invoke : Nat → List Value → Eval ω Value) :
    (u.meaning invoke (localTypes decl.params block)).Once (decl.params.map (·.name.name) ++ block.stores) ∧
      (u.meaning invoke (localTypes decl.params block)).Writable block.stores := by
  obtain ⟨f, finished, first, last, final, is, describes, codeOf⟩ :=
    built.exists_codeOf (beside.functions ▸ member) body own
  have sees := beside.sees built.faithful describes.takes codeOf invoke
  have walks := codeOf.walks (Declared.Ordinary.regular built.ordinary)
    (u.meaning invoke (localTypes decl.params block))
  refine ⟨walks.once sees _ (describes.takes.known _) (List.Nodup.filter _ ?_), walks.writable sees⟩
  rw [← describes.takes.names_eq]
  exact describes.takes.distinct

theorem Beside.main_params (executable : settings.fileType = .executable)
    (i : Nat) (decl : FunctionDecl) (main : u.functions.findIdx? (·.name.name = "Main") = some i)
    (here : u.functions[i]? = some decl) : decl.params = [] := by
  obtain ⟨index, f, found, known, -, -, none⟩ := (built.faithful.entry executable).exists_main
  rw [SymbolTable.find?_eq_findIdx? built.faithful.callable.distinct, built.faithful.callable.names,
    List.findIdx?_map, ← beside.functions] at found
  cases main.symm.trans found
  rw [beside.functions] at here
  obtain ⟨f', entry, describes⟩ := built.faithful.callable.entry i decl here
  rw [SymbolTable.get?, entry] at known
  cases known
  rw [describes.params] at none
  exact List.map_eq_nil_iff.1 none

/-- A program that is emitted without mistakes is never stopped at a local. -/
theorem Beside.watchRun_eq (executable : settings.fileType = .executable) (room : Nat) :
    u.watchRun room = u.run room := by
  refine Linked.watchRun_eq (fun decl member block body own => ?_) (beside.main_params built executable) room
  exact (beside.ordered_and_typed built decl member block body own (u.traceInvoke room)).1

end

end Emission

end RegisterLang
