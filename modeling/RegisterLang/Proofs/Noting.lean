import RegisterLang.Proofs.Congruence

/-! # Evaluations that note declarations

A program can be evaluated so that the declarations that are executed are noted in order, those of the
functions that are called among them. Main statement: `Linked.erases_noteRun`, apart from the notes this is
the evaluation of the program.
-/

namespace RegisterLang.Evaluation

variable {ω α : Type}

/-! ## Notes -/

/-- A world, beside the declarations that were executed so far. -/
abbrev Noted (ω : Type) : Type := ω × List VarDecl

/-- The declarations that were executed so far. -/
def Store.notes (store : Store (Noted ω)) : List VarDecl :=
  store.world.2

/-- A store with one more declaration noted. -/
def Store.note (store : Store (Noted ω)) (var : VarDecl) : Store (Noted ω) :=
  (store.seen Prod.fst).keeping (store.notes ++ [var])

/-- Note that a declaration is executed. -/
def Eval.note (var : VarDecl) : Eval (Noted ω) Unit := fun store choices =>
  (.ok (), store.note var, choices)

namespace Meaning

variable (m : Meaning (Noted ω))

/-- Evaluate a statement without blocks and note it if it is a declaration. -/
def notePlain (locals : Locals) : Stmt → Eval (Noted ω) (Locals × Flow)
  | .var var => do
    Eval.note var
    m.evalPlain locals (.var var)
  | stmt => m.evalPlain locals stmt

/-- How statements are evaluated and their declarations noted. -/
def noting : Executor (Noted ω) Locals :=
  .simple m.notePlain m.condition

end Meaning

namespace Linked

/-- Run the body of a function and note its declarations, then destroy its arrays. -/
def noteBody (u : Linked (Noted ω)) (invoke : Nat → List Value → Eval (Noted ω) Value) (decl : FunctionDecl)
    (body : Block) (args : List Value) : Eval (Noted ω) Value := do
  let m := u.meaning invoke (localTypes decl.params body)
  let (locals, flow) ← m.noting.stmts (bindParams decl.params args) body.stmts
  endBody decl body locals flow

variable (u : Linked ω)

/-- The program beside notes that what it needs from outside leaves alone. -/
abbrev noted : Linked (Noted ω) :=
  u.keeping (List VarDecl)

/-- Call the function with an index and note what is declared. -/
abbrev noteInvoke : Nat → Nat → List Value → Eval (Noted ω) Value :=
  u.noted.invokeWith u.noted.noteBody

/-- Run the function that a program starts with and note what is declared. -/
abbrev noteRun : Nat → Eval (Noted ω) Value :=
  u.noted.runWith u.noted.noteBody

end Linked

/-! ## Without the notes -/

theorem Erases.note (var : VarDecl) {x : Eval (Noted ω) α} {y : Eval ω α} (rest : Erases Prod.fst x y) :
    Erases Prod.fst (do Eval.note var; x) y :=
  fun store choices => rest (store.note var) choices

theorem Meaning.Erases.noting {m : Meaning (Noted ω)} {m' : Meaning ω} (erases : m.Erases m') (locals : Locals)
    (stmts : List Stmt) : Evaluation.Erases Prod.fst (m.noting.stmts locals stmts) (m'.evalStmts locals stmts) := by
  apply Erases.stepwise.stmts _ (erases.condition Erases.stepwise)
  intro locals stmt
  have plain := erases.evalPlain Erases.congruence .createArray locals stmt
  cases stmt with
  | var var => exact .note var plain
  | _ => exact plain

namespace Linked

variable (u : Linked ω)

/-- A body does the same whether its arrays are noted or not. -/
theorem erases_noteBody {invoke : Nat → List Value → Eval (Noted ω) Value} {invoke' : Nat → List Value → Eval ω Value}
    (erases : ∀ i args, Erases Prod.fst (invoke i args) (invoke' i args)) (decl : FunctionDecl) (body : Block)
    (args : List Value) : Erases Prod.fst (u.noted.noteBody invoke decl body args) (u.runBody invoke' decl body args) :=
  .bind ((erases_meaning erases _).noting _ body.stmts) fun (locals, flow) => .endBody decl body locals flow

theorem erases_noteInvoke : ∀ room i args, Erases Prod.fst (u.noteInvoke room i args) (u.invoke room i args) :=
  .invokeWith u.erases_noteBody

theorem erases_noteRun : ∀ room, Erases Prod.fst (u.noteRun room) (u.run room) :=
  .runWith u.erases_noteBody

end Linked

end RegisterLang.Evaluation
