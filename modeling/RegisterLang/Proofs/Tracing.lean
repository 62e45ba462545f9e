import RegisterLang.Proofs.Congruence

/-! # Evaluations that leave a trace

A program can be evaluated so that each store to a global, a parameter or local, or an element of an array is added to
a trace. The calls of functions are numbered, which tells the locals of one call from those of another. Main statement:
`Linked.forgets_traceRun`, apart from the trace this is the evaluation of the program.
-/

namespace RegisterLang.Evaluation

variable {ω α : Type}

/-! ## Traces -/

/-- What happens to a place that a value can be stored in. -/
inductive Event where
  /-- A global is stored to, at the start of a run or later. -/
  | global (index : Nat) (ty : Ty)
  /-- A parameter or local of the call with a number is stored to. -/
  | own (call : Nat) (name : String) (ty : Ty)
  /-- An array is created. -/
  | created (handle : UInt32)
  /-- An element of an array is stored to. -/
  | element (handle : UInt32)
  /-- The array that was created for a variable of a function has the elements that it starts with. -/
  | filled (decl : FunctionDecl) (var : VarDecl) (handle : UInt32)

/-- A later event stores to something that an earlier one has given its first value, and that was declared `const`. -/
def Event.breaks : Event → Event → Bool
  | .global index ty, .global index' _ => ty.isConst && index = index'
  | .own call name ty, .own call' name' _ => ty.isConst && call = call' && name = name'
  | .filled _ var handle, .element handle' => var.ty.isConst && handle = handle'
  | _, _ => false

/-- What happened so far, in order. -/
structure Trace where
  /-- How many functions were called. -/
  calls : Nat
  events : List Event

/-- A trace with more in it. -/
def Trace.tell (t : Trace) (events : List Event) : Trace :=
  { t with events := t.events ++ events }

/-- A world, beside a trace. -/
abbrev Traced (ω : Type) : Type := ω × Trace

namespace Store

/-- What happened so far. -/
def trace (store : Store (Traced ω)) : Trace :=
  store.world.2

/-- A store with more in its trace. -/
def tell (store : Store (Traced ω)) (events : List Event) : Store (Traced ω) :=
  (store.seen Prod.fst).keeping (store.trace.tell events)

/-- A store in whose trace another call begins. -/
def called (store : Store (Traced ω)) : Store (Traced ω) :=
  (store.seen Prod.fst).keeping { store.trace with calls := store.trace.calls + 1 }

end Store

namespace Eval

/-- Add to the trace. -/
def tell (events : List Event) : Eval (Traced ω) Unit := fun store choices =>
  (.ok (), store.tell events, choices)

/-- The number of a new call. -/
def number : Eval (Traced ω) Nat := fun store choices =>
  (.ok store.trace.calls, store.called, choices)

end Eval

/-- Store a value in a global. -/
def storeGlobal (index : Nat) (ty : Ty) (v : Value) : Eval (Traced ω) Unit := do
  Eval.setGlobal index v
  Eval.tell [.global index ty]

/-- Store a value in an element of an array. -/
def storeElement (array index v : Value) : Eval (Traced ω) Unit := do
  writeElement array index v
  Eval.tell [.element array.handle]

/-- Create an array of zeros. -/
def newArray (length : Nat) : Eval (Traced ω) Value := do
  let array ← createArray length
  Eval.tell [.created array.handle]
  return array

namespace Meaning

variable (m : Meaning (Traced ω)) (decl : FunctionDecl) (call : Nat)

/-- Store the items of a list in an array from number `i` on. -/
def traceFill (locals : Locals) (array : Value) : Nat → List Expr → Eval (Traced ω) Unit
  | _, [] => return
  | i, item :: items => do
    let v ← m.value locals item
    storeElement array (UInt64.ofNat i) v
    traceFill locals array (i + 1) items

/-- Declare a variable. -/
def traceDeclare (locals : Locals) (var : VarDecl) : Eval (Traced ω) Locals :=
  if var.ty.isArray then do
    let array ← newArray var.arrayLength
    m.traceFill locals array 0 var.items
    Eval.tell [.filled decl var array.handle]
    Eval.tell [.own call var.name.name var.ty]
    return locals.set var.name.name array
  else
    match var.init with
    | none => return locals
    | some init => do
      let v ← m.value locals init
      Eval.tell [.own call var.name.name var.ty]
      return locals.set var.name.name v

/-- Assign to a name: a local, else a global. -/
def traceName (locals : Locals) (name : String) (value : Expr) : Eval (Traced ω) Locals := do
  let v ← m.value locals value
  match m.local? name with
  | some ty => do
    Eval.tell [.own call name ty]
    return locals.set name v
  | none =>
    match m.global? name with
    | some (index, ty) => do
      storeGlobal index ty v
      return locals
    | none => Eval.stop .stuck

/-- Assign to an element of an array. -/
def traceElement (locals : Locals) (array position value : Expr) : Eval (Traced ω) Unit := do
  let a ← m.value locals array
  let i ← m.value locals position
  let v ← m.value locals value
  storeElement a i v

/-- Assign to a name or an element. -/
def traceAssign (locals : Locals) (target value : Expr) : Eval (Traced ω) Locals :=
  match target.peel with
  | .name id _ => m.traceName call locals id value
  | .index array position _ => do
    m.traceElement locals array position value
    return locals
  | _ => return locals

/-- Evaluate a statement without blocks and trace what it stores to. -/
def tracePlain (locals : Locals) : Stmt → Eval (Traced ω) (Locals × Flow)
  | .var var => do
    let locals ← m.traceDeclare decl call locals var
    return (locals, .next)
  | .assign target value _ => do
    let locals ← m.traceAssign call locals target value
    return (locals, .next)
  | stmt => m.evalPlain locals stmt

/-- How statements are evaluated and their stores traced. -/
def tracing : Executor (Traced ω) Locals :=
  .simple (m.tracePlain decl call) m.condition

end Meaning

/-- What a call stores to when it starts. -/
def paramEvents (call : Nat) (params : List Param) : List Event :=
  params.map fun param => .own call param.name.name param.ty

namespace Linked

/-- Begin a call and run the statements of a function. -/
def startBody (u : Linked (Traced ω)) (invoke : Nat → List Value → Eval (Traced ω) Value) (decl : FunctionDecl)
    (body : Block) (args : List Value) : Eval (Traced ω) (Locals × Flow) := do
  let call ← Eval.number
  Eval.tell (paramEvents call decl.params)
  let m := u.meaning invoke (localTypes decl.params body)
  (m.tracing decl call).stmts (bindParams decl.params args) body.stmts

/-- Run the body of a function, then destroy its arrays. -/
def traceBody (u : Linked (Traced ω)) (invoke : Nat → List Value → Eval (Traced ω) Value) (decl : FunctionDecl)
    (body : Block) (args : List Value) : Eval (Traced ω) Value := do
  let (locals, flow) ← u.startBody invoke decl body args
  endBody decl body locals flow

variable (u : Linked ω)

/-- The program beside a trace that what it needs from outside leaves alone. -/
abbrev traced : Linked (Traced ω) :=
  u.keeping Trace

/-- Call the function with an index and trace what is stored to. -/
abbrev traceInvoke : Nat → Nat → List Value → Eval (Traced ω) Value :=
  u.traced.invokeWith u.traced.traceBody

/-- What the globals start with. -/
def globalEvents : List Event :=
  u.globals.mapIdx fun index var => .global index var.ty

/-- Run the function that a program starts with. -/
def traceRun (room : Nat) : Eval (Traced ω) Value := do
  Eval.tell u.globalEvents
  u.traced.runWith u.traced.traceBody room

end Linked

/-! ## Without the trace -/

namespace Erases

variable {y : Eval ω α}

theorem tell (events : List Event) {x : Unit → Eval (Traced ω) α} (rest : Erases Prod.fst (x ()) y) :
    Erases Prod.fst (Eval.tell events >>= x) y :=
  fun store choices => rest (store.tell events) choices

theorem number {x : Nat → Eval (Traced ω) α} (rest : ∀ call, Erases Prod.fst (x call) y) :
    Erases Prod.fst (Eval.number >>= x) y :=
  fun store choices => rest store.trace.calls store.called choices

theorem bind_tell {x : Eval (Traced ω) Unit} {y : Eval ω Unit} (first : Erases Prod.fst x y) (events : List Event) :
    Erases Prod.fst (x >>= fun _ => Eval.tell events) y := by
  rw [← bind_pure y]
  exact first.bind fun _ _ _ => rfl

theorem newArray (length : Nat) :
    Erases Prod.fst (Evaluation.newArray length : Eval (Traced ω) Value) (Evaluation.createArray length) := by
  rw [← bind_pure (Evaluation.createArray length)]
  exact (Erases.createArray length).bind fun array => .tell _ (.pure array)

theorem storeGlobal (index : Nat) (ty : Ty) (v : Value) :
    Erases Prod.fst (Evaluation.storeGlobal index ty v : Eval (Traced ω) Unit) (Eval.setGlobal index v) :=
  .bind_tell (congruence.setGlobal index v) _

theorem storeElement (array index v : Value) :
    Erases Prod.fst (Evaluation.storeElement array index v : Eval (Traced ω) Unit) (writeElement array index v) :=
  .bind_tell (congruence.writeElement array index v) _

end Erases

namespace Meaning.Erases

variable {m : Meaning (Traced ω)} {m' : Meaning ω} {decl : FunctionDecl} {call : Nat} (erases : m.Erases m')
include erases

theorem traceFill (locals : Locals) (array : Value) (i : Nat) (items : List Expr) :
    Evaluation.Erases Prod.fst (m.traceFill locals array i items) (m'.fillArray locals array i items) := by
  induction items generalizing i with
  | nil => exact .pure ()
  | cons item items ih =>
    exact .bind (erases.value Erases.stepwise locals item) fun v =>
      .bind (.storeElement array _ v) fun _ => ih (i + 1)

theorem traceDeclare (locals : Locals) (var : VarDecl) :
    Evaluation.Erases Prod.fst (m.traceDeclare decl call locals var) (m'.declare locals var) := by
  unfold Meaning.traceDeclare Meaning.declare
  split
  · exact .bind (.newArray _) fun array =>
      .bind (erases.traceFill locals array 0 var.items) fun _ => .tell _ (.tell _ (.pure _))
  cases var.init with
  | none => exact .pure _
  | some init => exact .bind (erases.value Erases.stepwise locals init) fun _ => .tell _ (.pure _)

theorem traceName (locals : Locals) (name : String) (value : Expr) :
    Evaluation.Erases Prod.fst (m.traceName call locals name value) (m'.assignName locals name value) := by
  unfold Meaning.traceName assignName
  rw [erases.local_eq, erases.global_eq]
  apply (erases.value Erases.stepwise locals value).bind
  intro v
  cases m.local? name with
  | some ty => exact .tell _ (.pure _)
  | none =>
    cases m.global? name with
    | some entry => exact .bind (.storeGlobal _ _ _) fun _ => .pure _
    | none => exact .stop _

theorem traceAssign (locals : Locals) (target value : Expr) :
    Evaluation.Erases Prod.fst (m.traceAssign call locals target value) (m'.assign locals target value) := by
  unfold Meaning.traceAssign Meaning.assign
  cases target.peel with
  | name id _ => exact erases.traceName locals id value
  | index array position _ =>
    refine .bind ?_ fun _ => .pure _
    exact .bind (erases.value Erases.stepwise locals array) fun a =>
      .bind (erases.value Erases.stepwise locals position) fun i =>
        .bind (erases.value Erases.stepwise locals value) fun v => .storeElement a i v
  | _ => exact .pure _

theorem tracing (locals : Locals) (stmts : List Stmt) :
    Evaluation.Erases Prod.fst ((m.tracing decl call).stmts locals stmts) (m'.evalStmts locals stmts) := by
  apply Erases.stepwise.stmts _ (erases.condition Erases.stepwise)
  intro locals stmt
  cases stmt with
  | var var => exact .bind (erases.traceDeclare locals var) fun _ => .pure _
  | assign target value _ => exact .bind (erases.traceAssign locals target value) fun _ => .pure _
  | _ => exact erases.evalPlain Erases.congruence .createArray locals _

end Meaning.Erases

namespace Linked

variable (u : Linked ω)

section

variable {invoke : Nat → List Value → Eval (Traced ω) Value} {invoke' : Nat → List Value → Eval ω Value}
  (forgets : ∀ i args, Erases Prod.fst (invoke i args) (invoke' i args))
include forgets

theorem forgets_startBody (decl : FunctionDecl) (body : Block) (args : List Value) :
    Erases Prod.fst (u.traced.startBody invoke decl body args)
      ((u.meaning invoke' (localTypes decl.params body)).evalStmts (bindParams decl.params args) body.stmts) := by
  apply Erases.number
  intro call
  apply Erases.tell
  exact (erases_meaning forgets _).tracing _ body.stmts

/-- A body does the same whether its events are told or not. -/
theorem forgets_traceBody (decl : FunctionDecl) (body : Block) (args : List Value) :
    Erases Prod.fst (u.traced.traceBody invoke decl body args) (u.runBody invoke' decl body args) :=
  (u.forgets_startBody forgets decl body args).bind fun (locals, flow) => .endBody decl body locals flow

end

theorem forgets_traceInvoke : ∀ room i args, Erases Prod.fst (u.traceInvoke room i args) (u.invoke room i args) :=
  .invokeWith u.forgets_traceBody

/-- So does a whole run. -/
theorem forgets_traceRun (room : Nat) : Erases Prod.fst (u.traceRun room) (u.run room) :=
  .tell _ (.runWith u.forgets_traceBody room)

end Linked

end RegisterLang.Evaluation
