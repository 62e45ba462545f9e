import RegisterLang.Proofs.Evaluation

/-! # Relations between evaluations

What two meanings give is related when what they take from outside is: reading a local that nothing was stored
in, and calling a function with as many arguments as it has parameters. Main statements: `Meaning.Related.eval`
for expressions, `Meaning.Related.declare` and `Meaning.Related.assign` for what statements do with them,
`Meaning.Related.evalStmts` for statements. The two may see different worlds; `Erases` relates an evaluation to one
that sees less of its world.
-/

namespace RegisterLang.Evaluation

variable {ω ω' α β : Type}

/-- A relation that holds of each step of an expression and of steps in a row. -/
structure Stepwise (R : ∀ α : Type, Eval ω α → Eval ω' α → Prop) : Prop where
  pure : ∀ {α : Type} (a : α), R α (Pure.pure a) (Pure.pure a)
  stop : ∀ {α : Type} (reason : Stop), R α (Eval.stop reason) (Eval.stop reason)
  bind : ∀ {α β : Type} {x : Eval ω α} {y : Eval ω' α} {f : α → Eval ω β} {g : α → Eval ω' β},
    R α x y → (∀ a, R β (f a) (g a)) → R β (x >>= f) (y >>= g)
  getGlobal : ∀ index, R Value (Eval.getGlobal index) (Eval.getGlobal index)
  readElement : ∀ array index, R Value (readElement array index) (readElement array index)

/-- A relation that holds of each step of an evaluation and of steps in a row. -/
structure Congruence (R : ∀ α : Type, Eval ω α → Eval ω' α → Prop) : Prop extends Stepwise R where
  setGlobal : ∀ index v, R Unit (Eval.setGlobal index v) (Eval.setGlobal index v)
  writeElement : ∀ array index v, R Unit (writeElement array index v) (writeElement array index v)

/-- Two meanings that agree on all names, and are related in what they take from outside. -/
structure Meaning.Related (m : Meaning ω)
    (R : ∀ α : Type, Eval ω α → Eval ω' α → Prop) (m' : Meaning ω') : Prop where
  local_eq : m'.local? = m.local?
  global_eq : m'.global? = m.global?
  const_eq : m'.const? = m.const?
  function_eq : m'.function? = m.function?
  text_eq : m'.text = m.text
  address_eq : m'.address = m.address
  unassigned : ∀ ty, R Value (m.unassigned ty) (m'.unassigned ty)
  invoke : ∀ name i decl args, m.function? name = some (i, decl) → decl.params.length = args.length →
    R Value (m.invoke i args) (m'.invoke i args)

variable {R : ∀ α : Type, Eval ω α → Eval ω' α → Prop}

namespace Stepwise

variable (steps : Stepwise R)
include steps

theorem get (x : Answer) : R Value x.get x.get := by
  cases x with
  | value v => exact steps.pure v
  | nothing | comparison _ => exact steps.stop _

theorem applyBinary (op : BinOp) (ty : Ty) (a b : Value) :
    R Answer (Evaluation.applyBinary op ty a b) (Evaluation.applyBinary op ty a b) := by
  unfold Evaluation.applyBinary
  split
  · exact steps.pure _
  split
  · exact steps.pure _
  · exact steps.stop _

section

variable {σ : Type} {plain : σ → Stmt → Eval ω (σ × Flow)} {plain' : σ → Stmt → Eval ω' (σ × Flow)}
  {test : σ → Expr → Eval ω Bool} {test' : σ → Expr → Eval ω' Bool}
  (plains : ∀ s stmt, R (σ × Flow) (plain s stmt) (plain' s stmt))
  (tests : ∀ s cond, R Bool (test s cond) (test' s cond))
include plains tests

set_option linter.unusedSectionVars false in
mutual

theorem stmt (s : σ) : (stmt : Stmt) → R (σ × Flow) ((Executor.simple plain test).stmt s stmt)
      ((Executor.simple plain' test').stmt s stmt)
  | .var _ | .assign .. | .ret .. | .expr .. => plains s _
  | .branch chain => conditional s chain
  | .block (.mk list _) => stmts s list

/-- Statements are related when those without blocks and the conditions are. -/
theorem stmts (s : σ) : (list : List Stmt) →
    R (σ × Flow) ((Executor.simple plain test).stmts s list) ((Executor.simple plain' test').stmts s list)
  | [] => steps.pure _
  | first :: rest => steps.bind (stmt s first) fun
    | (s, .next) => stmts s rest
    | (_, .ret _) => steps.pure _

theorem conditional (s : σ) : (chain : Conditional) → R (σ × Flow)
    ((Executor.simple plain test).conditional s chain) ((Executor.simple plain' test').conditional s chain)
  | .mk cond (.mk list _) rest _ => steps.bind (tests s cond) fun
    | true => stmts s list
    | false => otherwise s rest

theorem otherwise (s : σ) : (rest : Otherwise) → R (σ × Flow)
    ((Executor.simple plain test).otherwise s rest) ((Executor.simple plain' test').otherwise s rest)
  | .absent => steps.pure _
  | .elif chain => conditional s chain
  | .orElse (.mk list _) => stmts s list

end

end

variable (destroys : ∀ array, R Unit (destroyArray array) (destroyArray array))
include destroys

theorem destroyOwned (locals : Locals) (vars : List VarDecl) :
    R Unit (Evaluation.destroyOwned locals vars) (Evaluation.destroyOwned locals vars) := by
  induction vars with
  | nil => exact steps.pure ()
  | cons var vars ih =>
    unfold Evaluation.destroyOwned
    split
    · exact steps.bind (destroys _) fun _ => ih
    · exact ih

theorem endBody (decl : FunctionDecl) (body : Block) (locals : Locals) (flow : Flow) :
    R Value (Linked.endBody decl body locals flow) (Linked.endBody decl body locals flow) := by
  refine steps.bind (steps.destroyOwned destroys locals body.vars) fun _ => ?_
  cases flow with
  | ret v => exact steps.pure v
  | next =>
    dsimp only
    split
    · exact steps.pure _
    · exact steps.stop _

end Stepwise

namespace Meaning.Related

variable {m : Meaning ω} {m' : Meaning ω'}

theorem describe (related : m.Related R m') : (e : Expr) → m'.describe e = m.describe e
  | .int _ _ | .float _ _ | .str _ _ | .list _ _ | .dot _ _ _ => rfl
  | .name id _ => by
    simp only [Meaning.describe, describeName, related.local_eq, related.global_eq, related.const_eq]
  | .group inner _ => describe related inner
  | .call callee _ _ => by simp only [Meaning.describe, related.function_eq]
  | .binary op l r _ => by simp only [Meaning.describe, describe related l, describe related r]
  | .unary _ operand _ => by simp only [Meaning.describe, describe related operand]
  | .index array _ _ => by simp only [Meaning.describe, describe related array]

variable (related : m.Related R m') (steps : Stepwise R)
include related steps

theorem readName (locals : Locals) (name : String) : R Value (m.readName locals name) (m'.readName locals name) := by
  unfold Meaning.readName
  rw [related.local_eq, related.global_eq, related.const_eq]
  split
  · unfold readLocal
    split
    · exact steps.pure _
    · exact related.unassigned _
  split
  · exact steps.getGlobal _
  split
  · unfold constValue
    rw [related.address_eq]
    exact steps.pure _
  · exact steps.stop _

theorem call (callee : String) (args : List Value) : R Answer (m.call callee args) (m'.call callee args) := by
  unfold Meaning.call
  rw [related.function_eq]
  split
  · exact steps.stop _
  next index decl found =>
  split
  · next count => exact steps.bind (related.invoke _ _ _ _ found count) fun _ => steps.pure _
  · exact steps.stop _

set_option linter.unusedSectionVars false in
mutual

/-- Expressions are related when the calls in them are. -/
theorem eval (locals : Locals) : (e : Expr) → R Answer (m.eval locals e) (m'.eval locals e)
  | .int _ _ | .float _ _ => steps.pure _
  | .str text _ => by
    rw [Meaning.eval, Meaning.eval, related.text_eq]
    exact steps.pure _
  | .name id _ => steps.bind (related.readName steps locals id) fun _ => steps.pure _
  | .group inner _ => eval locals inner
  | .call callee args _ =>
    steps.bind (evalArgs locals args) fun vs =>
      related.call steps callee.name vs
  | .binary op l r _ => by
    rw [Meaning.eval, Meaning.eval, related.describe, related.describe]
    refine steps.bind (eval locals l) fun x =>
      steps.bind (steps.get x) fun a =>
        steps.bind (eval locals r) fun y =>
          steps.bind (steps.get y) fun b => ?_
    split
    · exact steps.applyBinary op _ a b
    · exact steps.stop _
  | .unary .neg operand _ => by
    rw [Meaning.eval, Meaning.eval, related.describe]
    exact steps.bind (eval locals operand) fun x =>
      steps.bind (steps.get x) fun _ => steps.pure _
  | .unary .not _ _ => steps.stop _
  | .index array position _ =>
    steps.bind (eval locals array) fun x =>
      steps.bind (steps.get x) fun a =>
        steps.bind (eval locals position) fun y =>
          steps.bind (steps.get y) fun i =>
            steps.bind (steps.readElement a i) fun _ => steps.pure _
  | .list _ _ | .dot _ _ _ => steps.stop _

theorem evalArgs (locals : Locals) : (es : List Expr) → R (List Value) (m.evalArgs locals es) (m'.evalArgs locals es)
  | [] => steps.pure _
  | e :: es =>
    steps.bind (evalArgs locals es) fun _ =>
      steps.bind (eval locals e) fun x =>
        steps.bind (steps.get x) fun _ => steps.pure _

end

theorem value (locals : Locals) (e : Expr) : R Value (m.value locals e) (m'.value locals e) :=
  steps.bind (related.eval steps locals e) fun x => steps.get x

theorem condition (locals : Locals) (cond : Expr) : R Bool (m.condition locals cond) (m'.condition locals cond) := by
  refine steps.bind (related.eval steps locals cond) fun x => ?_
  cases x with
  | value _ | comparison _ => exact steps.pure _
  | nothing => exact steps.stop _

variable (congruence : Congruence R)
omit steps
include congruence

theorem fillArray (locals : Locals) (array : Value) (i : Nat) (items : List Expr) :
    R Unit (m.fillArray locals array i items) (m'.fillArray locals array i items) := by
  induction items generalizing i with
  | nil => exact congruence.pure ()
  | cons item items ih =>
    exact congruence.bind (related.value congruence.toStepwise locals item) fun v =>
      congruence.bind (congruence.writeElement _ _ v) fun _ => ih (i + 1)

variable (creates : ∀ length, R Value (createArray length) (createArray length))

include creates in
theorem declare (locals : Locals) (var : VarDecl) : R Locals (m.declare locals var) (m'.declare locals var) := by
  unfold Meaning.declare
  split
  · exact congruence.bind (creates _) fun array =>
      congruence.bind (related.fillArray congruence locals array 0 var.items) fun _ => congruence.pure _
  split
  · exact congruence.pure _
  · exact congruence.bind (related.value congruence.toStepwise locals _) fun _ => congruence.pure _

theorem assign (locals : Locals) (target value : Expr) :
    R Locals (m.assign locals target value) (m'.assign locals target value) := by
  unfold Meaning.assign
  split
  · unfold assignName
    rw [related.local_eq, related.global_eq]
    refine congruence.bind (related.value congruence.toStepwise locals value) fun v => ?_
    split
    · exact congruence.pure _
    split
    · exact congruence.bind (congruence.setGlobal _ _) fun _ => congruence.pure _
    · exact congruence.stop _
  · refine congruence.bind ?_ fun _ => congruence.pure _
    exact congruence.bind (related.value congruence.toStepwise locals _) fun a =>
      congruence.bind (related.value congruence.toStepwise locals _) fun i =>
        congruence.bind (related.value congruence.toStepwise locals _) fun v => congruence.writeElement a i v
  · exact congruence.pure _

include creates

theorem evalPlain (locals : Locals) :
    (stmt : Stmt) → R (Locals × Flow) (m.evalPlain locals stmt) (m'.evalPlain locals stmt)
  | .var var => congruence.bind (related.declare congruence creates locals var) fun _ => congruence.pure _
  | .assign target value _ =>
    congruence.bind (related.assign congruence locals target value) fun _ => congruence.pure _
  | .ret none _ | .branch _ | .block _ => congruence.pure _
  | .ret (some e) _ => congruence.bind (related.value congruence.toStepwise locals e) fun _ => congruence.pure _
  | .expr e _ => congruence.bind (related.eval congruence.toStepwise locals e) fun _ => congruence.pure _

theorem evalStmts (locals : Locals) (stmts : List Stmt) :
    R (Locals × Flow) (m.evalStmts locals stmts) (m'.evalStmts locals stmts) :=
  congruence.stmts (related.evalPlain congruence creates) (related.condition congruence.toStepwise) locals stmts

end Meaning.Related

section

variable (u : Linked ω) {v : Linked ω'} (same : v.functions = u.functions)
  {f : (Nat → List Value → Eval ω Value) → FunctionDecl → Block → List Value → Eval ω Value}
  {g : (Nat → List Value → Eval ω' Value) → FunctionDecl → Block → List Value → Eval ω' Value}
include same

/-- What holds of calls that stop, of native functions, and of bodies in which it holds of all calls, holds of all
calls. -/
theorem Linked.invokeWith_induct {P : Nat → Nat → List Value → Eval ω Value → Eval ω' Value → Prop}
    (stop : ∀ room i args reason, reason = .stuck ∨ reason = .trap .callDepthExceeded →
      P room i args (Eval.stop reason) (Eval.stop reason))
    (native : ∀ room i args decl, u.functions[i]? = some decl → decl.linkage.isSome = true →
      P room i args (u.native i args) (v.native i args))
    (body : ∀ room, (∀ i args, P room i args (u.invokeWith f room i args) (v.invokeWith g room i args)) →
      ∀ i args decl body, u.functions[i]? = some decl → decl.body = some body → decl.linkage.isSome = false →
        P (room + 1) i args (f (u.invokeWith f room) decl body args) (g (v.invokeWith g room) decl body args)) :
    ∀ room i args, P room i args (u.invokeWith f room i args) (v.invokeWith g room i args)
  | room, i, args => by
    rw [invokeWith, invokeWith, same]
    cases found : u.functions[i]? with
    | none => exact stop room i args _ (.inl rfl)
    | some decl =>
      dsimp only
      by_cases linked : decl.linkage.isSome = true
      · rw [if_pos linked, if_pos linked]
        exact native room i args decl found linked
      · rw [if_neg linked, if_neg linked]
        cases has : decl.body with
        | none => exact stop room i args _ (.inl rfl)
        | some block =>
          cases room with
          | zero => exact stop 0 i args _ (.inr rfl)
          | succ room =>
            exact body room (invokeWith_induct stop native body room) i args decl block found has
              (Bool.eq_false_iff.2 linked)

theorem Linked.runWith_cases {n : Nat} {P : Eval ω Value → Eval ω' Value → Prop}
    (stop : P (Eval.stop .stuck) (Eval.stop .stuck))
    (main : ∀ i decl, u.functions.findIdx? (·.name.name = "Main") = some i → u.functions[i]? = some decl →
      P (u.invokeWith f n i []) (v.invokeWith g n i [])) :
    P (u.runWith f n) (v.runWith g n) := by
  rw [runWith, runWith, same]
  cases here : u.functions.findIdx? (·.name.name = "Main") with
  | none => exact stop
  | some i =>
    exact main i _ here (List.getElem?_eq_getElem (List.findIdx?_eq_some_iff_getElem.1 here).1)

end

theorem Congruence.eq : Congruence fun α : Type => (Eq : Eval ω α → Eval ω α → Prop) where
  pure _ := rfl
  stop _ := rfl
  bind first second := first ▸ congrArg _ (funext second)
  getGlobal _ := rfl
  setGlobal _ _ := rfl
  readElement _ _ := rfl
  writeElement _ _ _ := rfl

/-! ## Seeing less of the world -/

/-- A store as it looks where less of the world is seen. -/
def Store.seen (see : ω → ω') (store : Store ω) : Store ω' :=
  ⟨store.globals, store.arrays, see store.world⟩

/-- A store with something beside its world. -/
def Store.keeping {κ : Type} (store : Store ω) (kept : κ) : Store (ω × κ) :=
  ⟨store.globals, store.arrays, (store.world, kept)⟩

/-- An evaluation that leaves alone what is kept beside the world. -/
def Eval.keeping {κ : Type} (x : Eval ω α) : Eval (ω × κ) α := fun store choices =>
  let out := x (store.seen Prod.fst) choices
  (out.1, out.2.1.keeping store.world.2, out.2.2)

/-- A program that leaves alone what is kept beside the world. -/
def Linked.keeping (u : Linked ω) (κ : Type) : Linked (ω × κ) :=
  { u with unassigned := fun ty => (u.unassigned ty).keeping, native := fun i args => (u.native i args).keeping }

/-- Where less of the world is seen, an evaluation is another one. -/
def Erases (see : ω → ω') (x : Eval ω α) (y : Eval ω' α) : Prop :=
  ∀ store choices,
    y (store.seen see) choices = ((x store choices).1, (x store choices).2.1.seen see, (x store choices).2.2)

namespace Erases

variable {see : ω → ω'}

theorem pure (a : α) : Erases see (Pure.pure a) (Pure.pure a) :=
  fun _ _ => rfl

theorem stop (reason : Stop) : Erases see (Eval.stop reason : Eval ω α) (Eval.stop reason) :=
  fun _ _ => rfl

theorem bind {x : Eval ω α} {y : Eval ω' α} {f : α → Eval ω β} {g : α → Eval ω' β} (first : Erases see x y)
    (second : ∀ a, Erases see (f a) (g a)) : Erases see (x >>= f) (y >>= g) := by
  intro store choices
  change Eval.bind y g (store.seen see) choices = ((Eval.bind x f store choices).1,
    (Eval.bind x f store choices).2.1.seen see, (Eval.bind x f store choices).2.2)
  rw [Eval.bind, first store choices, Eval.bind]
  rcases x store choices with ⟨reason | a, store', choices'⟩
  · rfl
  · exact second a store' choices'

theorem onArrays (f : ArrayHeap → Except Fault α × ArrayHeap) : Erases see (Eval.onArrays f) (Eval.onArrays f) := by
  intro store choices
  unfold Eval.onArrays
  rw [Store.seen]
  rcases f store.arrays with ⟨_ | _, _⟩ <;> rfl

theorem stepwise : Stepwise fun α : Type => (Erases see : Eval ω α → Eval ω' α → Prop) where
  pure := .pure
  stop := .stop
  bind := .bind
  getGlobal index := by
    intro store choices
    unfold Eval.getGlobal
    rw [Store.seen]
    cases store.globals[index]? <;> rfl
  readElement _ _ := .onArrays _

theorem congruence : Congruence fun α : Type => (Erases see : Eval ω α → Eval ω' α → Prop) where
  toStepwise := stepwise
  setGlobal _ _ := fun _ _ => rfl
  writeElement _ _ _ := .onArrays _

theorem createArray (length : Nat) : Erases see (Evaluation.createArray length) (Evaluation.createArray length) :=
  .bind (.onArrays _) fun _ => .pure _

/-- The end of a function, where its arrays are destroyed. -/
theorem endBody (decl : FunctionDecl) (body : Block) (locals : Locals) (flow : Flow) :
    Erases see (Linked.endBody decl body locals flow) (Linked.endBody decl body locals flow) :=
  stepwise.endBody (fun _ => .onArrays _) decl body locals flow

variable {κ : Type} {u : Linked ω}

theorem keeping (x : Eval ω α) : Erases Prod.fst (x.keeping : Eval (ω × κ) α) x :=
  fun _ _ => rfl

theorem exists_kept {x : Eval (ω × κ) α} {y : Eval ω α} (erases : Erases Prod.fst x y) {store store' : Store ω}
    {choices rest : List Value} {r : Except Stop α} (ran : y store choices = (r, store', rest)) (kept : κ) :
    ∃ kept', x (store.keeping kept) choices = (r, store'.keeping kept', rest) := by
  have same := erases (store.keeping kept) choices
  change y store choices = _ at same
  rw [ran] at same
  cases same
  exact ⟨_, rfl⟩

variable {run : (Nat → List Value → Eval (ω × κ) Value) → FunctionDecl → Block → List Value → Eval (ω × κ) Value}
  (bodies : ∀ {invoke invoke'}, (∀ i args, Erases Prod.fst (invoke i args) (invoke' i args)) → ∀ decl body args,
    Erases Prod.fst (run invoke decl body args) (u.runBody invoke' decl body args))
include bodies

/-- Calls do the same without what is kept, by recursion on the room for calls inside them. -/
theorem invokeWith (room i : Nat) (args : List Value) :
    Erases Prod.fst ((u.keeping κ).invokeWith run room i args) (u.invoke room i args) :=
  (u.keeping κ).invokeWith_induct (v := u) (P := fun _ _ _ => Erases Prod.fst) rfl (fun _ _ _ _ _ => .stop _)
    (fun _ _ _ _ _ _ => .keeping _) (fun _ calls _ args decl body _ _ _ => bodies calls decl body args) room i args

theorem runWith (room : Nat) : Erases Prod.fst ((u.keeping κ).runWith run room) (u.run room) :=
  (u.keeping κ).runWith_cases (v := u) rfl (.stop _) fun i _ _ _ => invokeWith bodies room i []

end Erases

/-- A meaning that keeps something beside the world in the functions that it calls, and one that does not. -/
abbrev Meaning.Erases {κ : Type} (m : Meaning (ω × κ)) (m' : Meaning ω) : Prop :=
  m.Related (fun _ => Evaluation.Erases Prod.fst) m'

theorem Linked.erases_meaning {κ : Type} {u : Linked ω} {invoke : Nat → List Value → Eval (ω × κ) Value}
    {invoke' : Nat → List Value → Eval ω Value} (erases : ∀ i args, Erases Prod.fst (invoke i args) (invoke' i args))
    (locals : List (String × Ty)) : ((u.keeping κ).meaning invoke locals).Erases (u.meaning invoke' locals) :=
  ⟨rfl, rfl, rfl, rfl, rfl, rfl, fun _ => .keeping _, fun _ i _ args _ _ => erases i args⟩

end RegisterLang.Evaluation
