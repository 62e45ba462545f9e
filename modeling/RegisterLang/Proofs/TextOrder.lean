import RegisterLang.Proofs.Ownership
import RegisterLang.Proofs.Reading

/-! # Reading in the order of the text

A function is in text order when each local that it reads was stored to further up in its text, be it in a
block that a run passes over. A program can be evaluated so that it stops at a local that has no value, unless
such a block was passed over in the same call. Main statement: `Linked.watchRun_eq`, where all functions are in
text order this is the evaluation of the program.
-/

namespace RegisterLang

open List

namespace Evaluation

variable {ω : Type}

/-! ## Evaluations that watch what is read -/

namespace Meaning

variable (m : Meaning ω)

/-- Stop at a local that has no value, unless a block that stores to it was passed over. -/
def require (locals : Locals) (passed names : List String) : Eval ω Unit :=
  if ∀ x ∈ names, m.owns x = true → (locals x).isSome = true ∨ x ∈ passed then return
  else Eval.stop .unassigned

/-- How statements are evaluated where each local that is read must have a value. The names that were stored to in
blocks that were passed over are kept beside the locals. A statement without blocks reads all its names before it
stores to one, so they are all required at its start. -/
def watching : Executor ω (Locals × List String) where
  plain s stmt := do
    m.require s.1 s.2 stmt.reads
    let (locals, flow) ← m.evalPlain s.1 stmt
    return ((locals, s.2), flow)
  test s cond := do
    m.require s.1 s.2 cond.names
    m.condition s.1 cond
  pass body s := (s.1, s.2 ++ body.stores)
  take otherwise x := do
    let (s, flow) ← x
    return ((s.1, s.2 ++ otherwise.stores), flow)

end Meaning

namespace Linked

variable (u : Linked ω)

/-- Run the body of a function, then destroy its arrays. Nothing is passed over when it starts. -/
def watchBody (invoke : Nat → List Value → Eval ω Value) (decl : FunctionDecl) (body : Block)
    (args : List Value) : Eval ω Value := do
  let m := u.meaning invoke (localTypes decl.params body)
  let ((locals, _), flow) ← m.watching.stmts (bindParams decl.params args, []) body.stmts
  endBody decl body locals flow

/-- Run the function that a program starts with. -/
abbrev watchRun : Nat → Eval ω Value :=
  u.runWith u.watchBody

end Linked

/-! ## Nothing is stopped -/

theorem Locals.isSome_set {locals : Locals} {name x : String} {v : Value} :
    (locals.set name v x).isSome = true ↔ x = name ∨ (locals x).isSome = true := by
  by_cases same : x = name
  · simp [same]
  · rw [Locals.set_of_ne _ _ same]
    simp [same]

namespace Meaning

variable {m : Meaning ω} {stored stored' names passed passed' : List String} {locals locals' : Locals}

variable (m) in
/-- Each local that was stored to in the text has a value, or a block that stores to it was passed over. -/
def Covers (stored : List String) (locals : Locals) (passed : List String) : Prop :=
  ∀ x ∈ stored, m.owns x = true → (locals x).isSome = true ∨ x ∈ passed

theorem Covers.pass (covers : m.Covers stored locals passed) (more : List String) :
    m.Covers (stored ++ more) locals (passed ++ more) := by
  intro x member own
  rw [mem_append] at member ⊢
  rcases member with member | member
  · rcases covers x member own with assigned | passed
    · exact .inl assigned
    · exact .inr (.inl passed)
  · exact .inr (.inr member)

theorem require_eq (covers : m.Covers stored locals passed) (ordered : AllStored m.owns stored names) :
    m.require locals passed names = pure () :=
  if_pos fun x member own => covers x (ordered x member own) own

variable {choices rest : List Value} {store' store : Store ω}

/-- A statement without blocks leaves values in the locals that have one and in those that it stores to. -/
theorem isSome_of_declare {var : VarDecl}
    (ran : m.declare locals var store choices = (.ok locals', store', rest)) {x : String}
    (assigned : (locals x).isSome = true ∨ x ∈ var.stores) : (locals' x).isSome = true := by
  unfold declare at ran
  unfold VarDecl.stores at assigned
  by_cases array : var.ty.isArray = true
  · rw [if_pos array] at ran
    obtain ⟨handle, _, _, -, ran⟩ := Eval.bind_eq_ok ran
    obtain ⟨-, _, _, -, ran⟩ := Eval.bind_eq_ok ran
    cases ran
    rw [Locals.isSome_set]
    rw [array, Bool.true_or, if_pos rfl, mem_singleton] at assigned
    exact assigned.symm
  · rw [if_neg array] at ran
    cases init : var.init with
    | none =>
      rw [init] at ran assigned
      cases ran
      rw [Bool.eq_false_iff.2 array] at assigned
      exact assigned.resolve_right not_mem_nil
    | some e =>
      rw [init] at ran assigned
      obtain ⟨v, _, _, -, ran⟩ := Eval.bind_eq_ok ran
      cases ran
      rw [Locals.isSome_set]
      rw [Option.isSome_some, Bool.or_true, if_pos rfl, mem_singleton] at assigned
      exact assigned.symm

theorem isSome_of_assign {target value : Expr} (span : Span)
    (ran : m.assign locals target value store choices = (.ok locals', store', rest))
    {x : String} (own : m.owns x = true)
    (assigned : (locals x).isSome = true ∨ x ∈ (Stmt.assign target value span).targets) :
    (locals' x).isSome = true := by
  unfold assign at ran
  unfold Stmt.targets at assigned
  generalize target.peel = peeled at ran assigned
  cases peeled with
  | name id _ =>
    obtain ⟨v, _, _, -, ran⟩ := Eval.bind_eq_ok ran
    rw [mem_singleton] at assigned
    cases isLocal : m.local? id with
    | some _ =>
      rw [isLocal] at ran
      cases ran
      exact Locals.isSome_set.2 assigned.symm
    | none =>
      have other : x ≠ id := by
        rintro rfl
        rw [owns, isLocal] at own
        cases own
      rw [isLocal] at ran
      cases isGlobal : m.global? id with
      | some _ =>
        rw [isGlobal] at ran
        cases ran
        exact assigned.resolve_right other
      | none =>
        rw [isGlobal] at ran
        cases ran
  | index array position _ =>
    obtain ⟨-, _, _, -, ran⟩ := Eval.bind_eq_ok ran
    cases ran
    exact assigned.resolve_right not_mem_nil
  | _ =>
    cases ran
    exact assigned.resolve_right not_mem_nil

/-- What an evaluation that watches gives is what evaluation gives, and the locals are covered if statements
follow. -/
inductive Along (m : Meaning ω) (stored : List String) :
    Except Stop ((Locals × List String) × Flow) × Store ω × List Value →
      Except Stop (Locals × Flow) × Store ω × List Value → Prop where
  | stop (reason : Stop) (store : Store ω) (rest : List Value) :
      Along m stored (.error reason, store, rest) (.error reason, store, rest)
  | ok {locals : Locals} {passed : List String} {flow : Flow} {store : Store ω} {rest : List Value}
      (covers : flow = .next → m.Covers stored locals passed) :
      Along m stored (.ok ((locals, passed), flow), store, rest) (.ok (locals, flow), store, rest)

variable (m) in
/-- One of two evaluations watches, the other does not; between them `stored` grows. -/
def Tracks (stored stored' : List String) (x : Locals × List String → Eval ω ((Locals × List String) × Flow))
    (y : Locals → Eval ω (Locals × Flow)) : Prop :=
  ∀ locals passed, m.Covers stored locals passed → ∀ store choices,
    Along m stored' (x (locals, passed) store choices) (y locals store choices)

namespace Tracks

variable {x x' : Locals × List String → Eval ω ((Locals × List String) × Flow)}
  {y y' : Locals → Eval ω (Locals × Flow)} {more more' : List String}

theorem plain {stmt : Stmt} (ordered : AllStored m.owns stored stmt.reads)
    (stores : ∀ {locals locals' : Locals} {flow : Flow} {store store' : Store ω} {choices rest : List Value},
      m.evalPlain locals stmt store choices = (.ok (locals', flow), store', rest) → flow = .next →
      ∀ x, m.owns x = true → (locals x).isSome = true ∨ x ∈ stmt.stores → (locals' x).isSome = true) :
    m.Tracks stored (stored ++ stmt.stores) (m.watching.plain · stmt) (m.evalPlain · stmt) := by
  intro locals passed covers store choices
  change Along m _ ((m.require locals passed stmt.reads >>= fun _ => _) store choices) _
  rw [require_eq covers ordered]
  change Along m _ (Eval.bind (m.evalPlain locals stmt) _ store choices) (m.evalPlain locals stmt store choices)
  unfold Eval.bind
  cases ran : m.evalPlain locals stmt store choices with
  | mk result outcome =>
    obtain ⟨store', rest⟩ := outcome
    cases result with
    | error reason => exact .stop reason store' rest
    | ok given =>
      refine .ok fun next x member own => ?_
      have stays := stores ran next x own
      rcases mem_append.1 member with member | member
      · exact (covers x member own).imp_left fun assigned => stays (.inl assigned)
      · exact .inl (stays (.inr member))

theorem nil : m.Tracks stored (stored ++ []) (fun s => return (s, .next)) fun locals => return (locals, .next) := by
  intro locals passed covers store choices
  rw [append_nil]
  exact .ok fun _ => covers

theorem seq (first : m.Tracks stored (stored ++ more) x y)
    (second : m.Tracks (stored ++ more) (stored ++ more ++ more') x' y') : m.Tracks stored (stored ++ (more ++ more'))
      (fun s => (x s).andThen x') fun locals => (y locals).andThen y' := by
  intro locals passed covers store choices
  rw [← append_assoc]
  change Along m _ (Eval.bind (x (locals, passed)) _ store choices) (Eval.bind (y locals) _ store choices)
  unfold Eval.bind
  have along := first locals passed covers store choices
  generalize x (locals, passed) store choices = out at along ⊢
  generalize y locals store choices = out' at along ⊢
  cases along with
  | stop reason store' rest => exact .stop reason store' rest
  | @ok locals' passed' flow store' rest covers' =>
    cases flow with
    | next => exact second locals' passed' (covers' rfl) store' rest
    | ret v => exact .ok nofun

theorem ite {cond : Expr} {b : Block} {otherwise : Otherwise} (ordered : AllStored m.owns stored cond.names)
    (first : m.Tracks stored (stored ++ b.stores) x y)
    (second : m.Tracks (stored ++ b.stores) (stored ++ b.stores ++ otherwise.stores) x' y') :
    m.Tracks stored (stored ++ (b.stores ++ otherwise.stores))
      (fun s => m.watching.test s cond >>= fun taken =>
        if taken then m.watching.take otherwise (x s) else x' (m.watching.pass b s))
      fun locals => m.condition locals cond >>= fun taken => if taken then y locals else y' locals := by
  intro locals passed covers store choices
  change Along m _ (((m.require locals passed cond.names >>= fun _ => m.condition locals cond) >>= _) store choices) _
  rw [require_eq covers ordered, ← append_assoc]
  change Along m _ (Eval.bind (m.condition locals cond) _ store choices)
    (Eval.bind (m.condition locals cond) _ store choices)
  unfold Eval.bind
  cases m.condition locals cond store choices with
  | mk result outcome =>
    obtain ⟨store', rest⟩ := outcome
    cases result with
    | error reason => exact .stop reason store' rest
    | ok taken =>
      -- In the text both blocks store, in a run only one does: what the other stores counts as passed over.
      cases taken with
      | false => exact second locals (passed ++ b.stores) (covers.pass b.stores) store' rest
      | true =>
        change Along m _ (Eval.bind (x (locals, passed)) _ store' rest) (y locals store' rest)
        unfold Eval.bind
        have along := first locals passed covers store' rest
        generalize x (locals, passed) store' rest = out at along ⊢
        generalize y locals store' rest = out' at along ⊢
        cases along with
        | stop reason store'' rest' => exact .stop reason store'' rest'
        | ok covers' => exact .ok fun next => (covers' next).pass otherwise.stores

end Tracks

mutual

theorem tracks_stmt (stored : List String) : (stmt : Stmt) → stmt.Ordered m.owns stored →
    m.Tracks stored (stored ++ stmt.stores) (m.watching.stmt · stmt) (m.executor.stmt · stmt)
  | .var var, ordered => .plain ordered fun ran _ x _ assigned => by
    obtain ⟨_, _, _, ran, done⟩ := Eval.bind_eq_ok ran
    cases done
    exact isSome_of_declare ran assigned
  | .assign target value span, ordered => .plain ordered fun ran _ x own assigned => by
    obtain ⟨_, _, _, ran, done⟩ := Eval.bind_eq_ok ran
    cases done
    exact isSome_of_assign span ran own assigned
  | .ret none _, ordered => .plain ordered fun ran next => by
    cases ran
    cases next
  | .ret (some e) _, ordered => .plain ordered fun ran next => by
    obtain ⟨_, _, _, -, done⟩ := Eval.bind_eq_ok ran
    cases done
    cases next
  | .branch chain, ordered => tracks_conditional stored chain ordered
  | .expr e _, ordered => .plain ordered fun ran _ x _ assigned => by
    obtain ⟨_, _, _, -, done⟩ := Eval.bind_eq_ok ran
    cases done
    exact assigned.resolve_right not_mem_nil
  | .block (.mk stmts _), ordered => tracks_stmts stored stmts ordered

theorem tracks_stmts (stored : List String) : (stmts : List Stmt) → Stmt.ListOrdered m.owns stored stmts →
    m.Tracks stored (stored ++ Stmt.listStores stmts) (m.watching.stmts · stmts) (m.evalStmts · stmts)
  | [], _ => .nil
  | stmt :: stmts, ordered =>
    .seq (tracks_stmt stored stmt ordered.1) (tracks_stmts (stored ++ stmt.stores) stmts ordered.2)

theorem tracks_conditional (stored : List String) : (chain : Conditional) → chain.Ordered m.owns stored →
    m.Tracks stored (stored ++ chain.stores) (m.watching.conditional · chain) (m.executor.conditional · chain)
  | .mk _ (.mk stmts span) otherwise _, ordered =>
    .ite (b := .mk stmts span) ordered.1 (tracks_stmts stored stmts ordered.2.1)
      (tracks_otherwise (stored ++ Stmt.listStores stmts) otherwise ordered.2.2)

theorem tracks_otherwise (stored : List String) : (otherwise : Otherwise) → otherwise.Ordered m.owns stored →
    m.Tracks stored (stored ++ otherwise.stores) (m.watching.otherwise · otherwise) (m.executor.otherwise · otherwise)
  | .absent, _ => .nil
  | .elif chain, ordered => tracks_conditional stored chain ordered
  | .orElse (.mk stmts _), ordered => tracks_stmts stored stmts ordered

end

end Meaning

/-! ## Functions -/

/-- A function whose locals are stored to in the text before they are read; its parameters are from the
start. -/
def InTextOrder (decl : FunctionDecl) (body : Block) : Prop :=
  body.Ordered (fun x => ((localTypes decl.params body).lookup x).isSome) (decl.params.map (·.name.name))

/-- A function that is called with all its arguments has values in its parameters. -/
theorem covers_bindParams (m : Meaning ω) : (params : List Param) → (args : List Value) →
    params.length = args.length → m.Covers (params.map (·.name.name)) (bindParams params args) []
  | [], [], _ => fun x member => absurd member not_mem_nil
  | param :: params, arg :: args, count => by
    intro x member own
    rw [bindParams, Locals.isSome_set]
    rcases mem_cons.1 member with rfl | member
    · exact .inl (.inl rfl)
    · exact (covers_bindParams m params args (Nat.succ.inj count) x member own).imp_left .inr

namespace Linked

variable {u : Linked ω} {invoke : Nat → List Value → Eval ω Value} {decl : FunctionDecl}

theorem function_of_meaning {locals : List (String × Ty)} {name : String} {i : Nat}
    (found : (u.meaning invoke locals).function? name = some (i, decl)) : u.functions[i]? = some decl := by
  obtain ⟨j, -, here⟩ := Option.bind_eq_some_iff.1 found
  obtain ⟨decl', here, same⟩ := Option.map_eq_some_iff.1 here
  cases same
  exact here

/-- A function does the same with other calls when they do the same. Calls pass all arguments. -/
theorem runBody_congr {invoke' : Nat → List Value → Eval ω Value}
    (same : ∀ i decl args, u.functions[i]? = some decl → decl.params.length = args.length →
      invoke i args = invoke' i args) (decl : FunctionDecl) (body : Block) (args : List Value) :
    u.runBody invoke decl body args = u.runBody invoke' decl body args := by
  have related : Meaning.Related (u.meaning invoke (localTypes decl.params body)) (fun _ => Eq)
      (u.meaning invoke' (localTypes decl.params body)) :=
    ⟨rfl, rfl, rfl, rfl, rfl, rfl, fun _ => rfl, fun _ i decl args found count =>
      same i decl args (function_of_meaning found) count⟩
  unfold runBody
  dsimp only
  rw [related.evalStmts Congruence.eq (fun _ => rfl)]

/-- A function in text order that is called with all its arguments is never stopped. -/
theorem watchBody_eq (invoke : Nat → List Value → Eval ω Value) {body : Block}
    (ordered : InTextOrder decl body) {args : List Value} (count : decl.params.length = args.length) :
    u.watchBody invoke decl body args = u.runBody invoke decl body args := by
  funext store choices
  obtain ⟨stmts, span⟩ := body
  let m := u.meaning invoke (localTypes decl.params (.mk stmts span))
  have along := Meaning.tracks_stmts (m := m) _ stmts ordered (bindParams decl.params args) _
    (covers_bindParams m decl.params args count) store choices
  change Eval.bind (m.watching.stmts (bindParams decl.params args, _) stmts) _ store choices =
    Eval.bind (m.evalStmts (bindParams decl.params args) stmts) _ store choices
  change m.Along _ (m.watching.stmts _ stmts store choices) (m.evalStmts _ stmts store choices) at along
  unfold Eval.bind
  generalize m.watching.stmts _ stmts store choices = out at along ⊢
  generalize m.evalStmts _ stmts store choices = out' at along ⊢
  cases along with
  | stop _ _ _ | ok _ => rfl

/-- Calls of functions in text order are never stopped, by recursion on the room for calls inside them. -/
theorem watchInvoke_eq (ordered : ∀ decl ∈ u.functions, ∀ body, decl.body = some body →
    decl.linkage.isSome = false → InTextOrder decl body) (room i : Nat) (args : List Value) :
    ∀ decl, u.functions[i]? = some decl → decl.params.length = args.length →
      u.invokeWith u.watchBody room i args = u.invoke room i args := by
  refine u.invokeWith_induct (v := u) (P := fun _ i args x y => ∀ decl, u.functions[i]? = some decl →
    decl.params.length = args.length → x = y) rfl (fun _ _ _ _ _ _ _ _ => rfl) (fun _ _ _ _ _ _ _ _ _ => rfl) ?_
    room i args
  intro room calls i args decl body found has own _ found' count
  cases found.symm.trans found'
  exact (watchBody_eq _ (ordered decl (mem_of_getElem? found) body has own) count).trans
    (runBody_congr (fun i decl args => calls i args decl) decl body args)

/-- A program whose functions are in text order is never stopped at a local. -/
theorem watchRun_eq (ordered : ∀ decl ∈ u.functions, ∀ body, decl.body = some body →
    decl.linkage.isSome = false → InTextOrder decl body)
    (main : ∀ i decl, u.functions.findIdx? (·.name.name = "Main") = some i → u.functions[i]? = some decl →
      decl.params = []) (room : Nat) : u.watchRun room = u.run room :=
  u.runWith_cases (v := u) (P := Eq) rfl rfl fun i decl here found =>
    watchInvoke_eq ordered room i [] decl found (congrArg length (main i decl here found))

end Linked

end Evaluation

end RegisterLang
