import RegisterLang.Proofs.Handles
import RegisterLang.Proofs.Telling

/-! # Constants that keep their values

A function whose text stores to each of its constants once does so in every call, and a global that is a constant is
never stored to. Main statement: `Linked.StoresOnce.sound_traceRun`, in the trace of a run only elements of arrays are
stored to again that are constants.
-/

namespace RegisterLang.Evaluation

open List

variable {ω α β : Type} {globals : List VarDecl} {k : Nat} {t t1 t' : Trace} {events more : List Event}
  {f : α → Eval (Traced ω) β} {ty : Ty}

namespace Trace

/-! ## Traces -/

/-- A trace in which nothing is stored to again that is a constant, apart from the elements of arrays. The globals in it
have the types that they were declared with, and the calls in it have begun. -/
structure Sound (globals : List VarDecl) (t : Trace) : Prop where
  unbroken : t.events.Pairwise fun e e' => e.breaks e' = true → ∃ decl var handle, e = .filled decl var handle
  begun : ∀ call x ty, .own call x ty ∈ t.events → call < t.calls
  typed : ∀ i ty, .global i ty ∈ t.events → globals[i]?.map VarDecl.ty = some ty

/-- A sound trace that goes on from another one, in which only the locals of calls from number `k` on were stored to. -/
structure Extends (globals : List VarDecl) (k : Nat) (t t' : Trace) : Prop where
  sound : t'.Sound globals
  calls : t.calls ≤ t'.calls
  events : ∃ more, t'.events = t.events ++ more ∧ ∀ call x ty, .own call x ty ∈ more → k ≤ call

namespace Extends

theorem refl (sound : t.Sound globals) : Extends globals k t t where
  sound := sound
  calls := Nat.le_refl _
  events := ⟨[], (append_nil _).symm, fun _ _ _ member => absurd member not_mem_nil⟩

theorem trans (first : Extends globals k t t1) (second : Extends globals k t1 t') : Extends globals k t t' where
  sound := second.sound
  calls := Nat.le_trans first.calls second.calls
  events := by
    obtain ⟨more, same, later⟩ := first.events
    obtain ⟨more', same', later'⟩ := second.events
    refine ⟨more ++ more', by rw [same', same, append_assoc], fun call x ty member => ?_⟩
    rcases mem_append.1 member with member | member
    · exact later call x ty member
    · exact later' call x ty member

theorem widen {n : Nat} (extends' : Extends globals k t t') (le : n ≤ k) : Extends globals n t t' where
  sound := extends'.sound
  calls := extends'.calls
  events := by
    obtain ⟨more, same, later⟩ := extends'.events
    exact ⟨more, same, fun call x ty member => Nat.le_trans le (later call x ty member)⟩

end Extends

theorem Sound.tell {e : Event} (sound : t.Sound globals)
    (unbroken : ∀ e' ∈ t.events, e'.breaks e = true → ∃ decl var handle, e' = .filled decl var handle)
    (begun : ∀ call x ty, e = .own call x ty → call < t.calls)
    (typed : ∀ i ty, e = .global i ty → globals[i]?.map VarDecl.ty = some ty) : (t.tell [e]).Sound globals where
  unbroken := by
    refine pairwise_append.2 ⟨sound.unbroken, pairwise_singleton _ _, fun e' member e'' new => ?_⟩
    cases mem_singleton.1 new
    exact unbroken e' member
  begun call x ty member := by
    rcases mem_append.1 member with member | new
    · exact sound.begun call x ty member
    · exact begun call x ty (mem_singleton.1 new).symm
  typed i ty member := by
    rcases mem_append.1 member with member | new
    · exact sound.typed i ty member
    · exact typed i ty (mem_singleton.1 new).symm

theorem Sound.tell_array {e : Event} (sound : t.Sound globals) (own : ∀ call x ty, e ≠ .own call x ty)
    (outer : ∀ i ty, e ≠ .global i ty) : (t.tell [e]).Sound globals := by
  refine sound.tell (fun e' _ breaks => ?_) (fun _ _ _ same => absurd same (own _ _ _)) fun _ _ same =>
    absurd same (outer _ _)
  cases e' with
  | filled decl var handle => exact ⟨decl, var, handle, rfl⟩
  | _ => cases e <;> simp_all [Event.breaks]

theorem Sound.tell_global {i : Nat} (sound : t.Sound globals)
    (typed : globals[i]?.map VarDecl.ty = some ty) (writable : ty.isConst = false) :
    (t.tell [.global i ty]).Sound globals := by
  refine sound.tell (fun e' member breaks => ?_) (fun _ _ _ same => by cases same) fun i' ty' same => ?_
  · cases e' with
    | global j ty' =>
      simp only [Event.breaks, Bool.and_eq_true, decide_eq_true_eq] at breaks
      obtain ⟨constant, rfl⟩ := breaks
      cases (sound.typed j ty' member).symm.trans typed
      cases writable.symm.trans constant
    | _ => cases breaks
  · cases same
    exact typed

end Trace

/-! ## Expressions -/

/-- From a sound trace, an evaluation stores to the locals of new calls only, and its trace is sound. -/
def Clean (globals : List VarDecl) (x : Eval (Traced ω) α) : Prop :=
  ∀ (store : Store (Traced ω)) choices, store.trace.Sound globals →
    store.trace.Extends globals store.trace.calls (x store choices).2.1.trace

namespace Clean

variable {x : Eval (Traced ω) α}

theorem of_still (still : ∀ store choices, (x store choices).2.1.trace = store.trace) : Clean globals x := by
  intro store choices sound
  rw [still]
  exact .refl sound

theorem bind (first : Clean globals x) (second : ∀ a, Clean globals (f a)) : Clean globals (x >>= f) := by
  intro store choices sound
  have before := first store choices sound
  change store.trace.Extends globals store.trace.calls (Eval.bind x f store choices).2.1.trace
  unfold Eval.bind
  generalize x store choices = out at before ⊢
  obtain ⟨reason | a, store', rest⟩ := out
  · exact before
  · exact before.trans ((second a store' rest before.sound).widen before.calls)

theorem onArrays (f : ArrayHeap → Except Fault α × ArrayHeap) :
    Clean globals (Eval.onArrays f : Eval (Traced ω) α) := by
  apply of_still
  intro store choices
  unfold Eval.onArrays
  rcases f store.arrays with ⟨_ | _, _⟩ <;> rfl

theorem stepwise : Stepwise fun α (x _ : Eval (Traced ω) α) => Clean globals x where
  pure _ := .of_still fun _ _ => rfl
  stop _ := .of_still fun _ _ => rfl
  bind := .bind
  getGlobal index := by
    apply of_still
    intro store choices
    unfold Eval.getGlobal
    cases store.globals[index]? <;> rfl
  readElement _ _ := .onArrays _

theorem tell {e : Event} (sound : ∀ t : Trace, t.Sound globals → (t.tell [e]).Sound globals)
    (own : ∀ call x ty, e ≠ .own call x ty) : Clean globals (Eval.tell [e] : Eval (Traced ω) Unit) := by
  intro store choices before
  refine ⟨sound _ before, Nat.le_refl _, [e], rfl, fun call x ty member => ?_⟩
  exact absurd (mem_singleton.1 member).symm (own call x ty)

theorem tell_array {e : Event} (own : ∀ call x ty, e ≠ .own call x ty) (outer : ∀ i ty, e ≠ .global i ty) :
    Clean globals (Eval.tell [e] : Eval (Traced ω) Unit) :=
  .tell (fun _ sound => sound.tell_array own outer) own

theorem newArray (length : Nat) : Clean globals (Evaluation.newArray length : Eval (Traced ω) Value) :=
  .bind (.bind (.onArrays _) fun _ => stepwise.pure _) fun _ => .bind (.tell_array (by simp) (by simp)) fun _ =>
    stepwise.pure _

theorem storeElement (array index v : Value) :
    Clean globals (Evaluation.storeElement array index v : Eval (Traced ω) Unit) :=
  .bind (.onArrays _) fun _ => .tell_array (by simp) (by simp)

theorem storeGlobal {index : Nat} (v : Value) (typed : globals[index]?.map VarDecl.ty = some ty)
    (writable : ty.isConst = false) : Clean globals (Evaluation.storeGlobal index ty v : Eval (Traced ω) Unit) :=
  .bind (.of_still fun _ _ => rfl) fun _ => .tell (fun _ sound => sound.tell_global typed writable) (by simp)

end Clean

/-! ## Statements -/

namespace Meaning

variable (m : Meaning (Traced ω)) (call : Nat)

/-- The names that the call with a number has stored to are among some, and were told as constants where they are. -/
def Within (stored : List String) (t : Trace) : Prop :=
  ∀ x ty, .own call x ty ∈ t.events → x ∈ stored ∧ ty.isConst = m.isConst x

/-- From a sound trace, an evaluation in the call with a number leaves a sound trace. Of the locals of the call, only
those in `stored` were stored to before it, and it stores to those in `more` only. -/
def Stores (globals : List VarDecl) (stored more : List String) (x : Eval (Traced ω) α) : Prop :=
  ∀ (store : Store (Traced ω)) choices, store.trace.Sound globals → call < store.trace.calls →
    m.Within call stored store.trace → store.trace.Extends globals call (x store choices).2.1.trace ∧
      m.Within call (stored ++ more) (x store choices).2.1.trace

variable {m call} {stored more more' : List String}

theorem Within.widen (within : m.Within call stored t) (more : List String) : m.Within call (stored ++ more) t :=
  fun x ty member => ⟨mem_append_left _ (within x ty member).1, (within x ty member).2⟩

theorem Within.extends (within : m.Within call stored t) (extends' : t.Extends globals t.calls t')
    (begun : call < t.calls) : m.Within call stored t' := by
  intro x ty member
  obtain ⟨events, same, later⟩ := extends'.events
  rw [same] at member
  rcases mem_append.1 member with member | new
  · exact within x ty member
  · exact absurd (later call x ty new) (Nat.not_le_of_lt begun)

namespace Stores

variable {x : Eval (Traced ω) α}

theorem of_clean (clean : Clean globals x) : m.Stores call globals stored more x := by
  intro store choices sound begun within
  have after := clean store choices sound
  exact ⟨after.widen (Nat.le_of_lt begun), (within.extends after begun).widen more⟩

theorem bind (first : m.Stores call globals stored more x)
    (second : ∀ a, m.Stores call globals (stored ++ more) more' (f a)) :
    m.Stores call globals stored (more ++ more') (x >>= f) := by
  intro store choices sound begun within
  obtain ⟨before, within'⟩ := first store choices sound begun within
  rw [← append_assoc]
  change store.trace.Extends globals call (Eval.bind x f store choices).2.1.trace ∧
    m.Within call (stored ++ more ++ more') (Eval.bind x f store choices).2.1.trace
  unfold Eval.bind
  generalize x store choices = out at before within' ⊢
  obtain ⟨reason | a, store', rest⟩ := out
  · exact ⟨before, within'.widen more'⟩
  · obtain ⟨after, within''⟩ := second a store' rest before.sound (Nat.lt_of_lt_of_le begun before.calls) within'
    exact ⟨before.trans after, within''⟩

theorem mono (stores : m.Stores call globals stored more x) (part : more.Sublist more') :
    m.Stores call globals stored more' x := by
  intro store choices sound begun within
  obtain ⟨after, within'⟩ := stores store choices sound begun within
  refine ⟨after, fun y ty member => ⟨?_, (within' y ty member).2⟩⟩
  exact (part.append_left stored).subset (within' y ty member).1

theorem after (first : Clean globals x) (second : ∀ a, m.Stores call globals stored more (f a)) :
    m.Stores call globals stored more (x >>= f) := by
  have stores : m.Stores call globals stored [] x := .of_clean first
  refine stores.bind fun a => ?_
  rw [append_nil]
  exact second a

theorem before (first : m.Stores call globals stored more x) (second : ∀ a, Clean globals (f a)) :
    m.Stores call globals stored more (x >>= f) := by
  rw [← append_nil more]
  exact first.bind fun a => .of_clean (second a)

end Stores

theorem Once.sublist {names names' : List String} (once : m.Once names') (part : names.Sublist names') :
    m.Once names :=
  List.Nodup.sublist (part.filter _) once

/-- One of the function's own names is stored to, for the first time where it is a constant. -/
theorem Within.own {x : String} (within : m.Within call stored t) (sound : t.Sound globals)
    (begun : call < t.calls) (once : m.Once (stored ++ [x])) (same : ty.isConst = m.isConst x) :
    (t.tell [.own call x ty]).Sound globals ∧ m.Within call (stored ++ [x]) (t.tell [.own call x ty]) := by
  refine ⟨sound.tell (fun e' member breaks => ?_) (fun call' x' ty' told => ?_) fun _ _ told => ?_,
    fun x' ty' member => ?_⟩
  · cases e' with
    | own call' x' ty' =>
      simp only [Event.breaks, Bool.and_eq_true, decide_eq_true_eq] at breaks
      obtain ⟨⟨constant, rfl⟩, rfl⟩ := breaks
      obtain ⟨stored, told⟩ := within x' ty' member
      exact absurd stored ((once_append_singleton.1 once).2 (told.symm.trans constant))
    | _ => cases breaks
  · cases told
    exact begun
  · cases told
  · rcases mem_append.1 member with member | new
    · exact ⟨mem_append_left _ (within x' ty' member).1, (within x' ty' member).2⟩
    · cases mem_singleton.1 new
      exact ⟨mem_append_right _ (.head _), same⟩

theorem Stores.tell_own {x : String} (once : m.Once (stored ++ [x])) (same : ty.isConst = m.isConst x) :
    m.Stores call globals stored [x] (Eval.tell [.own call x ty] : Eval (Traced ω) Unit) := by
  intro store choices sound begun within
  obtain ⟨sound', within'⟩ := within.own sound begun once same
  refine ⟨⟨sound', Nat.le_refl _, [.own call x ty], rfl, fun call' x' ty' member => ?_⟩, within'⟩
  cases mem_singleton.1 member
  exact Nat.le_refl _

/-- A meaning that takes from outside nothing but what leaves sound traces, and has the globals of the program. -/
structure Clean (m : Meaning (Traced ω)) (globals : List VarDecl) : Prop extends
    m.Related (fun _ x _ => Evaluation.Clean globals x) m where
  global : ∀ x i ty, m.global? x = some (i, ty) → globals[i]?.map VarDecl.ty = some ty

variable {decl : FunctionDecl}

section

variable (clean : m.Clean globals) {locals : Locals}
include clean

theorem Clean.value (locals : Locals) (e : Expr) : Evaluation.Clean globals (m.value locals e) :=
  clean.toRelated.value Clean.stepwise locals e

theorem Clean.traceFill (locals : Locals) (array : Value) (i : Nat) (items : List Expr) :
    Evaluation.Clean globals (m.traceFill locals array i items) := by
  induction items generalizing i with
  | nil => exact Clean.stepwise.pure ()
  | cons item items ih =>
    exact .bind (clean.value locals item) fun v => .bind (.storeElement array _ v) fun _ => ih (i + 1)

theorem stores_traceDeclare (var : VarDecl) (once : m.Once (stored ++ var.stores))
    (same : var.ty.isConst = m.isConst var.name.name) :
    m.Stores call globals stored var.stores (m.traceDeclare decl call locals var) := by
  unfold traceDeclare
  unfold VarDecl.stores at once ⊢
  by_cases array : var.ty.isArray = true
  · rw [array, Bool.true_or] at once ⊢
    exact .after (.newArray _) fun array => .after (clean.traceFill locals array 0 var.items) fun _ =>
      .after (.tell_array (by simp) (by simp)) fun _ => .before (.tell_own once same) fun _ => Clean.stepwise.pure _
  · rw [Bool.eq_false_iff.2 array, Bool.false_or] at once ⊢
    cases init : var.init with
    | none => exact .of_clean (Clean.stepwise.pure _)
    | some e =>
      rw [init, Option.isSome_some] at once
      exact .after (clean.value locals e) fun v => .before (.tell_own once same) fun _ => Clean.stepwise.pure _

theorem stores_traceName (name : String) (value : Expr) (once : m.Once (stored ++ [name]))
    (writable : m.Writable [name]) : m.Stores call globals stored [name] (m.traceName call locals name value) := by
  apply Stores.after (clean.value locals value)
  intro v
  cases isLocal : m.local? name with
  | some ty =>
    refine .before (.tell_own once ?_) fun _ => Clean.stepwise.pure _
    rw [isConst, isLocal]
    rfl
  | none =>
    cases isGlobal : m.global? name with
    | none => exact .of_clean (Clean.stepwise.stop _)
    | some entry =>
      have typed := clean.global name entry.1 entry.2 isGlobal
      have writable := writable name (.head _) isLocal entry.1 entry.2 isGlobal
      exact .of_clean (.bind (.storeGlobal v typed writable) fun _ => Clean.stepwise.pure _)

theorem stores_traceAssign (target value : Expr) (span : Span)
    (once : m.Once (stored ++ (Stmt.assign target value span).targets))
    (writable : m.Writable (Stmt.assign target value span).targets) :
    m.Stores call globals stored (Stmt.assign target value span).targets
      (m.traceAssign call locals target value) := by
  unfold traceAssign
  unfold Stmt.targets at once writable ⊢
  generalize target.peel = peeled at once writable ⊢
  cases peeled with
  | name id _ => exact stores_traceName clean id value once writable
  | index array position _ =>
    refine .of_clean (.bind ?_ fun _ => Clean.stepwise.pure _)
    exact .bind (clean.value locals array) fun a => .bind (clean.value locals position) fun i =>
      .bind (clean.value locals value) fun v => .storeElement a i v
  | _ => exact .of_clean (Clean.stepwise.pure _)

end

/-- The constants among some variables are constants for the function. -/
def Declares (m : Meaning (Traced ω)) (vars : List VarDecl) : Prop :=
  ∀ var ∈ vars, var.ty.isConst = m.isConst var.name.name

variable (clean : m.Clean globals)
include clean

set_option linter.unusedSectionVars false in
mutual

theorem stores_stmt {stored : List String} {locals : Locals} :
    (stmt : Stmt) → m.Once (stored ++ stmt.stores) → m.Writable stmt.stores → m.Declares stmt.vars →
      m.Stores call globals stored stmt.stores ((m.tracing decl call).stmt locals stmt)
  | .var var, once, _, declares =>
    .before (stores_traceDeclare clean var once (declares var (.head _))) fun _ => Clean.stepwise.pure _
  | .assign target value span, once, writable, _ =>
    .before (stores_traceAssign clean target value span once writable) fun _ => Clean.stepwise.pure _
  | .ret none _, _, _, _ => .of_clean (Clean.stepwise.pure _)
  | .ret (some e) _, _, _, _ => .of_clean (.bind (clean.value locals e) fun _ => Clean.stepwise.pure _)
  | .branch chain, once, writable, declares => stores_conditional chain once writable declares
  | .expr e _, _, _, _ =>
    .of_clean (.bind (clean.toRelated.eval Clean.stepwise locals e) fun _ => Clean.stepwise.pure _)
  | .block (.mk stmts _), once, writable, declares => stores_stmts stmts once writable declares

theorem stores_stmts {stored : List String} {locals : Locals} :
    (stmts : List Stmt) → m.Once (stored ++ Stmt.listStores stmts) → m.Writable (Stmt.listStores stmts) →
      m.Declares (Stmt.listVars stmts) →
      m.Stores call globals stored (Stmt.listStores stmts) ((m.tracing decl call).stmts locals stmts)
  | [], _, _, _ => .of_clean (Clean.stepwise.pure _)
  | stmt :: stmts, once, writable, declares => by
    rw [Stmt.listStores, ← append_assoc] at once
    rw [Stmt.listStores] at writable
    rw [Stmt.listVars] at declares
    obtain ⟨writable, writable'⟩ := forall_mem_append.1 writable
    obtain ⟨declares, declares'⟩ := forall_mem_append.1 declares
    apply Stores.bind (stores_stmt stmt (once.sublist (sublist_append_left _ _)) writable declares)
    intro (locals, flow)
    cases flow with
    | next => exact stores_stmts stmts once writable' declares'
    | ret v => exact .of_clean (Clean.stepwise.pure _)

theorem stores_conditional {stored : List String} {locals : Locals} :
    (chain : Conditional) → m.Once (stored ++ chain.stores) → m.Writable chain.stores → m.Declares chain.vars →
      m.Stores call globals stored chain.stores ((m.tracing decl call).conditional locals chain)
  | .mk cond (.mk stmts _) otherwise _, once, writable, declares => by
    obtain ⟨writable, writable'⟩ := forall_mem_append.1 writable
    obtain ⟨declares, declares'⟩ := forall_mem_append.1 declares
    apply Stores.after (clean.toRelated.condition Clean.stepwise locals cond)
    intro taken
    cases taken with
    | true =>
      have part : (Stmt.listStores stmts).Sublist (Stmt.listStores stmts ++ otherwise.stores) := sublist_append_left _ _
      exact (stores_stmts stmts (once.sublist (part.append_left stored)) writable declares).mono part
    | false =>
      have part : otherwise.stores.Sublist (Stmt.listStores stmts ++ otherwise.stores) := sublist_append_right _ _
      exact (stores_otherwise otherwise (once.sublist (part.append_left stored)) writable' declares').mono part

theorem stores_otherwise {stored : List String} {locals : Locals} :
    (otherwise : Otherwise) → m.Once (stored ++ otherwise.stores) → m.Writable otherwise.stores →
      m.Declares otherwise.vars →
      m.Stores call globals stored otherwise.stores ((m.tracing decl call).otherwise locals otherwise)
  | .absent, _, _, _ => .of_clean (Clean.stepwise.pure _)
  | .elif chain, once, writable, declares => stores_conditional chain once writable declares
  | .orElse (.mk stmts _), once, writable, declares => stores_stmts stmts once writable declares

end

omit clean

theorem Within.params (params : List Param) (within : m.Within call stored t) (sound : t.Sound globals)
    (begun : call < t.calls) (once : m.Once (stored ++ params.map (·.name.name)))
    (same : ∀ param ∈ params, param.ty.isConst = m.isConst param.name.name) :
    (t.tell (paramEvents call params)).Sound globals ∧
      m.Within call (stored ++ params.map (·.name.name)) (t.tell (paramEvents call params)) := by
  induction params generalizing stored t with
  | nil =>
    rw [paramEvents, map_nil, map_nil, append_nil, Trace.tell, append_nil]
    exact ⟨sound, within⟩
  | cons param params ih =>
    rw [map_cons, append_cons] at once ⊢
    obtain ⟨sound, within⟩ := within.own sound begun (once.sublist (sublist_append_left _ _))
      (same param (.head _))
    have rest := ih within sound begun once fun other member => same other (.tail _ member)
    rw [Trace.tell, Trace.tell, append_assoc] at rest
    exact rest

theorem Stores.tell_params {params : List Param} (once : m.Once (stored ++ params.map (·.name.name)))
    (same : ∀ param ∈ params, param.ty.isConst = m.isConst param.name.name) :
    m.Stores call globals stored (params.map (·.name.name))
      (Eval.tell (paramEvents call params) : Eval (Traced ω) Unit) := by
  intro store choices sound begun within
  obtain ⟨sound', within'⟩ := within.params params sound begun once same
  refine ⟨⟨sound', Nat.le_refl _, paramEvents call params, rfl, fun call' x' ty' member => ?_⟩, within'⟩
  obtain ⟨param, -, told⟩ := mem_map.1 member
  cases told
  exact Nat.le_refl _

/-- A new call. It gets a number that no other call has, and nothing was told of it before. -/
theorem Stores.clean_number {f : Nat → Eval (Traced ω) β} (stores : ∀ call, m.Stores call globals [] more (f call)) :
    Evaluation.Clean globals (Eval.number >>= f) := by
  intro store choices sound
  obtain ⟨after, -⟩ := stores store.trace.calls store.called choices
    ⟨sound.unbroken, fun call x ty told => Nat.lt_succ_of_lt (sound.begun call x ty told), sound.typed⟩
    (Nat.lt_succ_self _) fun x ty told => absurd (sound.begun _ x ty told) (Nat.lt_irrefl _)
  exact ⟨after.sound, Nat.le_trans (Nat.le_succ _) after.calls, after.events⟩

end Meaning

/-! ## Programs -/

namespace Linked

variable {u : Linked ω} {invoke : Nat → List Value → Eval (Traced ω) Value} {decl : FunctionDecl}

/-- A program each of whose functions stores to its constants once in its text, and to no global that is one. -/
structure StoresOnce (u : Linked ω) : Prop where
  orderly : u.Orderly
  once : ∀ decl ∈ u.functions, ∀ body, decl.body = some body → decl.linkage.isSome = false → ∀ invoke,
    (u.meaning invoke (localTypes decl.params body)).Once (decl.params.map (·.name.name) ++ body.stores) ∧
      (u.meaning invoke (localTypes decl.params body)).Writable body.stores

theorem clean_meaning (clean : ∀ i args, Clean u.globals (invoke i args)) (locals : List (String × Ty)) :
    (u.traced.meaning invoke locals).Clean u.globals where
  toRelated := ⟨rfl, rfl, rfl, rfl, rfl, rfl, fun _ => .of_still fun _ _ => rfl, fun _ i _ args _ _ => clean i args⟩
  global x i ty isGlobal := by
    obtain ⟨j, -, entry⟩ := Option.bind_eq_some_iff.1 isGlobal
    obtain ⟨var, here, same⟩ := Option.map_eq_some_iff.1 entry
    cases same
    exact Option.map_eq_some_iff.2 ⟨var, here, rfl⟩

variable {body : Block}

theorem isConst_of_mem (orderly : decl.Orderly body)
    (invoke : Nat → List Value → Eval (Traced ω) Value) {x : String}
    (member : (x, ty) ∈ localTypes decl.params body) :
    (u.traced.meaning invoke (localTypes decl.params body)).isConst x = ty.isConst := by
  have distinct : ((localTypes decl.params body).map Prod.fst).Nodup := by
    rw [localTypes, map_append, map_map, map_map]
    exact orderly.distinct
  change ((localTypes decl.params body).lookup x).any Ty.isConst = _
  rw [lookup_of_mem distinct member]
  rfl

namespace StoresOnce

variable (storesOnce : u.StoresOnce)
include storesOnce

/-- The statements of a call store to no constant that was stored to before. -/
theorem clean_startBody (clean : ∀ i args, Clean u.globals (invoke i args))
    (member : decl ∈ u.functions) (has : decl.body = some body) (own : decl.linkage.isSome = false)
    (args : List Value) : Clean u.globals (u.traced.startBody invoke decl body args) := by
  have orderly := storesOnce.orderly.body decl member body has own
  obtain ⟨once, writable⟩ := storesOnce.once decl member body has own (u.invoke 0)
  have meaning := clean_meaning clean (localTypes decl.params body)
  have params : ∀ param ∈ decl.params, param.ty.isConst =
      (u.traced.meaning invoke (localTypes decl.params body)).isConst param.name.name := fun param isParam =>
    (isConst_of_mem orderly invoke (mem_append_left _ (mem_map_of_mem isParam))).symm
  have vars : (u.traced.meaning invoke (localTypes decl.params body)).Declares body.vars := by
    intro var declared
    rw [isConst_of_mem orderly invoke (mem_append_right _ (mem_map_of_mem declared)), VarDecl.fullTy]
    split <;> rfl
  obtain ⟨stmts, span⟩ := body
  exact Meaning.Stores.clean_number (m := u.traced.meaning invoke (localTypes decl.params (.mk stmts span)))
    fun call => .bind (.tell_params (once.sublist (sublist_append_left _ _)) params) fun _ =>
      Meaning.stores_stmts meaning stmts once writable vars

theorem clean_traceBody (clean : ∀ i args, Clean u.globals (invoke i args))
    (member : decl ∈ u.functions) (has : decl.body = some body) (own : decl.linkage.isSome = false)
    (args : List Value) : Clean u.globals (u.traced.traceBody invoke decl body args) :=
  .bind (storesOnce.clean_startBody clean member has own args) fun (locals, flow) =>
    Clean.stepwise.endBody (fun _ => .onArrays _) decl body locals flow

/-- No call stores to a constant again, by recursion on the room for calls inside it. -/
theorem clean_traceInvoke (room i : Nat) (args : List Value) : Clean u.globals (u.traceInvoke room i args) := by
  apply u.traced.invokeWith_induct (v := u) (g := u.runBody) (P := fun _ _ _ x _ => Clean u.globals x) rfl
  · intro room i args reason _
    exact Clean.stepwise.stop reason
  · intro room i args decl found linked
    exact .of_still fun _ _ => rfl
  · intro room clean i args decl body found has own
    exact storesOnce.clean_traceBody clean (mem_of_getElem? found) has own args

end StoresOnce

/-- What the globals start with breaks nothing: each of them is stored to once. -/
theorem sound_globalEvents (u : Linked ω) : (Trace.mk 0 u.globalEvents).Sound u.globals where
  unbroken := by
    refine pairwise_iff_getElem.2 fun i j _ _ less breaks => ?_
    simp only [globalEvents, getElem_mapIdx, Event.breaks, Bool.and_eq_true, decide_eq_true_eq] at breaks
    exact absurd breaks.2 (Nat.ne_of_lt less)
  begun call x ty told := by
    obtain ⟨i, inside, same⟩ := mem_mapIdx.1 told
    cases same
  typed i ty told := by
    obtain ⟨j, inside, same⟩ := mem_mapIdx.1 told
    cases same
    rw [getElem?_eq_getElem inside]
    rfl

/-- In the trace of a run, nothing is stored to again that is a constant, apart from the elements of arrays. -/
theorem StoresOnce.sound_traceRun (storesOnce : u.StoresOnce) (room : Nat) (store : Store ω) (choices : List Value) :
    (u.traceRun room (store.keeping ⟨0, []⟩) choices).2.1.trace.Sound u.globals := by
  have clean : Clean u.globals (u.traced.runWith u.traced.traceBody room) :=
    u.traced.runWith_cases (v := u) (g := u.runBody) (P := fun x _ => Clean u.globals x) rfl
      (Clean.stepwise.stop _) fun i _ _ _ => storesOnce.clean_traceInvoke room i []
  exact (clean (store.keeping ⟨0, u.globalEvents⟩) choices u.sound_globalEvents).sound

end Linked

end RegisterLang.Evaluation
