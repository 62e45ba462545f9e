import RegisterLang.Proofs.Ownership
import RegisterLang.Proofs.Tracing

/-! # What a trace tells

Nothing changes in an evaluation that is not told in its trace: neither the globals, nor the elements of the arrays
that stay, nor the locals of a call. Main statement: `Linked.Quiet.faithful`, for whole programs.
-/

namespace RegisterLang.Evaluation

open List ArrayHeap

variable {ω α β : Type}

/-! ## What the steps do -/

theorem storeElement_eq (array index v : Value) (store : Store (Traced ω)) (choices : List Value) :
    (∃ reason, storeElement array index v store choices = (.error reason, store, choices)) ∨
      ∃ arrays, ArrayHeap.Writes store.arrays array.handle index.toNat v arrays ∧
        storeElement array index v store choices =
          (.ok (), Store.tell { store with arrays } [.element array.handle], choices) := by
  change (∃ reason, Eval.bind (Eval.onArrays _) _ store choices = _) ∨
    ∃ arrays, _ ∧ Eval.bind (Eval.onArrays _) _ store choices = _
  rw [Eval.bind, Eval.onArrays]
  rcases stored : store.arrays.set array.handle index v with ⟨fault | _, arrays⟩
  · cases set_error stored
    exact .inl ⟨_, rfl⟩
  · exact .inr ⟨arrays, writes_of_set stored, rfl⟩

theorem newArray_eq (length : Nat) {store : Store (Traced ω)} (consistent : store.arrays.Consistent)
    (choices : List Value) : (∃ reason arrays, ArrayHeap.Fails store.arrays arrays ∧
        newArray length store choices = (.error reason, { store with arrays }, choices)) ∨
      ∃ array arrays, ArrayHeap.Creates store.arrays (UInt64.ofNat length).toNat array.handle arrays ∧
        newArray length store choices =
          (.ok array, Store.tell { store with arrays } [.created array.handle], choices) := by
  change (∃ reason arrays, _ ∧ Eval.bind (Eval.bind (Eval.onArrays _) _) _ store choices = _) ∨
    ∃ array arrays, _ ∧ Eval.bind (Eval.bind (Eval.onArrays _) _) _ store choices = _
  rw [Eval.bind, Eval.bind, Eval.onArrays]
  rcases created : store.arrays.create (UInt64.ofNat length) with ⟨fault | handle, arrays⟩
  · exact .inl ⟨_, arrays, fails_of_create consistent created, rfl⟩
  · refine .inr ⟨Value.ofHandle handle, arrays, ?_, rfl⟩
    rw [Value.handle_ofHandle]
    exact creates_of_create consistent created

/-! ## What the trace tells -/

/-- What was added to the trace between two stores tells all that changed: the globals, and the arrays unless they
were destroyed. -/
structure Told (before : Store (Traced ω)) (more : List Event) (after : Store (Traced ω)) : Prop where
  events : after.trace.events = before.trace.events ++ more
  consistent : after.arrays.Consistent
  globals : ∀ i, after.globals[i]? = before.globals[i]? ∨ ∃ ty, .global i ty ∈ more
  arrays : ∀ handle array, after.arrays.array? handle = .ok array →
    before.arrays.array? handle = .ok array ∨ .created handle ∈ more ∨ .element handle ∈ more

namespace Told

variable {before middle after : Store (Traced ω)} {more more' : List Event}

theorem same (consistent : before.arrays.Consistent) (events : after.trace.events = before.trace.events ++ more)
    (globals : after.globals = before.globals) (arrays : after.arrays = before.arrays) : Told before more after where
  events := events
  consistent := arrays ▸ consistent
  globals _ := .inl (by rw [globals])
  arrays _ _ found := .inl (by rw [← arrays, found])

theorem trans (first : Told before more middle) (second : Told middle more' after) :
    Told before (more ++ more') after where
  events := by rw [second.events, first.events, append_assoc]
  consistent := second.consistent
  globals i := by
    rcases second.globals i with same | ⟨ty, told⟩
    · rcases first.globals i with same' | ⟨ty, told⟩
      · exact .inl (same.trans same')
      · exact .inr ⟨ty, mem_append_left _ told⟩
    · exact .inr ⟨ty, mem_append_right _ told⟩
  arrays handle array found := by
    rcases second.arrays handle array found with found | told
    · rcases first.arrays handle array found with found | told
      · exact .inl found
      · exact .inr (told.imp (mem_append_left _) (mem_append_left _))
    · exact .inr (told.imp (mem_append_right _) (mem_append_right _))

end Told

/-- An evaluation tells all that it changes, and `wanted` holds of what it tells and gives. -/
def Tells (x : Eval (Traced ω) α) (wanted : List Event → α → Prop) : Prop :=
  ∀ store choices, store.arrays.Consistent → ∃ more, Told store more (x store choices).2.1 ∧
    ∀ a, (x store choices).1 = .ok a → wanted more a

namespace Tells

variable {x : Eval (Traced ω) α} {wanted : List Event → α → Prop}

theorem pure {a : α} (holds : wanted [] a) : Tells (Pure.pure a : Eval (Traced ω) α) wanted := by
  intro store choices consistent
  refine ⟨[], .same consistent (append_nil _).symm rfl rfl, fun a' same => ?_⟩
  cases same
  exact holds

theorem stop (reason : Stop) : Tells (Eval.stop reason : Eval (Traced ω) α) wanted :=
  fun _ _ consistent => ⟨[], .same consistent (append_nil _).symm rfl rfl, fun _ impossible => by cases impossible⟩

theorem bind {f : α → Eval (Traced ω) β} {wanted' : List Event → β → Prop} (first : Tells x wanted)
    (second : ∀ a more, wanted more a → Tells (f a) fun more' => wanted' (more ++ more')) :
    Tells (x >>= f) wanted' := by
  intro store choices consistent
  obtain ⟨more, told, holds⟩ := first store choices consistent
  change ∃ more, Told store more (Eval.bind x f store choices).2.1 ∧
    ∀ b, (Eval.bind x f store choices).1 = .ok b → wanted' more b
  unfold Eval.bind
  generalize x store choices = out at told holds ⊢
  obtain ⟨reason | a, store', rest⟩ := out
  · exact ⟨more, told, fun _ impossible => by cases impossible⟩
  · obtain ⟨more', told', holds'⟩ := second a more (holds a rfl) store' rest told.consistent
    exact ⟨more ++ more', told.trans told', holds'⟩

theorem mono {wanted' : List Event → α → Prop} (tells : Tells x wanted)
    (less : ∀ more a, wanted more a → wanted' more a) : Tells x wanted' := by
  intro store choices consistent
  obtain ⟨more, told, holds⟩ := tells store choices consistent
  exact ⟨more, told, fun a same => less more a (holds a same)⟩

theorem tell (events : List Event) : Tells (Eval.tell events : Eval (Traced ω) Unit) fun more _ => more = events :=
  fun _ _ consistent => ⟨events, .same consistent rfl rfl rfl, fun _ _ => rfl⟩

theorem number : Tells (Eval.number : Eval (Traced ω) Nat) fun more _ => more = [] :=
  fun _ _ consistent => ⟨[], .same consistent (append_nil _).symm rfl rfl, fun _ _ => rfl⟩

theorem keeping {y : Eval ω α} (globals : ∀ store choices, (y store choices).2.1.globals = store.globals)
    (arrays : ∀ store choices, (y store choices).2.1.arrays = store.arrays) : Tells y.keeping fun _ _ => True :=
  fun store choices consistent =>
    ⟨[], .same consistent (append_nil _).symm (globals (store.seen Prod.fst) choices)
      (arrays (store.seen Prod.fst) choices), fun _ _ => trivial⟩

theorem getGlobal (index : Nat) : Tells (Eval.getGlobal index : Eval (Traced ω) Value) fun _ _ => True := by
  intro store choices consistent
  refine ⟨[], ?_, fun _ _ => trivial⟩
  unfold Eval.getGlobal
  cases store.globals[index]? <;> exact .same consistent (append_nil _).symm rfl rfl

theorem onArrays {f : ArrayHeap → Except Fault α × ArrayHeap}
    (changes : ∀ h, h.Consistent → (f h).2.Consistent ∧
      ∀ handle array, (f h).2.array? handle = .ok array → h.array? handle = .ok array) :
    Tells (Eval.onArrays f : Eval (Traced ω) α) fun _ _ => True := by
  intro store choices consistent
  refine ⟨[], ?_, fun _ _ => trivial⟩
  obtain ⟨consistent', kept⟩ := changes _ consistent
  unfold Eval.onArrays
  generalize f store.arrays = result at consistent' kept ⊢
  rcases result with ⟨fault | a, arrays⟩ <;>
    exact ⟨(append_nil _).symm, consistent', fun _ => .inl rfl, fun handle array found => .inl (kept _ _ found)⟩

theorem readElement (array index : Value) :
    Tells (Evaluation.readElement array index : Eval (Traced ω) Value) fun _ _ => True := by
  apply onArrays
  intro h consistent
  rw [get_snd]
  exact ⟨consistent, fun _ _ => id⟩

theorem destroyArray (array : Value) :
    Tells (Evaluation.destroyArray array : Eval (Traced ω) Unit) fun _ _ => True := by
  apply onArrays
  intro h consistent
  refine ⟨consistent.destroy_snd _, fun handle elements found => ?_⟩
  rcases used : h.destroy array.handle with ⟨fault | _, h'⟩
  · rw [used] at found
    exact destroy_error used ▸ found
  · rw [used] at found
    by_cases null : array.handle = 0
    · rw [null] at used
      cases used
      exact found
    · have destroys := destroys_of_destroy null used
      by_cases same : handle = array.handle
      · rw [same, destroys.stale] at found
        cases found
      · rwa [destroys.others handle same] at found

theorem storeElement (array index v : Value) :
    Tells (Evaluation.storeElement array index v : Eval (Traced ω) Unit) fun _ _ => True := by
  intro store choices consistent
  rcases storeElement_eq array index v store choices with ⟨reason, ends⟩ | ⟨arrays, writes, ends⟩
  · rw [ends]
    exact ⟨[], .same consistent (append_nil _).symm rfl rfl, fun _ _ => trivial⟩
  · rw [ends]
    refine ⟨[.element array.handle], ⟨rfl, writes.consistent consistent, fun _ => .inl rfl, ?_⟩, fun _ _ => trivial⟩
    intro handle elements found
    by_cases same : handle = array.handle
    · exact .inr (.inr (same ▸ mem_cons_self))
    · exact .inl ((writes.others handle same).symm.trans found)

theorem newArray (length : Nat) : Tells (Evaluation.newArray length : Eval (Traced ω) Value) fun _ _ => True := by
  intro store choices consistent
  rcases newArray_eq length consistent choices with ⟨reason, arrays, fails, ends⟩ | ⟨array, arrays, creates, ends⟩
  · rw [ends]
    exact ⟨[], ⟨(append_nil _).symm, fails.consistent consistent, fun _ => .inl rfl,
      fun handle _ found => .inl ((fails.arrays handle).symm.trans found)⟩, fun _ _ => trivial⟩
  · rw [ends]
    refine ⟨[.created array.handle], ⟨rfl, creates.consistent, fun _ => .inl rfl, ?_⟩, fun _ _ => trivial⟩
    intro handle elements found
    by_cases same : handle = array.handle
    · exact .inr (.inl (same ▸ mem_cons_self))
    · exact .inl ((creates.others handle same).symm.trans found)

theorem storeGlobal (index : Nat) (ty : Ty) (v : Value) :
    Tells (Evaluation.storeGlobal index ty v : Eval (Traced ω) Unit) fun _ _ => True := by
  intro store choices consistent
  refine ⟨[.global index ty], ⟨rfl, consistent, fun i => ?_, fun _ _ => .inl⟩, fun _ _ => trivial⟩
  by_cases same : i = index
  · exact .inr ⟨ty, same ▸ mem_cons_self⟩
  · exact .inl (Array.getElem?_setIfInBounds_ne (Ne.symm same))

theorem stepwise : Stepwise fun α (x _ : Eval (Traced ω) α) => Tells x fun _ _ => True where
  pure _ := .pure trivial
  stop := .stop
  bind first second := .bind first fun a _ _ => second a
  getGlobal := .getGlobal
  readElement := .readElement

end Tells

/-- Locals that differ from others only where the trace tells that the call with a number has stored to them. -/
def Locals.ToldIn (call : Nat) (locals : Locals) (more : List Event) (locals' : Locals) : Prop :=
  ∀ x, locals' x = locals x ∨ ∃ ty, .own call x ty ∈ more

namespace Locals.ToldIn

variable {call : Nat} {locals locals' locals'' : Locals} {more more' : List Event}

theorem refl : ToldIn call locals more locals :=
  fun _ => .inl rfl

theorem set {name : String} (ty : Ty) (v : Value) (told : .own call name ty ∈ more) :
    ToldIn call locals more (locals.set name v) := by
  intro x
  by_cases same : x = name
  · exact .inr ⟨ty, same ▸ told⟩
  · exact .inl (locals.set_of_ne v same)

theorem trans (first : ToldIn call locals more locals') (second : ToldIn call locals' more' locals'') :
    ToldIn call locals (more ++ more') locals'' := by
  intro x
  rcases second x with same | ⟨ty, told⟩
  · rcases first x with same' | ⟨ty, told⟩
    · exact .inl (same.trans same')
    · exact .inr ⟨ty, mem_append_left _ told⟩
  · exact .inr ⟨ty, mem_append_right _ told⟩

end Locals.ToldIn

/-- A meaning that takes nothing from outside but what tells all that it changes. -/
abbrev Meaning.Tells (m : Meaning (Traced ω)) : Prop :=
  m.Related (fun _ x _ => Evaluation.Tells x fun _ _ => True) m

namespace Meaning.Tells

variable {m : Meaning (Traced ω)} {decl : FunctionDecl} {call : Nat} (tells : m.Tells)
include tells

theorem traceFill (locals : Locals) (array : Value) (i : Nat) (items : List Expr) :
    Evaluation.Tells (m.traceFill locals array i items) fun _ _ => True := by
  induction items generalizing i with
  | nil => exact .pure trivial
  | cons item items ih =>
    exact .bind (tells.value Tells.stepwise locals item) fun v _ _ =>
      .bind (.storeElement array _ v) fun _ _ _ => ih (i + 1)

theorem traceDeclare (locals : Locals) (var : VarDecl) :
    Evaluation.Tells (m.traceDeclare decl call locals var) (locals.ToldIn call) := by
  unfold Meaning.traceDeclare
  split
  · refine .bind (.newArray _) fun array _ _ => .bind (tells.traceFill locals array 0 var.items) fun _ _ _ =>
      .bind (.tell _) fun _ _ _ => .bind (.tell _) fun _ told same => .pure (.set var.ty array ?_)
    simp [same]
  cases var.init with
  | none => exact .pure .refl
  | some init =>
    refine .bind (tells.value Tells.stepwise locals init) fun v _ _ => .bind (.tell _) fun _ told same =>
      .pure (.set var.ty v ?_)
    simp [same]

theorem traceName (locals : Locals) (name : String) (value : Expr) :
    Evaluation.Tells (m.traceName call locals name value) (locals.ToldIn call) := by
  apply (tells.value Tells.stepwise locals value).bind
  intro v _ _
  cases m.local? name with
  | some ty =>
    refine .bind (.tell _) fun _ told same => .pure (.set ty v ?_)
    simp [same]
  | none =>
    cases m.global? name with
    | some entry => exact .bind (.storeGlobal _ _ v) fun _ _ _ => .pure .refl
    | none => exact .stop _

theorem traceAssign (locals : Locals) (target value : Expr) :
    Evaluation.Tells (m.traceAssign call locals target value) (locals.ToldIn call) := by
  unfold Meaning.traceAssign
  cases target.peel with
  | name id _ => exact tells.traceName locals id value
  | index array position _ =>
    have stores : Evaluation.Tells (m.traceElement locals array position value) fun _ _ => True :=
      .bind (tells.value Tells.stepwise locals array) fun a _ _ =>
        .bind (tells.value Tells.stepwise locals position) fun i _ _ =>
          .bind (tells.value Tells.stepwise locals value) fun v _ _ => .storeElement a i v
    exact stores.bind fun _ _ _ => .pure .refl
  | _ => exact .pure .refl

set_option linter.unusedSectionVars false in
mutual

theorem stmt (locals : Locals) : (stmt : Stmt) →
    Evaluation.Tells ((m.tracing decl call).stmt locals stmt) fun more result => locals.ToldIn call more result.1
  | .var var => .bind (tells.traceDeclare locals var) fun _ more told => .pure (by rwa [append_nil])
  | .assign target value _ => .bind (tells.traceAssign locals target value) fun _ more told =>
    .pure (by rwa [append_nil])
  | .ret none _ => .pure .refl
  | .ret (some e) _ => .bind (tells.value Tells.stepwise locals e) fun _ _ _ => .pure .refl
  | .expr e _ => .bind (tells.eval Tells.stepwise locals e) fun _ _ _ => .pure .refl
  | .branch chain => conditional locals chain
  | .block (.mk list _) => stmts locals list

theorem stmts (locals : Locals) : (list : List Stmt) →
    Evaluation.Tells ((m.tracing decl call).stmts locals list) fun more result => locals.ToldIn call more result.1
  | [] => .pure .refl
  | first :: rest => .bind (stmt locals first) fun
    | (locals', .next), _, told => (stmts locals' rest).mono fun _ _ told' => told.trans told'
    | (_, .ret _), more, told => .pure (by rwa [append_nil])

theorem conditional (locals : Locals) : (chain : Conditional) →
    Evaluation.Tells ((m.tracing decl call).conditional locals chain) fun more result =>
      locals.ToldIn call more result.1
  | .mk cond (.mk list _) rest _ => .bind (tells.condition Tells.stepwise locals cond) fun
    | true, _, _ => (stmts locals list).mono fun _ _ told => Locals.ToldIn.trans .refl told
    | false, _, _ => (otherwise locals rest).mono fun _ _ told => Locals.ToldIn.trans .refl told

theorem otherwise (locals : Locals) : (rest : Otherwise) →
    Evaluation.Tells ((m.tracing decl call).otherwise locals rest) fun more result => locals.ToldIn call more result.1
  | .absent => .pure .refl
  | .elif chain => conditional locals chain
  | .orElse (.mk list _) => stmts locals list

end

end Meaning.Tells

namespace Linked

variable {u : Linked ω}

/-- What a program needs from outside leaves its globals and its arrays alone. -/
structure Quiet (u : Linked ω) : Prop where
  unassigned : ∀ ty store choices, (u.unassigned ty store choices).2.1.globals = store.globals ∧
    (u.unassigned ty store choices).2.1.arrays = store.arrays
  native : ∀ i args store choices, (u.native i args store choices).2.1.globals = store.globals ∧
    (u.native i args store choices).2.1.arrays = store.arrays

/-- The trace is one of the evaluation of the program, and tells all that changes. -/
structure Faithful (u : Linked ω) : Prop where
  forgets : ∀ room, Erases Prod.fst (u.traceRun room) (u.run room)
  run : ∀ room, Tells (u.traceRun room) fun _ _ => True
  locals : ∀ room decl body call (locals : Locals), Tells
    (((u.traced.meaning (u.traceInvoke room) (localTypes decl.params body)).tracing decl call).stmts locals body.stmts)
    fun more result => locals.ToldIn call more result.1

namespace Quiet

variable (quiet : u.Quiet)
include quiet

variable {invoke : Nat → List Value → Eval (Traced ω) Value}

theorem tells_meaning
    (tells : ∀ i args, Tells (invoke i args) fun _ _ => True) (locals : List (String × Ty)) :
    (u.traced.meaning invoke locals).Tells :=
  ⟨rfl, rfl, rfl, rfl, rfl, rfl, fun ty => .keeping (fun store choices => (quiet.unassigned ty store choices).1)
    fun store choices => (quiet.unassigned ty store choices).2, fun _ i _ args _ _ => tells i args⟩

theorem tells_traceBody
    (tells : ∀ i args, Tells (invoke i args) fun _ _ => True) (decl : FunctionDecl) (body : Block)
    (args : List Value) : Tells (u.traced.traceBody invoke decl body args) fun _ _ => True := by
  have start : Tells (u.traced.startBody invoke decl body args) fun _ _ => True := by
    apply Tells.number.bind
    intro call _ _
    apply (Tells.tell _).bind
    intro _ _ _
    exact ((quiet.tells_meaning tells _).stmts _ body.stmts).mono fun _ _ _ => trivial
  exact start.bind fun (locals, flow) _ _ => Tells.stepwise.endBody .destroyArray decl body locals flow

/-- A call tells all that it changes, by recursion on the room for calls inside it. -/
theorem tells_traceInvoke (room i : Nat) (args : List Value) : Tells (u.traceInvoke room i args) fun _ _ => True := by
  apply u.traced.invokeWith_induct (v := u) (g := u.runBody) (P := fun _ _ _ x _ => Tells x fun _ _ => True) rfl
  · intro room i args reason _
    exact .stop reason
  · intro room i args decl found linked
    exact .keeping (fun store choices => (quiet.native i args store choices).1) fun store choices =>
      (quiet.native i args store choices).2
  · intro room tells i args decl body found has own
    exact quiet.tells_traceBody tells decl body args

theorem faithful : u.Faithful where
  forgets := u.forgets_traceRun
  run room := (Tells.tell _).bind fun _ _ _ => u.traced.runWith_cases (v := u) (g := u.runBody) (n := room)
    (P := fun x _ => Tells x fun _ _ => True) rfl (.stop _) fun i _ _ _ => quiet.tells_traceInvoke room i []
  locals room _ body _ locals := (quiet.tells_meaning (quiet.tells_traceInvoke room) _).stmts locals body.stmts

end Quiet

end Linked

end RegisterLang.Evaluation
