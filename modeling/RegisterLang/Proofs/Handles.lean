import RegisterLang.Proofs.Finding
import RegisterLang.Proofs.Typing

/-! # Handles of arrays

Where nothing but arrays gets into the places for arrays, and no function returns an array that it destroys, every
value of an array type names an array that is there. It is null only where the declaration of an array was passed
over, and no call ever gets hold of an array that is a constant and that its function does not expose. Main statements:
`Linked.ArraysApart.harmless_run`, no run uses an array that is not there, and `Linked.ArraysApart.intact_traceRun`,
none stores to an element of a constant array that is not exposed once the array has been filled.
-/

namespace RegisterLang.Evaluation

open List

variable {decl : FunctionDecl} {body : Block} {ω : Type} {nullable : Prop}
  {args : List Value} {params : List Param} {ty : Ty}

/-! ## Arrays that a function uses -/

theorem isArray_of_accepts {value : Ty} {literal : Bool} (array : ty.isArray = true)
    (noText : ty.isConstString = false) (noAny : value.primitive ≠ .any)
    (accepted : ty.accepts value literal = true) : value.isArray = true := by
  simp only [Ty.accepts, Ty.agrees, Ty.isAny, Ty.isInteger, Ty.isScalar, array, noText, noAny,
    Bool.not_true, Bool.and_false, Bool.false_and, Bool.or_false, Bool.false_or, decide_false,
    Bool.and_eq_true, decide_eq_true_eq] at accepted
  exact accepted.1.2.symm

variable {i : Nat}

namespace Meaning

variable (nullable) in
/-- Elements may be stored through the arguments for parameters that are arrays. -/
def Passed (v : View) (params : List Param) (args : List Value) : Prop :=
  List.Forall₂ (fun param a => param.ty.isArray = true → v.Clear nullable a.handle) params args

/-- A handle that was passed for some parameter that is an array. -/
def Among (params : List Param) (args : List Value) (handle : UInt32) : Prop :=
  ∃ param a, (param, a) ∈ params.zip args ∧ param.ty.isArray = true ∧ a.handle = handle

/-- A handle that elements may be stored through behind a call, and that was passed to it or is new. -/
def Returned (nullable : Prop) (v : View) (params : List Param) (args : List Value) (a : Value) (v' : View) : Prop :=
  v'.Clear nullable a.handle ∧ (¬ v.heap.Live a.handle ∨ Among params args a.handle)

variable {a : Value}

theorem Returned.later {v v1 v' : View} {params : List Param} {args : List Value}
    (returned : Returned nullable v params args a v1) (later : v1.Later v') : Returned nullable v params args a v' :=
  ⟨returned.1.later later, returned.2⟩

/-- What a function can refer to keeps arrays apart from other values. -/
structure ArraysApart (m : Meaning (Traced ω)) (nullable : Prop) : Prop where
  own : ∀ x ty, m.local? x = some ty → ty.primitive ≠ .any
  global : ∀ x i ty, m.global? x = some (i, ty) → ty.isArray = false ∧ ty.primitive ≠ .any
  const : ∀ x c, m.const? x = some c → c.ty.isArray = false ∧ c.ty.primitive ≠ .any
  function : ∀ x i decl, m.function? x = some (i, decl) → decl.ret.primitive ≠ .any ∧ decl.ArraysApart
  unassigned : ∀ ty v, Finds nullable v (m.unassigned ty) fun a _ => ty.isArray = true → a.handle = 0
  invoke : ∀ x i decl args v, m.function? x = some (i, decl) → Passed nullable v decl.params args →
    Finds nullable v (m.invoke i args) fun a v' => decl.ret.isArray = true →
      Returned nullable v decl.params args a v'

/-- What becomes of the arrays of a function: whether some may be null, which are destroyed at its end, which handles
it may return apart from these, and which variables are constants that it does not expose. -/
structure Custody where
  nullable : Prop
  own : List String
  given : UInt32 → Prop
  hidden : String → Prop

/-- A handle that a function may return: it is given, and it is none of the arrays that are destroyed. -/
def Foreign (k : Custody) (locals : Locals) (handle : UInt32) : Prop :=
  k.given handle ∧ ∀ x ∈ k.own, ∀ a, locals x = some a → a.handle ≠ handle

/-- The values of the locals that are arrays can be used, and name no sealed array unless they are hidden. One that was
stored to in the text has a value, unless its declaration may be passed over. The arrays that are destroyed at the end
are there, and the others are different from them. -/
structure Holds (m : Meaning (Traced ω)) (k : Custody) (stored : List String) (locals : Locals) (v : View) : Prop where
  usable : ∀ x ty a, m.local? x = some ty → ty.isArray = true → locals x = some a → v.heap.Usable k.nullable a.handle
  visible : ∀ x ty a, m.local? x = some ty → ty.isArray = true → ¬ k.hidden x → locals x = some a →
    ¬ v.trace.Sealed a.handle
  assigned : ∀ x ∈ stored, ∀ ty, m.local? x = some ty → ty.isArray = true → locals x = none → k.nullable
  arrays : ∀ x ∈ k.own, ∃ ty, m.local? x = some ty ∧ ty.isArray = true
  live : ∀ x ∈ k.own, ∀ a, locals x = some a → v.heap.Live a.handle
  fresh : ∀ handle, ¬ v.heap.Live handle → k.given handle
  foreign : ∀ x ty a, m.local? x = some ty → ty.isArray = true → x ∉ k.own → locals x = some a →
    Foreign k locals a.handle

/-- What an expression of an array type gives can be used. It may be returned unless it stems from an array that is
destroyed, and elements may be stored through it unless it stems from something hidden. -/
def Fits (m : Meaning (Traced ω)) (k : Custody) (locals : Locals) (e : Expr) (a : Value) (v : View) : Prop :=
  (m.describe e).ty.isArray = true →
    v.heap.Usable k.nullable a.handle ∧ ((∀ x ∈ e.roots, x ∉ k.own) → Foreign k locals a.handle) ∧
      ((∀ x ∈ e.roots, ¬ k.hidden x) → ¬ v.trace.Sealed a.handle)

variable {m : Meaning (Traced ω)} {k : Custody} {v v' : View} {stored more : List String} {locals : Locals}
  {handle : UInt32}

theorem Fits.later {e : Expr} (fits : m.Fits k locals e a v) (later : v.Later v') :
    m.Fits k locals e a v' := by
  intro array
  obtain ⟨usable, others, open'⟩ := fits array
  exact ⟨usable.lasts later.lasts, others, fun outside => (View.Clear.later ⟨usable, open' outside⟩ later).2⟩

namespace Holds

variable (holds : m.Holds k stored locals v)
include holds

theorem later (later : v.Later v') : m.Holds k stored locals v' where
  usable x ty a isLocal array here := (holds.usable x ty a isLocal array here).lasts later.lasts
  visible x ty a isLocal array open' here :=
    (View.Clear.later ⟨holds.usable x ty a isLocal array here, holds.visible x ty a isLocal array open' here⟩ later).2
  assigned := holds.assigned
  arrays := holds.arrays
  live x member a here := later.kept _ (holds.live x member a here)
  fresh handle new := holds.fresh handle fun live => new (later.kept handle live)
  foreign := holds.foreign

theorem widen (other : ∀ x ∈ more, ∀ ty, m.local? x = some ty → ty.isArray = true → k.nullable) :
    m.Holds k (stored ++ more) locals v where
  usable := holds.usable
  visible := holds.visible
  assigned x member ty isLocal array missing := by
    rcases mem_append.1 member with member | member
    · exact holds.assigned x member ty isLocal array missing
    · exact other x member ty isLocal array
  arrays := holds.arrays
  live := holds.live
  fresh := holds.fresh
  foreign := holds.foreign

theorem anyhow : m.Holds k [] locals v :=
  { holds with assigned := forall_mem_nil _ }

theorem foreign_of_fresh (new : ¬ v.heap.Live handle) : Foreign k locals handle :=
  ⟨holds.fresh handle new, fun x member a here same => new (same ▸ holds.live x member a here)⟩

variable {name : String}

theorem set
    (usable : ∀ ty, m.local? name = some ty → ty.isArray = true → v.heap.Usable k.nullable a.handle)
    (visible : ∀ ty, m.local? name = some ty → ty.isArray = true → ¬ k.hidden name → ¬ v.trace.Sealed a.handle)
    (live : name ∈ k.own → v.heap.Live a.handle)
    (foreign : ∀ ty, m.local? name = some ty → ty.isArray = true → name ∉ k.own → Foreign k locals a.handle)
    (apart : name ∈ k.own → ∀ x ty b, m.local? x = some ty → ty.isArray = true → x ≠ name → locals x = some b →
      a.handle ≠ b.handle) : m.Holds k (stored ++ [name]) (locals.set name a) v where
  usable x ty b isLocal array here := by
    obtain ⟨rfl, rfl⟩ | ⟨-, here⟩ := Locals.set_eq_some here
    · exact usable ty isLocal array
    · exact holds.usable x ty b isLocal array here
  visible x ty b isLocal array open' here := by
    obtain ⟨rfl, rfl⟩ | ⟨-, here⟩ := Locals.set_eq_some here
    · exact visible ty isLocal array open'
    · exact holds.visible x ty b isLocal array open' here
  assigned x member ty isLocal array missing := by
    obtain ⟨other, missing⟩ := Locals.set_eq_none missing
    rcases mem_append.1 member with member | member
    · exact holds.assigned x member ty isLocal array missing
    · exact absurd (mem_singleton.1 member) other
  arrays := holds.arrays
  live x member b here := by
    obtain ⟨rfl, rfl⟩ | ⟨-, here⟩ := Locals.set_eq_some here
    · exact live member
    · exact holds.live x member b here
  fresh := holds.fresh
  foreign x ty b isLocal array outside here := by
    obtain ⟨rfl, rfl⟩ | ⟨other, there⟩ := Locals.set_eq_some here
    · obtain ⟨known, apart⟩ := foreign ty isLocal array outside
      refine ⟨known, fun y member c stored => ?_⟩
      obtain ⟨rfl, -⟩ | ⟨-, stored⟩ := Locals.set_eq_some stored
      · exact absurd member outside
      · exact apart y member c stored
    · obtain ⟨known, others⟩ := holds.foreign x ty b isLocal array outside there
      refine ⟨known, fun y member c stored => ?_⟩
      obtain ⟨rfl, rfl⟩ | ⟨-, stored⟩ := Locals.set_eq_some stored
      · exact apart member x ty b isLocal array other there
      · exact others y member c stored

theorem set_scalar (a : Value) (scalar : ∀ ty, m.local? name = some ty → ty.isArray = false) :
    m.Holds k (stored ++ [name]) (locals.set name a) v := by
  have none : ∀ {p : Prop} ty, m.local? name = some ty → ty.isArray = true → p := fun ty isLocal array =>
    absurd array (ne_true_of_eq_false (scalar ty isLocal))
  have outside : name ∉ k.own := by
    intro member
    obtain ⟨ty, isLocal, array⟩ := holds.arrays name member
    exact none ty isLocal array
  exact holds.set none none (fun member => absurd member outside) none fun member => absurd member outside

theorem set_new (later : v.Later v') (live : v'.heap.Live a.handle)
    (new : ¬ v.heap.Live a.handle) (visible : ¬ k.hidden name → ¬ v'.trace.Sealed a.handle) :
    m.Holds k (stored ++ [name]) (locals.set name a) v' := by
  refine (holds.later later).set (fun _ _ _ => .inl live) (fun _ _ _ => visible) (fun _ => live)
    (fun _ _ _ _ => holds.foreign_of_fresh new) ?_
  intro _ x ty b isLocal array _ here same
  rcases holds.usable x ty b isLocal array here with there | ⟨-, null⟩
  · exact new (same ▸ there)
  · exact ArrayHeap.not_live_zero (null ▸ same ▸ live)

end Holds

/-- Behind statements the locals hold what can be used, and a function that returns an array returns one that elements
may be stored through and that is not its own. -/
def Goes (m : Meaning (Traced ω)) (k : Custody) (ret : Ty) (stored : List String) : Locals × Flow → View → Prop
  | (locals, .next), v => m.Holds k stored locals v
  | (locals, .ret a), v => m.Holds k [] locals v ∧
    (ret.isArray = true → v.Clear k.nullable a.handle ∧ Foreign k locals a.handle)

variable {result : Locals × Flow}

theorem Goes.widen {ret : Ty} (goes : m.Goes k ret stored result v)
    (other : ∀ x ∈ more, ∀ ty, m.local? x = some ty → ty.isArray = true → k.nullable) :
    m.Goes k ret (stored ++ more) result v := by
  obtain ⟨locals, flow⟩ := result
  cases flow with
  | next => exact Holds.widen goes other
  | ret a => exact goes

theorem Goes.holds {ret : Ty} (goes : m.Goes k ret stored result v) : m.Holds k [] result.1 v := by
  obtain ⟨locals, flow⟩ := result
  cases flow with
  | next => exact Holds.anyhow goes
  | ret a => exact goes.1

namespace ArraysApart

section

variable (apart : m.ArraysApart nullable)
include apart

theorem describeName_ne_any (x : String) : (m.describeName x).ty.primitive ≠ .any := by
  unfold describeName
  cases isLocal : m.local? x with
  | some ty => exact apart.own x ty isLocal
  | none =>
    cases isGlobal : m.global? x with
    | some entry => exact (apart.global x entry.1 entry.2 isGlobal).2
    | none =>
      cases isConst : m.const? x with
      | some c => exact (apart.const x c isConst).2
      | none => exact Primitive.noConfusion

omit apart in
theorem commonType?_ne_any {l r : Described} (left : l.ty.primitive ≠ .any)
    (right : r.ty.primitive ≠ .any) (common : commonType? l r = some ty) :
    ty.primitive ≠ .any ∧ ty.isArray = false := by
  unfold commonType? at common
  simp only [left, right, decide_false, Bool.or_self, Bool.false_eq_true, if_false] at common
  split at common
  · cases common
    exact ⟨left, rfl⟩
  split at common
  · cases common
    exact ⟨right, rfl⟩
  split at common
  · cases common
    exact ⟨left, rfl⟩
  · cases common

theorem describe_ne_any : (e : Expr) → (m.describe e).ty.primitive ≠ .any
  | .int _ _ | .float _ _ | .str _ _ | .list _ _ | .dot _ _ _ => Primitive.noConfusion
  | .name id _ => apart.describeName_ne_any id
  | .group inner _ => describe_ne_any inner
  | .index array _ _ => describe_ne_any array
  | .call callee _ _ => by
    rw [describe]
    cases found : m.function? callee.name with
    | some entry => exact (apart.function _ entry.1 entry.2 found).1
    | none => exact Primitive.noConfusion
  | .binary op l r _ => by
    rw [describe]
    split
    · exact Primitive.noConfusion
    · cases common : commonType? (m.describe l) (m.describe r) with
      | some ty => exact (commonType?_ne_any (describe_ne_any l) (describe_ne_any r) common).1
      | none => exact Primitive.noConfusion
  | .unary _ operand _ => by
    rw [describe]
    split
    · exact Primitive.noConfusion
    · exact Primitive.noConfusion
    · exact describe_ne_any operand

end

/-! ## Expressions -/

theorem isArray_binary (op : BinOp) (l r : Expr) (span : Span) :
    (m.describe (.binary op l r span)).ty.isArray = false := by
  rw [describe]
  split
  · rfl
  · unfold commonType?
    repeat' split
    all_goals rfl

theorem isArray_unary (op : UnaryOp) (operand : Expr) (span : Span) :
    (m.describe (.unary op operand span)).ty.isArray = false := by
  rw [describe]
  split <;> rfl

variable (apart : m.ArraysApart k.nullable)
include apart

theorem finds_readName (x : String) (span : Span) (holds : m.Holds k stored locals v)
    (ordered : AllStored m.owns stored [x]) :
    Finds k.nullable v (m.readName locals x) (m.Fits k locals (.name x span)) := by
  unfold readName Fits
  rw [describe, describeName]
  cases isLocal : m.local? x with
  | some ty =>
    have before : x ∈ stored := ordered x mem_cons_self (by rw [owns, isLocal]; rfl)
    unfold readLocal
    cases here : locals x with
    | some a =>
      refine .pure fun v' later array => ?_
      have holds := holds.later later
      exact ⟨holds.usable x ty a isLocal array here,
        fun outside => holds.foreign x ty a isLocal array (outside x mem_cons_self) here,
        fun outside => holds.visible x ty a isLocal array (outside x mem_cons_self) here⟩
    | none =>
      refine (apart.unassigned ty v).mono fun a v' later null array => ?_
      rw [null array]
      exact ⟨.inr ⟨holds.assigned x before ty isLocal array here, rfl⟩,
        fun _ => holds.foreign_of_fresh ArrayHeap.not_live_zero, fun _ => later.not_sealed_zero⟩
  | none =>
    cases isGlobal : m.global? x with
    | some entry =>
      have scalar := (apart.global x entry.1 entry.2 isGlobal).1
      exact (Finds.getGlobal entry.1).mono fun _ _ _ _ array => absurd array (ne_true_of_eq_false scalar)
    | none =>
      cases isConst : m.const? x with
      | some c =>
        have scalar := (apart.const x c isConst).1
        exact .pure fun _ _ array => absurd array (ne_true_of_eq_false scalar)
      | none => exact .stop Stop.harmless_stuck

variable {as : List Value}

/-- Values of accepted arguments may be passed for the parameters, unless they stem from something hidden. -/
theorem passed_of_accepted {args : List Expr}
    (text : ∀ param ∈ params, param.ty.isArray = true → param.ty.isConstString = false)
    (accepted : List.Forall₂ (fun param arg => m.Accepted param.ty arg) params args)
    (fit : List.Forall₂ (fun e a => m.Fits k locals e a v) args as)
    (outside : ∀ x ∈ Expr.listRoots args, ¬ k.hidden x) : Passed k.nullable v params as := by
  induction accepted generalizing as with
  | nil =>
    cases fit
    exact .nil
  | @cons param arg params args first _ ih =>
    rw [Expr.listRoots, forall_mem_append] at outside
    cases fit with
    | cons fits fit =>
      refine .cons (fun array => ?_) (ih (fun other member => text other (.tail _ member)) fit outside.2)
      obtain ⟨usable, -, open'⟩ :=
        fits (isArray_of_accepts array (text param (.head _) array) (apart.describe_ne_any arg) first)
      exact ⟨usable, open' outside.1⟩

/-- What was passed to a call may be returned unless it stems from an array that is destroyed. -/
theorem foreign_of_among {args : List Expr}
    (text : ∀ param ∈ params, param.ty.isArray = true → param.ty.isConstString = false)
    (accepted : List.Forall₂ (fun param arg => m.Accepted param.ty arg) params args)
    (fit : List.Forall₂ (fun e a => m.Fits k locals e a v) args as)
    (outside : ∀ x ∈ Expr.listRoots args, x ∉ k.own) (among : Among params as handle) : Foreign k locals handle := by
  obtain ⟨param, a, member, array, rfl⟩ := among
  induction accepted generalizing as with
  | nil => cases member
  | @cons first arg params args accepted _ ih =>
    rw [Expr.listRoots, forall_mem_append] at outside
    cases fit with
    | cons fits fit =>
      rcases mem_cons.1 member with same | member
      · cases same
        refine (fits ?_).2.1 outside.1
        exact isArray_of_accepts array (text _ (.head _) array) (apart.describe_ne_any arg) accepted
      · exact ih (fun other listed => text other (.tail _ listed)) fit outside.2 member

theorem finds_call {callee : String} (found : m.function? callee = some (i, decl))
    (passed : Passed k.nullable v decl.params as) :
    Finds k.nullable v (m.call callee as) fun x v' => ∀ a, x = .value a → decl.ret.isArray = true →
      Returned k.nullable v decl.params as a v' := by
  unfold call
  rw [found]
  dsimp only
  split
  · refine .bind (apart.invoke callee i decl as v found passed) fun a v' _ returned => .pure ?_
    intro v'' later a' same array
    split at same
    · cases same
    · cases same
      exact (returned array).later later
  · exact .stop Stop.harmless_stuck

set_option linter.unusedSectionVars false in
mutual

/-- Evaluating finds each array that it reads, and gives a value that can be used. -/
theorem finds_eval : (e : Expr) → m.Typed e → AllStored m.owns stored e.names → (∀ x ∈ e.exposed, ¬ k.hidden x) →
    ∀ {v}, m.Holds k stored locals v →
      Finds k.nullable v (m.eval locals e) fun x v' => ∀ a, x = .value a → m.Fits k locals e a v'
  | .int _ _, _, _, _, _, _ | .float _ _, _, _, _, _, _ | .str _ _, _, _, _, _, _ =>
    .pure fun _ _ _ _ array => nomatch array
  | .name id span, _, ordered, _, _, holds =>
    .bind (apart.finds_readName id span holds ordered) fun a v' _ fits => .pure fun v'' later a' same => by
      cases same
      exact fits.later later
  | .group inner _, typed, ordered, outside, _, holds => finds_eval inner typed ordered outside holds
  | .call callee args span, typed, ordered, outside, _, holds => by
    obtain ⟨⟨i, decl, found, accepted⟩, typed⟩ := typed
    rw [Expr.exposed, forall_mem_append] at outside
    have text := (apart.function callee.name i decl found).2.text
    have text : ∀ param ∈ decl.params, param.ty.isArray = true → param.ty.isConstString = false :=
      fun param member => text _ (.tail _ (mem_map_of_mem member))
    refine .bind (finds_evalArgs args typed ordered outside.2 holds) fun as v' later fit => ?_
    have holds := holds.later later
    refine (apart.finds_call found (apart.passed_of_accepted text accepted fit outside.1)).mono
      fun x v'' _ returned a same array => ?_
    rw [describe, found] at array
    obtain ⟨clear, origin⟩ := returned a same array
    refine ⟨clear.1, fun outside => ?_, fun _ => clear.2⟩
    -- What the callee has destroyed does not matter: it returns something new or one of its arguments.
    rcases origin with new | among
    · exact holds.foreign_of_fresh new
    · exact apart.foreign_of_among text accepted fit outside among
  | .binary op l r span, typed, ordered, outside, _, holds => by
    rw [AllStored, Expr.names, forall_mem_append] at ordered
    rw [Expr.exposed, forall_mem_append] at outside
    refine .bind (finds_eval l typed.1 ordered.1 outside.1 holds) fun x v1 later1 _ =>
      .bind (.get x) fun a v2 later2 _ => .bind (finds_eval r typed.2 ordered.2 outside.2
        (holds.later (later1.trans later2))) fun y v3 _ _ => .bind (.get y) fun b v4 _ _ => ?_
    split
    · refine (Finds.applyBinary op _ a b).mono fun _ _ _ _ c _ array => ?_
      rw [isArray_binary] at array
      cases array
    · exact .stop Stop.harmless_stuck
  | .unary .neg operand span, typed, ordered, outside, _, holds => by
    refine .bind (finds_eval operand typed ordered outside holds) fun x v1 _ _ => .bind (.get x) fun a v2 _ _ =>
      .pure fun v' _ c _ array => ?_
    rw [isArray_unary] at array
    cases array
  | .unary .not _ _, _, _, _, _, _ => .stop Stop.harmless_stuck
  | .index array position span, typed, ordered, outside, _, holds => by
    rw [AllStored, Expr.names, forall_mem_append] at ordered
    rw [Expr.exposed, forall_mem_append] at outside
    refine .bind (finds_eval array typed.2.1 ordered.1 outside.1 holds) fun x v1 later1 fits =>
      .bind (.get x) fun a v2 later2 same => .bind (finds_eval position typed.2.2 ordered.2 outside.2
        (holds.later (later1.trans later2))) fun y v3 later3 _ => .bind (.get y) fun i v4 later4 _ => ?_
    have usable := (fits a same typed.1).1.lasts (later2.trans (later3.trans later4)).lasts
    exact .bind (.readElement i usable) fun b v5 _ _ => .pure fun _ _ _ _ array => nomatch array
  | .list _ _, _, _, _, _, _ | .dot _ _ _, _, _, _, _, _ => .stop Stop.harmless_stuck

/-- Evaluating arguments, the last one first, gives values that can be used. -/
theorem finds_evalArgs : (es : List Expr) → m.ListTyped es → AllStored m.owns stored (Expr.listNames es) →
    (∀ x ∈ Expr.listExposed es, ¬ k.hidden x) → ∀ {v}, m.Holds k stored locals v →
      Finds k.nullable v (m.evalArgs locals es) fun as v' =>
        List.Forall₂ (fun e a => m.Fits k locals e a v') es as
  | [], _, _, _, _, _ => .pure fun _ _ => .nil
  | e :: es, typed, ordered, outside, _, holds => by
    rw [AllStored, Expr.listNames, forall_mem_append] at ordered
    rw [Expr.listExposed, forall_mem_append] at outside
    refine .bind (finds_evalArgs es typed.2 ordered.2 outside.2 holds) fun as v1 later1 fit =>
      .bind (finds_eval e typed.1 ordered.1 outside.1 (holds.later later1)) fun x v2 later2 fits =>
      .bind (.get x) fun a v3 later3 same => .pure fun v4 later4 => ?_
    refine .cons ((fits a same).later (later3.trans later4)) ?_
    exact fit.imp fun _ _ fits => fits.later (later2.trans (later3.trans later4))

end

/-! ## Statements -/

theorem finds_value (e : Expr) (typed : m.Typed e) (ordered : AllStored m.owns stored e.names)
    (outside : ∀ x ∈ e.exposed, ¬ k.hidden x) (holds : m.Holds k stored locals v) :
    Finds k.nullable v (m.value locals e) (m.Fits k locals e) :=
  .bind (finds_eval apart e typed ordered outside holds) fun x _ _ fits => (Finds.get x).mono fun a _ later same =>
    (fits a same).later later

theorem finds_traceFill {array : Value} (items : List Expr) (typed : m.ListTyped items)
    (ordered : AllStored m.owns stored (Expr.listNames items)) (outside : ∀ x ∈ Expr.listExposed items, ¬ k.hidden x)
    (holds : m.Holds k stored locals v) (clear : v.Clear k.nullable array.handle) (i : Nat) :
    Finds k.nullable v (m.traceFill locals array i items) fun _ _ => True := by
  induction items generalizing i v with
  | nil => exact .pure fun _ _ => trivial
  | cons item items ih =>
    rw [AllStored, Expr.listNames, forall_mem_append] at ordered
    rw [Expr.listExposed, forall_mem_append] at outside
    refine .bind (apart.finds_value item typed.1 ordered.1 outside.1 holds) fun a v1 later1 _ =>
      .bind (.storeElement _ a (clear.later later1)) fun _ v2 later2 _ => ?_
    have later := later1.trans later2
    exact ih typed.2 ordered.2 outside.2 (holds.later later) (clear.later later) (i + 1)

theorem finds_newList (var : VarDecl) (typed : m.ListTyped var.items)
    (ordered : AllStored m.owns stored (Expr.listNames var.items))
    (outside : ∀ x ∈ Expr.listExposed var.items, ¬ k.hidden x) (holds : m.Holds k stored locals v) :
    Finds k.nullable v (do
        let array ← newArray var.arrayLength
        m.traceFill locals array 0 var.items
        return array) fun array v' => v'.heap.Live array.handle ∧ ¬ v'.trace.Sealed array.handle ∧
          ¬ v.heap.Live array.handle := by
  refine .bind (.newArray _) fun array v1 later1 ⟨live, open', fresh⟩ => ?_
  have clear : v1.Clear k.nullable array.handle := ⟨.inl live, open'⟩
  refine .bind (apart.finds_traceFill var.items typed ordered outside (holds.later later1) clear 0) fun _ v2 later2 _ =>
    .pure fun v' later => ?_
  have later := later2.trans later
  exact ⟨later.kept _ live, (clear.later later).2, fresh⟩

theorem finds_traceDeclare (call : Nat) (var : VarDecl) (typed : m.VarTyped var)
    (ordered : AllStored m.owns stored var.reads) (outside : ∀ x ∈ var.exposed, ¬ k.hidden x)
    (hides : decl.Secludes var → k.hidden var.name.name) (holds : m.Holds k stored locals v) :
    Finds k.nullable v (m.traceDeclare decl call locals var) (m.Holds k (stored ++ var.stores)) := by
  obtain ⟨kind, typed⟩ := typed
  unfold traceDeclare
  unfold VarDecl.reads at ordered
  unfold VarDecl.exposed at outside
  unfold VarDecl.stores
  by_cases array : var.ty.isArray = true
  · rw [if_pos array] at typed ordered outside ⊢
    rw [array, Bool.true_or]
    have made : Finds k.nullable v
        ((do
          let array ← newArray var.arrayLength
          m.traceFill locals array 0 var.items
          return array) >>= fun array => Eval.tell [.filled decl var array.handle] >>= fun _ => do
            Eval.tell [.own call var.name.name var.ty]
            return locals.set var.name.name array) (m.Holds k (stored ++ [var.name.name])) := by
      refine .bind_filled
        (fun v1 later1 => apart.finds_newList var typed ordered outside (holds.later later1))
        fun array v1 v2 later1 later2 live fresh visible => .bind (.tell (by simp) (by simp)) fun _ v3 later3 _ =>
          .pure fun v' later => ?_
      have later := later3.trans later
      refine ((holds.later later1).set_new later2 live fresh fun open' => ?_).later later
      exact visible fun secludes => open' (hides secludes)
    simp only [bind_assoc, pure_bind] at made
    exact made
  · rw [if_neg array] at typed ordered outside ⊢
    cases init : var.init with
    | none =>
      rw [Bool.eq_false_iff.2 array]
      exact .pure fun v' later => (holds.later later).widen (forall_mem_nil _)
    | some e =>
      rw [init] at ordered outside
      rw [Option.isSome_some, Bool.or_true]
      refine .bind (apart.finds_value e (typed e init) ordered outside holds) fun a v1 later1 _ =>
        .bind (.tell (by simp) (by simp)) fun _ v2 later2 _ => .pure fun v' later => ?_
      refine (holds.later (later1.trans (later2.trans later))).set_scalar a fun ty isLocal => ?_
      rw [isLocal] at kind
      exact (Option.some.inj kind).trans (Bool.eq_false_iff.2 array)

theorem finds_traceAssign (call : Nat) (target value : Expr) (span : Span) (typed : m.AssignTyped target value)
    (ordered : AllStored m.owns stored (target.assignReads value))
    (outside : ∀ x ∈ target.assignExposed value, ¬ k.hidden x) (holds : m.Holds k stored locals v) :
    Finds k.nullable v (m.traceAssign call locals target value)
      (m.Holds k (stored ++ (Stmt.assign target value span).targets)) := by
  unfold traceAssign
  unfold AssignTyped at typed
  unfold Expr.assignReads at ordered
  unfold Expr.assignExposed at outside
  unfold Stmt.targets
  generalize target.peel = peeled at typed ordered outside ⊢
  cases peeled with
  | name id _ =>
    obtain ⟨scalar, typed⟩ := typed
    refine .bind (apart.finds_value value typed ordered outside holds) fun a v1 later1 _ => ?_
    have holds := holds.later later1
    cases isLocal : m.local? id with
    | some ty =>
      exact .bind (.tell (by simp) (by simp)) fun _ v2 later2 _ => .pure fun v' later =>
        (holds.later (later2.trans later)).set_scalar a scalar
    | none =>
      cases m.global? id with
      | none => exact .stop Stop.harmless_stuck
      | some entry =>
        refine .bind (.storeGlobal _ _ a) fun _ v2 later2 _ => .pure fun v' later => ?_
        refine (holds.later (later2.trans later)).widen fun x member ty isLocal' array => ?_
        cases mem_singleton.1 member
        exact absurd array (ne_true_of_eq_false (scalar ty isLocal'))
  | index array position _ =>
    obtain ⟨⟨isArray, typed1, typed2⟩, typed3⟩ := typed
    rw [AllStored, forall_mem_append, forall_mem_append] at ordered
    obtain ⟨⟨ordered1, ordered2⟩, ordered3⟩ := ordered
    simp only [forall_mem_append] at outside
    obtain ⟨⟨⟨roots, outside1⟩, outside2⟩, outside3⟩ := outside
    have stores : Finds k.nullable v (m.traceElement locals array position value) fun _ _ => True := by
      refine .bind (apart.finds_value array typed1 ordered1 outside1 holds) fun a v1 later1 fits =>
        .bind (apart.finds_value position typed2 ordered2 outside2 (holds.later later1)) fun i v2 later2 _ =>
        .bind (apart.finds_value value typed3 ordered3 outside3 (holds.later (later1.trans later2)))
          fun b v3 later3 _ => .storeElement i b ?_
      obtain ⟨usable, -, open'⟩ := fits isArray
      exact View.Clear.later ⟨usable, open' roots⟩ (later2.trans later3)
    exact .bind stores fun _ v1 later1 _ => .pure fun v' later =>
      (holds.later (later1.trans later)).widen (forall_mem_nil _)
  | _ => exact .pure fun v' later => (holds.later later).widen (forall_mem_nil _)

theorem finds_condition (cond : Expr) (typed : m.Typed cond) (ordered : AllStored m.owns stored cond.names)
    (outside : ∀ x ∈ cond.exposed, ¬ k.hidden x) (holds : m.Holds k stored locals v) :
    Finds k.nullable v (m.condition locals cond) fun _ _ => True := by
  refine .bind (finds_eval apart cond typed ordered outside holds) fun x _ _ _ => ?_
  cases x with
  | value _ | comparison _ => exact .pure fun _ _ => trivial
  | nothing => exact .stop Stop.harmless_stuck

omit apart

variable {x : String} {ty ret : Ty} (isLocal : m.local? x = some ty) (array : ty.isArray = true)
include isLocal array

set_option linter.unusedSectionVars false in
mutual

theorem nullable_of_stores : (stmt : Stmt) → m.StmtTyped ret stmt →
    (∀ var ∈ stmt.vars, var.ty.isArray = true → nullable) → x ∈ stmt.stores → nullable
  | .var var, typed, nested, member => by
    change x ∈ var.stores at member
    unfold VarDecl.stores at member
    split at member
    · cases mem_singleton.1 member
      have kind : (m.local? var.name.name).map Ty.isArray = some var.ty.isArray := typed.1
      rw [isLocal] at kind
      exact nested var (.head _) ((Option.some.inj kind).symm.trans array)
    · cases member
  | .assign target value span, typed, _, member => by
    change m.AssignTyped target value at typed
    change x ∈ (Stmt.assign target value span).targets at member
    unfold AssignTyped at typed
    unfold Stmt.targets at member
    generalize target.peel = peeled at typed member
    cases peeled with
    | name id _ =>
      cases mem_singleton.1 member
      exact absurd array (ne_true_of_eq_false (typed.1 ty isLocal))
    | _ => cases member
  | .ret _ _, _, _, member | .expr _ _, _, _, member => nomatch member
  | .branch chain, typed, nested, member => nullable_of_conditionalStores chain typed nested member
  | .block (.mk stmts _), typed, nested, member => nullable_of_listStores stmts typed nested member

theorem nullable_of_listStores : (stmts : List Stmt) → m.StmtsTyped ret stmts →
    (∀ var ∈ Stmt.listVars stmts, var.ty.isArray = true → nullable) → x ∈ Stmt.listStores stmts → nullable
  | stmt :: stmts, typed, nested, member => by
    rw [Stmt.listVars, forall_mem_append] at nested
    rw [Stmt.listStores, mem_append] at member
    rcases member with member | member
    · exact nullable_of_stores stmt typed.1 nested.1 member
    · exact nullable_of_listStores stmts typed.2 nested.2 member

theorem nullable_of_conditionalStores : (chain : Conditional) → m.ConditionalTyped ret chain →
    (∀ var ∈ chain.vars, var.ty.isArray = true → nullable) → x ∈ chain.stores → nullable
  | .mk _ (.mk stmts _) otherwise _, typed, nested, member => by
    rw [Conditional.vars, forall_mem_append] at nested
    rw [Conditional.stores, mem_append] at member
    rcases member with member | member
    · exact nullable_of_listStores stmts typed.2.1 nested.1 member
    · exact nullable_of_otherwiseStores otherwise typed.2.2 nested.2 member

theorem nullable_of_otherwiseStores : (otherwise : Otherwise) → m.OtherwiseTyped ret otherwise →
    (∀ var ∈ otherwise.vars, var.ty.isArray = true → nullable) → x ∈ otherwise.stores → nullable
  | .absent, _, _, member => nomatch member
  | .elif chain, typed, nested, member => nullable_of_conditionalStores chain typed nested member
  | .orElse (.mk stmts _), typed, nested, member => nullable_of_listStores stmts typed nested member

end

omit isLocal array

variable (noText : ret.isArray = true → ret.isConstString = false)
include apart noText

variable {call : Nat}

set_option linter.unusedSectionVars false in
mutual

theorem finds_stmt {stored : List String} {locals : Locals} {v : View} (holds : m.Holds k stored locals v) :
    (stmt : Stmt) → stmt.Ordered m.owns stored → m.StmtTyped ret stmt →
    (∀ var ∈ stmt.branchVars, var.ty.isArray = true → k.nullable) →
    (ret.isArray = true → ∀ x ∈ stmt.returned, x ∉ k.own) → (∀ x ∈ stmt.exposed, ¬ k.hidden x) →
    (∀ var ∈ stmt.vars, decl.Secludes var → k.hidden var.name.name) →
      Finds k.nullable v ((m.tracing decl call).stmt locals stmt) (m.Goes k ret (stored ++ stmt.stores))
  | .var var, ordered, typed, _, _, outside, hides =>
    .bind (apart.finds_traceDeclare call var typed ordered outside (hides var (.head _)) holds) fun _ _ _ holds =>
    .pure fun _ later => Holds.later holds later
  | .assign target value span, ordered, typed, _, _, outside, _ =>
    .bind (apart.finds_traceAssign call target value span typed ordered outside holds) fun _ _ _ holds =>
    .pure fun _ later => Holds.later holds later
  | .ret none _, _, typed, _, _, _, _ => .pure fun _ later => ⟨(holds.later later).anyhow, fun array => by
    have void : ret.isVoid = true := typed
    simp [Ty.isVoid, Ty.isScalar, array] at void⟩
  | .ret (some e) _, ordered, typed, _, foreign, outside, _ => by
    obtain ⟨typed, accepted⟩ := typed
    rw [Stmt.exposed, forall_mem_append] at outside
    refine .bind (apart.finds_value e typed ordered outside.2 holds) fun a v1 later1 fits => .pure fun v2 later =>
      ⟨(holds.later (later1.trans later)).anyhow, fun array => ?_⟩
    obtain ⟨usable, others, open'⟩ :=
      fits (isArray_of_accepts array (noText array) (apart.describe_ne_any e) accepted)
    exact ⟨View.Clear.later ⟨usable, open' outside.1⟩ later, others (foreign array)⟩
  | .branch chain, ordered, typed, nested, foreign, outside, hides =>
    finds_conditional holds chain ordered typed nested foreign outside hides
  | .expr e _, ordered, typed, _, _, outside, _ =>
    .bind (finds_eval apart e typed ordered outside holds) fun _ _ later1 _ =>
    .pure fun _ later => Holds.widen (holds.later (later1.trans later)) (forall_mem_nil _)
  | .block (.mk stmts _), ordered, typed, nested, foreign, outside, hides =>
    finds_stmts holds stmts ordered typed nested foreign outside hides

/-- Statements find their arrays one after the other: what one stores, the next may use. -/
theorem finds_stmts {stored : List String} {locals : Locals} {v : View} (holds : m.Holds k stored locals v) :
    (stmts : List Stmt) → Stmt.ListOrdered m.owns stored stmts → m.StmtsTyped ret stmts →
    (∀ var ∈ Stmt.listBranchVars stmts, var.ty.isArray = true → k.nullable) →
    (ret.isArray = true → ∀ x ∈ Stmt.listReturned stmts, x ∉ k.own) → (∀ x ∈ Stmt.listExposed stmts, ¬ k.hidden x) →
    (∀ var ∈ Stmt.listVars stmts, decl.Secludes var → k.hidden var.name.name) →
      Finds k.nullable v ((m.tracing decl call).stmts locals stmts) (m.Goes k ret (stored ++ Stmt.listStores stmts))
  | [], _, _, _, _, _, _ => .pure fun _ later => Holds.widen (holds.later later) (forall_mem_nil _)
  | stmt :: stmts, ordered, typed, nested, foreign, outside, hides => by
    rw [Stmt.listBranchVars, forall_mem_append] at nested
    rw [Stmt.listExposed, forall_mem_append] at outside
    rw [Stmt.listVars, forall_mem_append] at hides
    simp only [Stmt.listReturned, forall_mem_append] at foreign
    refine .bind (finds_stmt holds stmt ordered.1 typed.1 nested.1 (fun array => (foreign array).1) outside.1
      hides.1) ?_
    rintro ⟨locals', flow⟩ v1 - goes
    cases flow with
    | ret a => exact .pure fun _ later => ⟨goes.1.later later, fun array =>
        ⟨(goes.2 array).1.later later, (goes.2 array).2⟩⟩
    | next =>
      rw [Stmt.listStores, ← append_assoc]
      exact finds_stmts goes stmts ordered.2 typed.2 nested.2 (fun array => (foreign array).2) outside.2 hides.2

/-- One of the blocks is passed over, so what is declared in both may be null. -/
theorem finds_conditional {stored : List String} {locals : Locals} {v : View}
    (holds : m.Holds k stored locals v) :
    (chain : Conditional) → chain.Ordered m.owns stored → m.ConditionalTyped ret chain →
    (∀ var ∈ chain.vars, var.ty.isArray = true → k.nullable) →
    (ret.isArray = true → ∀ x ∈ chain.returned, x ∉ k.own) → (∀ x ∈ chain.exposed, ¬ k.hidden x) →
    (∀ var ∈ chain.vars, decl.Secludes var → k.hidden var.name.name) →
      Finds k.nullable v ((m.tracing decl call).conditional locals chain) (m.Goes k ret (stored ++ chain.stores))
  | .mk cond (.mk stmts _) otherwise _, ordered, typed, nested, foreign, outside, hides => by
    rw [Conditional.vars, forall_mem_append] at nested hides
    rw [Conditional.exposed, forall_mem_append, forall_mem_append] at outside
    rw [Conditional.stores, ← append_assoc]
    simp only [Conditional.returned, forall_mem_append] at foreign
    refine .bind (apart.finds_condition cond typed.1 ordered.1 outside.1.1 holds) fun taken v1 later1 _ => ?_
    have holds := holds.later later1
    cases taken with
    | true =>
      refine (finds_stmts holds stmts ordered.2.1 typed.2.1 (fun var member =>
        nested.1 var (Stmt.mem_listVars_of_mem_listBranchVars stmts member)) (fun array => (foreign array).1)
        outside.1.2 hides.1).mono fun _ _ _ goes => goes.widen ?_
      exact fun x member ty isLocal array =>
        nullable_of_otherwiseStores isLocal array otherwise typed.2.2 nested.2 member
    | false =>
      refine finds_otherwise (holds.widen ?_) otherwise ordered.2.2 typed.2.2 nested.2
        (fun array => (foreign array).2) outside.2 hides.2
      exact fun x member ty isLocal array =>
        nullable_of_listStores isLocal array stmts typed.2.1 nested.1 member

theorem finds_otherwise {stored : List String} {locals : Locals} {v : View} (holds : m.Holds k stored locals v) :
    (otherwise : Otherwise) → otherwise.Ordered m.owns stored → m.OtherwiseTyped ret otherwise →
    (∀ var ∈ otherwise.vars, var.ty.isArray = true → k.nullable) →
    (ret.isArray = true → ∀ x ∈ otherwise.returned, x ∉ k.own) → (∀ x ∈ otherwise.exposed, ¬ k.hidden x) →
    (∀ var ∈ otherwise.vars, decl.Secludes var → k.hidden var.name.name) →
      Finds k.nullable v ((m.tracing decl call).otherwise locals otherwise) (m.Goes k ret (stored ++ otherwise.stores))
  | .absent, _, _, _, _, _, _ => .pure fun _ later => Holds.widen (holds.later later) (forall_mem_nil _)
  | .elif chain, ordered, typed, nested, foreign, outside, hides =>
    finds_conditional holds chain ordered typed nested foreign outside hides
  | .orElse (.mk stmts _), ordered, typed, nested, foreign, outside, hides =>
    finds_stmts holds stmts ordered typed (fun var member =>
      nested var (Stmt.mem_listVars_of_mem_listBranchVars stmts member)) foreign outside hides

end

end ArraysApart

end Meaning

/-! ## Functions -/

theorem exists_param {x : String} {v : Value} (here : bindParams params args x = some v) (more : List (String × Ty)) :
    ∃ param, (param, v) ∈ params.zip args ∧ param.name.name = x ∧
      (params.map (fun param => (param.name.name, param.ty)) ++ more).lookup x = some param.ty := by
  induction params generalizing args with
  | nil => cases here
  | cons param params ih =>
    cases args with
    | nil => cases here
    | cons arg args =>
      rw [bindParams] at here
      rw [map_cons, cons_append, lookup_cons]
      obtain ⟨rfl, rfl⟩ | ⟨other, here⟩ := Locals.set_eq_some here
      · rw [beq_self_eq_true]
        exact ⟨param, mem_cons_self, rfl, rfl⟩
      · rw [beq_eq_false_iff_ne.2 other]
        obtain ⟨other, member, named, found⟩ := ih here
        exact ⟨other, mem_cons_of_mem _ member, named, found⟩

theorem lookup_of_mem {x : String} {entries : List (String × Ty)} (distinct : (entries.map Prod.fst).Nodup)
    (member : (x, ty) ∈ entries) : entries.lookup x = some ty := by
  cases found : entries.lookup x with
  | none => exact absurd (lookup_eq_none_iff.1 found _ member) (by simp)
  | some ty' =>
    obtain ⟨before, after, same, -⟩ := lookup_eq_some_iff.1 found
    have listed : (x, ty') ∈ entries := same ▸ mem_append_right _ mem_cons_self
    cases inj_on_of_nodup_map distinct member listed rfl
    rfl

/-- What becomes of the arrays of a function that is called with arguments. -/
def custody (nullable : Prop) (decl : FunctionDecl) (v : View) (args : List Value) : Meaning.Custody where
  nullable := nullable
  own := decl.ownArrays
  given handle := ¬ v.heap.Live handle ∨ Meaning.Among decl.params args handle
  hidden := decl.Hides

namespace Linked

/-- A program that keeps arrays apart from other values, and whose functions are in text order and have the types
that they need. Arrays that are declared inside of conditionals may be null. -/
structure ArraysApart (u : Linked ω) (nullable : Prop) : Prop where
  orderly : u.Orderly
  checked : ∀ decl ∈ u.functions, ∀ body, decl.body = some body → decl.linkage.isSome = false →
    ∀ invoke, InTextOrder decl body ∧ (u.traced.meaning invoke (localTypes decl.params body)).BlockTyped decl.ret body
  main : ∀ i decl, u.functions.findIdx? (·.name.name = "Main") = some i → u.functions[i]? = some decl →
    decl.params = []
  global : ∀ var ∈ u.globals, var.ty.isArray = false ∧ var.ty.primitive ≠ .any
  const : ∀ x c, u.const? x = some c → c.ty.isArray = false ∧ c.ty.primitive ≠ .any
  types : ∀ decl ∈ u.functions, ∀ ty ∈ decl.types, ty.primitive ≠ .any
  function : ∀ decl ∈ u.functions, decl.ArraysApart
  nested : ∀ decl ∈ u.functions, ∀ var ∈ decl.branchVars, var.ty.isArray = true → nullable
  unassigned : ∀ ty v, Finds nullable v (u.unassigned ty).keeping fun a _ => ty.isArray = true → a.handle = 0
  native : ∀ i args v, Finds nullable v (u.native i args).keeping fun _ _ => True

/-- Calls of functions find their arrays. An array that they return was passed to them or is new. -/
def CallsFind (u : Linked ω) (nullable : Prop) (invoke : Nat → List Value → Eval (Traced ω) Value) : Prop :=
  ∀ i decl args v, u.functions[i]? = some decl → Meaning.Passed nullable v decl.params args →
    Finds nullable v (invoke i args) fun a v' => decl.ret.isArray = true →
      Meaning.Returned nullable v decl.params args a v'

variable {u : Linked ω} {v : View} {room : Nat}

/-- A function that ends destroys its own arrays only. -/
theorem Orderly.lasts_body (orderly : u.Orderly) (member : decl ∈ u.functions) (has : decl.body = some body)
    (own : decl.linkage.isSome = false) {store store' : Store ω} {choices rest : List Value} {v : Value}
    (consistent : store.arrays.Consistent)
    (ran : u.runBody (u.invoke room) decl body args store choices = (.ok v, store', rest)) :
    store.arrays.Lasts store'.arrays := by
  obtain ⟨notes, noted⟩ := (u.erases_noteBody (u.erases_noteInvoke room) decl body args).exists_kept ran []
  have accounted := orderly.accounts_noteBody (orderly.accounts_noteInvoke room) (orderly.body decl member body has own)
    (fun var listed => ⟨decl, member, body, has, listed⟩) args _ choices v _ _ consistent noted
  exact ⟨accounted.consistent, accounted.kept⟩

namespace ArraysApart

variable (apart : u.ArraysApart nullable)
include apart

theorem meaning (member : decl ∈ u.functions) (has : decl.body = some body)
    {invoke : Nat → List Value → Eval (Traced ω) Value} (calls : u.CallsFind nullable invoke) :
    (u.traced.meaning invoke (localTypes decl.params body)).ArraysApart nullable where
  own x ty isLocal := by
    obtain ⟨l1, l2, same, -⟩ := lookup_eq_some_iff.1 isLocal
    have listed : (x, ty) ∈ localTypes decl.params body := by
      rw [same]
      exact mem_append_right _ mem_cons_self
    have types := apart.types decl member
    rcases mem_append.1 listed with listed | listed
    · obtain ⟨param, isParam, same⟩ := mem_map.1 listed
      cases same
      exact types _ (mem_append_left _ (.tail _ (mem_map_of_mem isParam)))
    · obtain ⟨var, isVar, same⟩ := mem_map.1 listed
      cases same
      have declared : var ∈ decl.vars := FunctionDecl.vars_of_body has ▸ isVar
      have noAny := types _ (mem_append_right _ (mem_map_of_mem declared))
      unfold VarDecl.fullTy
      split <;> exact noAny
  global x i ty isGlobal := by
    obtain ⟨j, -, entry⟩ := Option.bind_eq_some_iff.1 isGlobal
    obtain ⟨var, here, same⟩ := Option.map_eq_some_iff.1 entry
    cases same
    exact apart.global var (mem_of_getElem? here)
  const := apart.const
  function x i decl' found := by
    have listed := mem_of_getElem? (function_of_meaning (u := u.traced) found)
    exact ⟨apart.types decl' listed _ (mem_append_left _ (.head _)), apart.function decl' listed⟩
  unassigned := apart.unassigned
  invoke x i decl' args v found passed := calls i decl' args v (function_of_meaning (u := u.traced) found) passed

omit apart

variable {invoke : Nat → List Value → Eval (Traced ω) Value}

theorem local_of_mem (ordered : decl.Orderly body) {var : VarDecl} (declared : var ∈ body.vars) :
    (u.traced.meaning invoke (localTypes decl.params body)).local? var.name.name = some var.fullTy := by
  refine lookup_of_mem ?_ (mem_append_right _ (mem_map_of_mem declared))
  rw [localTypes, map_append, map_map, map_map]
  exact ordered.distinct

theorem isArray_fullTy {var : VarDecl} (owned : var.ty.isOwnedArray = true) : var.fullTy.isArray = true := by
  unfold VarDecl.fullTy
  split <;> exact isArray_of_isOwnedArray owned

theorem holds_bindParams (has : decl.body = some body) (ordered : decl.Orderly body)
    (passed : Meaning.Passed nullable v decl.params args) :
    (u.traced.meaning invoke (localTypes decl.params body)).Holds (custody nullable decl v args)
      (decl.params.map (·.name.name)) (bindParams decl.params args) v := by
  have vars := FunctionDecl.vars_of_body has
  have none : ∀ x ∈ decl.ownArrays, bindParams decl.params args x = none := by
    intro x member
    apply bindParams_of_not_mem
    intro param
    obtain ⟨var, declared, rfl⟩ := mem_map.1 member
    have listed : var ∈ body.vars := vars ▸ (mem_filter.1 declared).1
    exact (nodup_append.1 ordered.distinct).2.2 _ param _ (mem_map_of_mem listed) rfl
  have clear : ∀ x ty a, (u.traced.meaning invoke (localTypes decl.params body)).local? x = some ty →
      ty.isArray = true → bindParams decl.params args x = some a →
        v.Clear nullable a.handle ∧ Meaning.Among decl.params args a.handle := by
    intro x ty a isLocal array here
    obtain ⟨param, member, -, found⟩ := exists_param here _
    cases isLocal.symm.trans found
    exact ⟨forall₂_iff_zip.1 passed |>.2 member array, param, a, member, array, rfl⟩
  refine ⟨fun x ty a isLocal array here => (clear x ty a isLocal array here).1.1,
    fun x ty a isLocal array _ here => (clear x ty a isLocal array here).1.2, ?_, ?_, ?_, fun _ => .inl, ?_⟩
  · intro x member ty isLocal array missing
    have own : (u.traced.meaning invoke (localTypes decl.params body)).owns x = true := by
      rw [Meaning.owns, isLocal]
      rfl
    rcases covers_bindParams _ decl.params args passed.length_eq x member own with assigned | impossible
    · rw [missing] at assigned
      cases assigned
    · cases impossible
  · intro x member
    obtain ⟨var, declared, rfl⟩ := mem_map.1 member
    obtain ⟨declared, owned⟩ := mem_filter.1 declared
    exact ⟨var.fullTy, local_of_mem ordered (vars ▸ declared), isArray_fullTy owned⟩
  · intro x member a here
    rw [none x member] at here
    cases here
  · intro x ty a isLocal array _ here
    refine ⟨.inr (clear x ty a isLocal array here).2, fun y own b there => ?_⟩
    rw [none y own] at there
    cases there

include apart in
/-- A function begins, and its statements find their arrays when the calls in them do. -/
theorem finds_startBody (calls : u.CallsFind nullable (u.traceInvoke room)) (member : decl ∈ u.functions)
    (has : decl.body = some body) (own : decl.linkage.isSome = false)
    (passed : Meaning.Passed nullable v decl.params args) :
    Finds nullable v (u.traced.startBody (u.traceInvoke room) decl body args)
      ((u.traced.meaning (u.traceInvoke room) (localTypes decl.params body)).Goes (custody nullable decl v args)
        decl.ret (decl.params.map (·.name.name) ++ body.stores)) := by
  obtain ⟨ordered, typed⟩ := apart.checked decl member body has own (u.traceInvoke room)
  have keeps := apart.function decl member
  have nested := apart.nested decl member
  have foreign := keeps.result
  rw [FunctionDecl.branchVars_of_body has] at nested
  rw [FunctionDecl.returned_of_body has] at foreign
  have outside : ∀ x ∈ body.exposed, ¬ decl.Hides x := by
    rintro x exposed ⟨var, -, rfl, secludes⟩
    rw [← FunctionDecl.exposed_of_body has] at exposed
    exact secludes.2 exposed
  have hides : ∀ var ∈ body.vars, decl.Secludes var → decl.Hides var.name.name := fun var declared secludes =>
    ⟨var, FunctionDecl.vars_of_body has ▸ declared, rfl, secludes⟩
  have orderly := apart.orderly.body decl member body has own
  have holds : (u.traced.meaning (u.traceInvoke room) _).Holds _ _ _ _ := holds_bindParams has orderly passed
  obtain ⟨stmts, span⟩ := body
  refine .bind .number fun call v1 later1 _ => .bind (.tell_params call _) fun _ v2 later2 _ => ?_
  exact Meaning.ArraysApart.finds_stmts (k := custody nullable decl v args) (apart.meaning member has calls)
    (keeps.text _ (.head _)) (holds.later (later1.trans later2)) stmts ordered typed nested foreign outside hides

variable {handle : UInt32}

theorem not_mem_owned {h : ArrayHeap} (has : decl.body = some body) {locals : Locals}
    (live : h.Live handle) (others : ∀ x ∈ decl.ownArrays, ∀ a, locals x = some a → a.handle ≠ handle) :
    handle ∉ locals.owned body.vars := by
  intro listed
  obtain ⟨var, owned, same⟩ := mem_map.1 listed
  cases here : locals var.name.name with
  | none =>
    rw [here] at same
    exact ArrayHeap.not_live_zero (same ▸ live)
  | some b =>
    rw [here] at same
    refine others var.name.name ?_ b here same
    rw [FunctionDecl.ownArrays, FunctionDecl.vars_of_body has]
    exact mem_map_of_mem owned

/-- No sealed array is destroyed at the end of a function: those that it destroys are no constants. -/
theorem not_mem_owned_of_sealed {stored : List String} (has : decl.body = some body) (orderly : decl.Orderly body)
    {locals : Locals} {v' : View} (holds : (u.traced.meaning invoke (localTypes decl.params body)).Holds
      (custody nullable decl v args) stored locals v') (fit : v'.Fit) (isSealed : v'.trace.Sealed handle) :
    handle ∉ locals.owned body.vars := by
  refine not_mem_owned has (fit.live handle isSealed) fun x member a here same => ?_
  obtain ⟨var, declared, rfl⟩ := mem_map.1 member
  obtain ⟨declared, owned⟩ := mem_filter.1 declared
  have vars := FunctionDecl.vars_of_body has
  have isLocal : (u.traced.meaning invoke _).local? _ = _ := local_of_mem orderly (vars ▸ declared)
  refine holds.visible _ _ a isLocal (isArray_fullTy owned) ?_ here (same ▸ isSealed)
  rintro ⟨other, among, named, constant, -⟩
  rw [vars] at among declared
  cases inj_on_of_nodup_map (nodup_append.1 orderly.distinct).2.1 among declared named
  simp [Ty.isOwnedArray, constant] at owned

include apart

/-- A function with a body of its own finds its arrays when the calls in it do. -/
theorem finds_body (calls : u.CallsFind nullable (u.traceInvoke room)) (member : decl ∈ u.functions)
    (has : decl.body = some body) (own : decl.linkage.isSome = false)
    (passed : Meaning.Passed nullable v decl.params args) :
    Finds nullable v (u.traced.traceBody (u.traceInvoke room) decl body args) fun a v' => decl.ret.isArray = true →
      Meaning.Returned nullable v decl.params args a v' := by
  intro store choices later
  have goes := apart.finds_startBody calls member has own passed store choices later
  have plain := u.forgets_startBody (u.forgets_traceInvoke room) decl body args store choices
  have ends := u.forgets_traceBody (u.forgets_traceInvoke room) decl body args store choices
  generalize whole : u.traced.traceBody (u.traceInvoke room) decl body args store choices = outcome at ends ⊢
  change Eval.bind (u.traced.startBody (u.traceInvoke room) decl body args) _ store choices = outcome at whole
  rw [Eval.bind] at whole
  generalize u.traced.startBody (u.traceInvoke room) decl body args store choices = out at goes plain whole
  cases goes with
  | stop harmless intact =>
    cases whole
    exact .stop harmless intact
  | @ok result store1 rest later1 goes =>
    obtain ⟨locals, flow⟩ := result
    -- What the function owns can be destroyed, so it ends as its statements do.
    obtain ⟨arrays, destroyed⟩ := apart.orderly.exists_destroyAll member has own later.consistent plain
    change store1.arrays.destroyAll? (locals.owned body.vars) = some arrays at destroyed
    change Eval.bind (destroyOwned locals body.vars) _ store1 rest = outcome at whole
    rw [Eval.bind, destroyOwned_of_destroyAll? destroyed rest] at whole
    have kept : ∀ handle, store1.trace.Sealed handle → arrays.Live handle := fun handle isSealed =>
      ArrayHeap.live_of_destroyAll? destroyed (later1.live handle isSealed) (not_mem_owned_of_sealed has
        (apart.orderly.body decl member body has own) goes.holds later1.toFit isSealed)
    cases flow with
    | ret a =>
      cases whole
      refine .ok (.of_destroyed later1 (apart.orderly.lasts_body member has own later.consistent ends) rfl kept)
        fun array => ?_
      obtain ⟨⟨usable, open'⟩, known, others⟩ := goes.2 array
      refine ⟨⟨usable.imp_left fun live => ?_, open'⟩, known⟩
      exact ArrayHeap.live_of_destroyAll? destroyed live (not_mem_owned has live others)
    | next =>
      by_cases void : decl.ret.isVoid = true
      · rw [if_pos void] at whole
        cases whole
        refine .ok (.of_destroyed later1 (apart.orderly.lasts_body member has own later.consistent ends) rfl kept)
          fun array => ?_
        simp [Ty.isVoid, Ty.isScalar, array] at void
      · rw [if_neg void] at whole
        cases whole
        exact .stop Stop.harmless_stuck later1.intact

/-- Every call finds its arrays, by recursion on the room for calls inside it. -/
theorem finds_traceInvoke (room : Nat) : u.CallsFind nullable (u.traceInvoke room) := by
  suffices finds : ∀ i args decl v, u.functions[i]? = some decl → Meaning.Passed nullable v decl.params args →
      Finds nullable v (u.traceInvoke room i args) fun a v' => decl.ret.isArray = true →
        Meaning.Returned nullable v decl.params args a v' from
    fun i decl args => finds i args decl
  refine u.traced.invokeWith_induct (v := u) (g := u.runBody) (P := fun _ i args x _ => ∀ decl v,
    u.functions[i]? = some decl → Meaning.Passed nullable v decl.params args →
      Finds nullable v x fun a v' => decl.ret.isArray = true → Meaning.Returned nullable v decl.params args a v') rfl
    ?_ ?_ ?_ room
  · rintro room i args _ (rfl | rfl) decl v found passed
    · exact .stop Stop.harmless_stuck
    · exact .stop ⟨by simp, by simp⟩
  · intro room i args decl found linked _ v found' passed
    cases found.symm.trans found'
    have scalar := (apart.function decl (mem_of_getElem? found)).native linked
    exact (apart.native i args v).mono fun _ _ _ _ array => absurd array (ne_true_of_eq_false scalar)
  · intro room calls i args decl body found has own _ v found' passed
    cases found.symm.trans found'
    exact apart.finds_body (fun i decl args => calls i args decl) (mem_of_getElem? found) has own passed

end ArraysApart

/-! ## Runs -/

theorem fit_globalEvents (u : Linked ω) {heap : ArrayHeap} (consistent : heap.Consistent) :
    View.Fit ⟨heap, ⟨0, u.globalEvents⟩⟩ := by
  have filled : ∀ decl var handle, .filled decl var handle ∉ u.globalEvents := by
    intro decl var handle told
    obtain ⟨i, inside, same⟩ := mem_mapIdx.1 told
    cases same
  refine ⟨consistent, ?_, fun handle ⟨decl, var, told, _⟩ => absurd told (filled decl var handle)⟩
  refine pairwise_iff_getElem.2 fun i j inside _ _ decl var handle same => ?_
  exact absurd (same ▸ getElem_mem inside) (filled decl var handle)

namespace ArraysApart

variable (apart : u.ArraysApart nullable) (room : Nat) {store : Store ω} (consistent : store.arrays.Consistent)
  (choices : List Value)
include apart consistent

/-- A whole run finds its arrays. -/
theorem found_traceRun : Found nullable ⟨store.arrays, ⟨0, u.globalEvents⟩⟩ (fun _ _ => True)
    (u.traceRun room (store.keeping ⟨0, []⟩) choices) := by
  have fit := u.fit_globalEvents consistent
  have finds : Finds nullable ⟨store.arrays, ⟨0, u.globalEvents⟩⟩ (u.traced.runWith u.traced.traceBody room)
      fun _ _ => True := by
    refine u.traced.runWith_cases (v := u) (g := u.runBody) (P := fun x _ => Finds nullable _ x fun _ _ => True) rfl
      (.stop Stop.harmless_stuck) fun i decl main found => ?_
    have passed : Meaning.Passed nullable ⟨store.arrays, ⟨0, u.globalEvents⟩⟩ decl.params [] := by
      rw [apart.main i decl main found]
      exact .nil
    exact (apart.finds_traceInvoke room i decl [] _ found passed).mono fun _ _ _ _ => trivial
  exact finds (store.keeping ⟨0, u.globalEvents⟩) choices (.refl fit)

theorem harmless_run {reason : Stop} (stops : (u.run room store choices).1 = .error reason) :
    reason.Harmless nullable := by
  have forgets := u.forgets_traceRun room (store.keeping ⟨0, []⟩) choices
  have found := apart.found_traceRun room consistent choices
  change u.run room store choices = _ at forgets
  rw [forgets] at stops
  generalize u.traceRun room (store.keeping ⟨0, []⟩) choices = out at found stops
  cases found with
  | stop harmless _ =>
    cases stops
    exact harmless
  | ok _ _ => cases stops

theorem intact_traceRun : (u.traceRun room (store.keeping ⟨0, []⟩) choices).2.1.trace.Intact :=
  (apart.found_traceRun room consistent choices).intact

end ArraysApart

end Linked

end RegisterLang.Evaluation
