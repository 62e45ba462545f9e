import RegisterLang.Proofs.Heap
import RegisterLang.Proofs.Noting

/-! # The arrays of a function

A function owns the arrays that it declares without `const`. They stay apart from all others while it runs, and
at its end all of them can be destroyed; nothing else ever is. Main statements:
`Linked.Orderly.accounts_noteRun`, a program leaves one array for each `const` array that was declared in its
run, and `Linked.Orderly.exists_destroyAll`, for the end of a function.
-/

namespace RegisterLang

open List

theorem Value.handle_ofHandle (handle : UInt32) : (Value.ofHandle handle).handle = handle := by
  have small : (Value.ofHandle handle : UInt64) ≤ 0xFFFFFFFF := by
    exact Nat.le_of_lt_succ handle.toNat_lt
  rw [Value.handle, if_pos small, Value.ofHandle, UInt32.toUInt32_toUInt64]

/-- A variable that is a `const` array, which no function owns. -/
def VarDecl.isConstArray (var : VarDecl) : Bool :=
  var.ty.isArray && var.ty.isConst

/-- A function whose parameters and variables have different names, and which assigns to no array as a
whole. -/
structure FunctionDecl.Orderly (decl : FunctionDecl) (body : Block) : Prop where
  distinct : (decl.params.map (·.name.name) ++ body.vars.map (·.name.name)).Nodup
  scalar : ∀ x ∈ body.targets, ∀ var ∈ body.vars, var.ty.isArray = true → var.name.name ≠ x

namespace Evaluation

variable {ω α β : Type} {P : VarDecl → Prop}
  {var : VarDecl} {store store' : Store ω} {choices rest args : List Value} {m : Meaning (Noted ω)}
  {locals : Locals} {arrays : ArrayHeap}

theorem Eval.bind_eq_ok {x : Eval ω α} {f : α → Eval ω β} {b : β}
    (ran : (x >>= f) store choices = (.ok b, store', rest)) :
    ∃ a store1 rest1, x store choices = (.ok a, store1, rest1) ∧ f a store1 rest1 = (.ok b, store', rest) := by
  change Eval.bind x f store choices = _ at ran
  unfold Eval.bind at ran
  rcases first : x store choices with ⟨reason | a, store1, rest1⟩
  · rw [first] at ran
    cases ran
  · rw [first] at ran
    exact ⟨a, store1, rest1, rfl, ran⟩

theorem Eval.onArrays_eq_ok {f : ArrayHeap → Except Fault α × ArrayHeap} {a : α}
    (ran : Eval.onArrays f store choices = (.ok a, store', rest)) :
    ∃ arrays, f store.arrays = (.ok a, arrays) ∧ store' = { store with arrays } := by
  unfold Eval.onArrays at ran
  rcases used : f store.arrays with ⟨fault | a', arrays⟩
  · rw [used] at ran
    cases ran
  · rw [used] at ran
    cases ran
    exact ⟨arrays, rfl, rfl⟩

variable {flow : Flow}

theorem Meaning.noteArray_eq_ok {locals' : Locals} {store store' : Store (Noted ω)}
    (array : var.ty.isArray = true)
    (ran : m.noting.stmt locals (.var var) store choices = (.ok (locals', flow), store', rest)) :
    ∃ handle arrays rest1, store.arrays.create (UInt64.ofNat var.arrayLength) = (.ok handle, arrays) ∧
      m.fillArray locals (Value.ofHandle handle) 0 var.items
        { store.note var with arrays } rest1 = (.ok (), store', rest) ∧
      locals' = locals.set var.name.name (Value.ofHandle handle) := by
  obtain ⟨_, _, _, noted, ran⟩ := Eval.bind_eq_ok ran
  cases noted
  obtain ⟨locals1, store1, rest1, ran, finished⟩ := Eval.bind_eq_ok ran
  cases finished
  unfold Meaning.declare at ran
  rw [if_pos array] at ran
  obtain ⟨v, store2, rest2, created, ran⟩ := Eval.bind_eq_ok ran
  obtain ⟨_, store3, rest3, filled, ran⟩ := Eval.bind_eq_ok ran
  cases ran
  obtain ⟨handle, store4, rest4, created, ran⟩ := Eval.bind_eq_ok created
  cases ran
  obtain ⟨arrays, made, rfl⟩ := Eval.onArrays_eq_ok created
  exact ⟨handle, arrays, _, made, filled, rfl⟩

/-! ## Accounts -/

/-- What happens to the arrays from one store to another: those that there were stay, and there is one more for
each `const` array among the declarations that were noted. All of these have the property `P`. -/
structure Accounted (P : VarDecl → Prop) (store store' : Store (Noted ω)) : Prop where
  consistent : store'.arrays.Consistent
  kept : ∀ handle, store.arrays.Live handle → store'.arrays.Live handle
  notes : ∃ more, store'.notes = store.notes ++ more ∧ (∀ var ∈ more, P var) ∧
    store'.arrays.live = store.arrays.live + more.countP VarDecl.isConstArray

variable {handle : UInt32}

namespace Accounted

variable {store store' store'' : Store (Noted ω)}

theorem of_eq (consistent : store.arrays.Consistent) (arrays : store'.arrays = store.arrays)
    (notes : store'.notes = store.notes) : Accounted P store store' := by
  refine ⟨arrays ▸ consistent, fun handle live => arrays ▸ live, [], ?_, nofun, ?_⟩
  · rw [notes, append_nil]
  · rw [arrays]
    rfl

theorem trans (first : Accounted P store store') (second : Accounted P store' store'') :
    Accounted P store store'' := by
  obtain ⟨more, noted, declared, count⟩ := first.notes
  obtain ⟨more', noted', declared', count'⟩ := second.notes
  refine ⟨second.consistent, fun handle live => second.kept handle (first.kept handle live),
    more ++ more', ?_, ?_, ?_⟩
  · rw [noted', noted, append_assoc]
  · exact forall_mem_append.2 ⟨declared, declared'⟩
  · rw [count', count, countP_append, Nat.add_assoc]

theorem note (consistent : store.arrays.Consistent) (other : var.isConstArray = false) (declared : P var) :
    Accounted P store (store.note var) := by
  refine ⟨consistent, fun handle live => live, [var], rfl, by simpa using declared, ?_⟩
  rw [countP_singleton, other]
  rfl

theorem noteCreate {length : Nat} (creates : ArrayHeap.Creates store.arrays length handle arrays)
    (const : var.isConstArray = true) (declared : P var) :
    Accounted P store { store.note var with arrays } := by
  refine ⟨creates.consistent, fun other live => ?_, [var], rfl, by simpa using declared, ?_⟩
  · unfold ArrayHeap.Live
    rw [creates.others other fun same => creates.fresh (same ▸ live)]
    exact live
  · rw [countP_singleton, const]
    exact creates.live

end Accounted

/-- An evaluation that gives a result only if it accounts for the arrays. -/
def Accounts (P : VarDecl → Prop) (x : Eval (Noted ω) α) : Prop :=
  ∀ store choices a store' rest, store.arrays.Consistent → x store choices = (.ok a, store', rest) →
    Accounted P store store'

namespace Accounts

theorem pure (a : α) : Accounts P (Pure.pure a : Eval (Noted ω) α) := by
  intro store choices a' store' rest consistent ran
  cases ran
  exact .of_eq consistent rfl rfl

theorem stop (reason : Stop) : Accounts P (Eval.stop reason : Eval (Noted ω) α) := by
  intro store choices a store' rest consistent ran
  cases ran

theorem bind {x : Eval (Noted ω) α} {f : α → Eval (Noted ω) β} (first : Accounts P x)
    (second : ∀ a, Accounts P (f a)) : Accounts P (x >>= f) := by
  intro store choices b store' rest consistent ran
  obtain ⟨a, store1, rest1, ran1, ran2⟩ := Eval.bind_eq_ok ran
  have accounted := first store choices a store1 rest1 consistent ran1
  exact accounted.trans (second a store1 rest1 b store' rest accounted.consistent ran2)

theorem note (other : var.isConstArray = false) (declared : P var) :
    Accounts P (Eval.note var : Eval (Noted ω) Unit) := by
  intro store choices a store' rest consistent ran
  cases ran
  exact .note consistent other declared

theorem noted {x : Eval ω α} (still : ∀ store choices, (x store choices).2.1.arrays = store.arrays) :
    Accounts P (x.keeping : Eval (Noted ω) α) := by
  intro store choices a store' rest consistent ran
  obtain rfl : _ = store' := congrArg (·.2.1) ran
  exact .of_eq consistent (still (store.seen Prod.fst) choices) rfl

theorem writeElement (array index v : Value) :
    Accounts P (Evaluation.writeElement array index v : Eval (Noted ω) Unit) := by
  intro store choices a store' rest consistent ran
  obtain ⟨arrays, written, rfl⟩ := Eval.onArrays_eq_ok ran
  have writes := ArrayHeap.writes_of_set written
  refine ⟨writes.consistent consistent, fun handle live => ?_, [], ?_, nofun, writes.live⟩
  · by_cases same : handle = array.handle
    · obtain ⟨_, -, -, after⟩ := writes.array
      exact ⟨_, same ▸ after⟩
    · unfold ArrayHeap.Live
      rw [writes.others handle same]
      exact live
  · exact (append_nil _).symm

theorem readElement (array index : Value) :
    Accounts P (Evaluation.readElement array index : Eval (Noted ω) Value) := by
  intro store choices a store' rest consistent ran
  obtain ⟨arrays, read, rfl⟩ := Eval.onArrays_eq_ok ran
  obtain rfl : store.arrays = arrays := by rw [← ArrayHeap.get_snd store.arrays array.handle index, read]
  exact .of_eq consistent rfl rfl

theorem getGlobal (index : Nat) : Accounts P (Eval.getGlobal index : Eval (Noted ω) Value) := by
  intro store choices a store' rest consistent ran
  unfold Eval.getGlobal at ran
  split at ran
  · cases ran
    exact .of_eq consistent rfl rfl
  · cases ran

theorem setGlobal (index : Nat) (v : Value) : Accounts P (Eval.setGlobal index v : Eval (Noted ω) Unit) := by
  intro store choices a store' rest consistent ran
  cases ran
  exact .of_eq consistent rfl rfl

theorem stepwise : Stepwise fun α : Type => fun x _ : Eval (Noted ω) α => Accounts P x where
  pure := .pure
  stop := .stop
  bind := .bind
  getGlobal := .getGlobal
  readElement := .readElement

theorem congruence : Congruence fun α : Type => fun x _ : Eval (Noted ω) α => Accounts P x where
  toStepwise := stepwise
  setGlobal := .setGlobal
  writeElement := .writeElement

end Accounts

/-- What a meaning takes from outside accounts for the arrays. -/
abbrev Meaning.Accounts (P : VarDecl → Prop) (m : Meaning (Noted ω)) : Prop :=
  m.Related (fun _ x _ => Evaluation.Accounts P x) m

/-! ## Arrays that a function holds -/

/-- The handles of the owned arrays among variables, 0 for one that was not declared yet. -/
def Locals.owned (locals : Locals) (vars : List VarDecl) : List UInt32 :=
  (vars.filter (·.ty.isOwnedArray)).map fun v => ((locals v.name.name).getD 0).handle

/-- The handles of the owned arrays that were declared. -/
def Locals.held (locals : Locals) (vars : List VarDecl) : List UInt32 :=
  (locals.owned vars).filter (· ≠ 0)

namespace Locals

variable {locals locals' : Locals} {vars : List VarDecl}

theorem mem_held : handle ∈ locals.held vars ↔ handle ∈ locals.owned vars ∧ handle ≠ 0 := by
  simp [held]

theorem held_append (vars vars' : List VarDecl) :
    locals.held (vars ++ vars') = locals.held vars ++ locals.held vars' := by
  simp [held, owned]

theorem held_congr (same : ∀ var ∈ vars, var.ty.isOwnedArray = true →
    locals' var.name.name = locals var.name.name) : locals'.held vars = locals.held vars := by
  unfold held owned
  congr 1
  apply map_congr_left
  intro var member
  obtain ⟨member, owned⟩ := mem_filter.1 member
  rw [same var member owned]

theorem held_of_none (none : ∀ var ∈ vars, var.ty.isOwnedArray = true → locals var.name.name = none) :
    locals.held vars = [] := by
  unfold held owned
  rw [filter_eq_nil_iff]
  intro handle member
  obtain ⟨var, listed, rfl⟩ := mem_map.1 member
  obtain ⟨listed, owned⟩ := mem_filter.1 listed
  rw [none var listed owned]
  decide

theorem set_other {other : VarDecl} {v : Value} (distinct : (vars.map (·.name.name)).Nodup) (member : var ∈ vars)
    (listed : other ∈ vars) (different : other ≠ var) :
    locals.set var.name.name v other.name.name = locals other.name.name := by
  apply Locals.set_of_ne
  intro same
  exact different (inj_on_of_nodup_map distinct listed member same)

theorem held_set {array : Value} (distinct : (vars.map (·.name.name)).Nodup) (member : var ∈ vars)
    (owned : var.ty.isOwnedArray = true) (none : locals var.name.name = none) (nonzero : array.handle ≠ 0) :
    ((locals.set var.name.name array).held vars).Perm (array.handle :: locals.held vars) := by
  obtain ⟨before, after, rfl⟩ := append_of_mem member
  rw [map_append, map_cons, nodup_middle, nodup_cons] at distinct
  obtain ⟨apart, -⟩ := distinct
  have unchanged : ∀ other ∈ before ++ after, other.ty.isOwnedArray = true →
      locals.set var.name.name array other.name.name = locals other.name.name := by
    intro other listed _
    apply Locals.set_of_ne
    rintro same
    rw [← map_append] at apart
    exact apart (mem_map.2 ⟨other, listed, same⟩)
  have joined : (locals.set var.name.name array).held [var] = [array.handle] := by
    simp [held, Locals.owned, owned, nonzero]
  have absent : locals.held [var] = [] := by
    refine held_of_none fun other listed _ => ?_
    rw [mem_singleton.1 listed]
    exact none
  have split : before ++ var :: after = before ++ ([var] ++ after) := rfl
  rw [split, held_append, held_append, held_append, held_append, joined, absent,
    held_congr fun other listed => unchanged other (mem_append_left _ listed),
    held_congr fun other listed => unchanged other (mem_append_right _ listed)]
  exact perm_middle

end Locals

/-- In the middle of a function with the given variables: the arrays that it holds are apart from those that
there were at its start, and there is one more for each `const` array that was declared since. -/
structure Owns (P : VarDecl → Prop) (vars : List VarDecl) (start : Store (Noted ω)) (locals : Locals)
    (store : Store (Noted ω)) : Prop where
  consistent : store.arrays.Consistent
  kept : ∀ handle, start.arrays.Live handle → store.arrays.Live handle ∧ handle ∉ locals.held vars
  live : ∀ handle ∈ locals.held vars, store.arrays.Live handle
  nodup : (locals.held vars).Nodup
  notes : ∃ more, store.notes = start.notes ++ more ∧ (∀ var ∈ more, P var) ∧ store.arrays.live =
    start.arrays.live + more.countP VarDecl.isConstArray + (locals.held vars).length

namespace Owns

variable {vars : List VarDecl} {start store store' : Store (Noted ω)} {locals locals' : Locals}

theorem of_start (consistent : start.arrays.Consistent) (none : locals.held vars = []) :
    Owns P vars start locals start := by
  refine ⟨consistent, fun handle live => ⟨live, ?_⟩, ?_, ?_, [], ?_, nofun, ?_⟩
  · rw [none]
    exact not_mem_nil
  · rw [none]
    exact nofun
  · rw [none]
    exact nodup_nil
  · rw [append_nil]
  · rw [none]
    rfl

section
variable (owns : Owns P vars start locals store)
include owns

theorem step (accounted : Accounted P store store') (same : locals'.held vars = locals.held vars) :
    Owns P vars start locals' store' := by
  obtain ⟨more, noted, declared, count⟩ := owns.notes
  obtain ⟨more', noted', declared', count'⟩ := accounted.notes
  refine ⟨accounted.consistent, fun handle live => ?_, fun handle member => ?_, ?_, more ++ more', ?_, ?_, ?_⟩
  · obtain ⟨live, apart⟩ := owns.kept handle live
    rw [same]
    exact ⟨accounted.kept handle live, apart⟩
  · rw [same] at member
    exact accounted.kept handle (owns.live handle member)
  · rw [same]
    exact owns.nodup
  · rw [noted', noted, append_assoc]
  · exact forall_mem_append.2 ⟨declared, declared'⟩
  · rw [count', countP_append, same]
    omega

theorem create {length : Nat}
    (creates : ArrayHeap.Creates store.arrays length handle arrays)
    (joins : (locals'.held vars).Perm (handle :: locals.held vars)) :
    Owns P vars start locals' { store with arrays } := by
  -- An array that there was has another handle.
  have stays : ∀ other, store.arrays.Live other → arrays.Live other ∧ other ≠ handle := by
    intro other live
    have apart : other ≠ handle := fun same => creates.fresh (same ▸ live)
    unfold ArrayHeap.Live
    rw [creates.others other apart]
    exact ⟨live, apart⟩
  obtain ⟨more, noted, declared, count⟩ := owns.notes
  refine ⟨creates.consistent, fun other live => ?_, fun other member => ?_, ?_, more, noted, declared, ?_⟩
  · obtain ⟨live, absent⟩ := owns.kept other live
    obtain ⟨live, apart⟩ := stays other live
    rw [joins.mem_iff, mem_cons, not_or]
    exact ⟨live, apart, absent⟩
  · rcases mem_cons.1 (joins.mem_iff.1 member) with rfl | member
    · exact ⟨_, creates.array⟩
    · exact (stays other (owns.live other member)).1
  · rw [joins.nodup_iff, nodup_cons]
    exact ⟨fun member => creates.fresh (owns.live handle member), owns.nodup⟩
  · rw [creates.live, count, joins.length_eq, length_cons]
    omega

/-- What is held at the end of a function can be destroyed, and then no array is left but those that it
accounts for. -/
theorem exists_destroyAll :
    ∃ arrays, store.arrays.destroyAll? (locals.owned vars) = some arrays ∧
      Accounted P start { store with arrays } := by
  obtain ⟨arrays, destroyed, consistent, others, count⟩ := ArrayHeap.exists_destroyAll
    (fun handle member nonzero => owns.live handle (Locals.mem_held.2 ⟨member, nonzero⟩)) owns.nodup
  obtain ⟨more, noted, declared, counted⟩ := owns.notes
  refine ⟨arrays, destroyed, consistent owns.consistent, fun handle live => ?_, more, noted, declared, ?_⟩
  · obtain ⟨live, apart⟩ := owns.kept handle live
    obtain ⟨array, found⟩ := live
    have nonzero := (ArrayHeap.array?_eq_ok.1 found).1
    have absent : handle ∉ locals.owned vars := fun member => apart (Locals.mem_held.2 ⟨member, nonzero⟩)
    exact ⟨array, (others handle absent).trans found⟩
  · change arrays.live + (locals.held vars).length = _ at count
    change arrays.live = _
    omega

end

end Owns

/-! ## Statements -/

/-- Statements that declare the variables `own`, in a function with the variables `vars`: when none of their
arrays was declared before, they keep count of the arrays and store to no other array variable. -/
def Conducts (P : VarDecl → Prop) (vars own : List VarDecl)
    (x : Locals → Eval (Noted ω) (Locals × Flow)) : Prop :=
  ∀ start locals store choices locals' flow store' rest, Owns P vars start locals store →
    (∀ var ∈ own, var.ty.isArray = true → locals var.name.name = none) →
    x locals store choices = (.ok (locals', flow), store', rest) →
    Owns P vars start locals' store' ∧
      ∀ var ∈ vars, var.ty.isArray = true → var ∉ own → locals' var.name.name = locals var.name.name

theorem isArray_of_isOwnedArray (owned : var.ty.isOwnedArray = true) : var.ty.isArray = true :=
  (Bool.and_eq_true_iff.1 owned).1

namespace Conducts

variable {vars own own' : List VarDecl} {x y : Locals → Eval (Noted ω) (Locals × Flow)}

theorem of_accounts (accounts : ∀ locals, Accounts P (x locals))
    (keeps : ∀ locals store choices locals' flow store' rest,
      x locals store choices = (.ok (locals', flow), store', rest) →
      ∀ var ∈ vars, var.ty.isArray = true → locals' var.name.name = locals var.name.name) :
    Conducts P vars own x := by
  intro start locals store choices locals' flow store' rest owns unset ran
  have keeps := keeps locals store choices locals' flow store' rest ran
  refine ⟨?_, fun var member array _ => keeps var member array⟩
  refine owns.step (accounts locals store choices _ store' rest owns.consistent ran) ?_
  exact Locals.held_congr fun var member owned => keeps var member (isArray_of_isOwnedArray owned)

theorem of_same {z : Locals → Eval (Noted ω) α} {f : α → Flow} (accounts : ∀ locals, Accounts P (z locals)) :
    Conducts P vars own fun locals => do
      let a ← z locals
      return (locals, f a) := by
  refine of_accounts (fun locals => .bind (accounts locals) fun _ => .pure _) ?_
  intro locals store choices locals' flow store' rest ran var _ _
  obtain ⟨a, store1, rest1, -, ran⟩ := Eval.bind_eq_ok ran
  cases ran
  rfl

theorem ite {z : Locals → Eval (Noted ω) Bool} (accounts : ∀ locals, Accounts P (z locals))
    (first : Conducts P vars own x) (second : Conducts P vars own' y) : Conducts P vars (own ++ own') fun locals =>
      z locals >>= fun b => if b then x locals else y locals := by
  intro start locals store choices locals' flow store' rest owns unset ran
  obtain ⟨b, store1, rest1, ran1, ran⟩ := Eval.bind_eq_ok ran
  have owns := owns.step (accounts locals store choices b store1 rest1 owns.consistent ran1) rfl
  cases b with
  | true =>
    obtain ⟨owns, keeps⟩ := first start locals store1 rest1 locals' flow store' rest owns
      (fun var member => unset var (mem_append_left _ member)) ran
    exact ⟨owns, fun var member array absent =>
      keeps var member array fun declared => absent (mem_append_left _ declared)⟩
  | false =>
    obtain ⟨owns, keeps⟩ := second start locals store1 rest1 locals' flow store' rest owns
      (fun var member => unset var (mem_append_right _ member)) ran
    exact ⟨owns, fun var member array absent =>
      keeps var member array fun declared => absent (mem_append_right _ declared)⟩

theorem seq (distinct : (vars.map (·.name.name)).Nodup) (inside : (own ++ own').Sublist vars)
    (first : Conducts P vars own x) (second : Conducts P vars own' y) :
    Conducts P vars (own ++ own') fun locals => (x locals).andThen y := by
  intro start locals store choices locals' flow store' rest owns unset ran
  obtain ⟨⟨locals1, flow1⟩, store1, rest1, ran1, ran⟩ := Eval.bind_eq_ok ran
  obtain ⟨owns1, keeps1⟩ := first start locals store choices locals1 flow1 store1 rest1 owns
    (fun var member => unset var (mem_append_left _ member)) ran1
  cases flow1 with
  | ret v =>
    cases ran
    exact ⟨owns1, fun var member array absent =>
      keeps1 var member array fun declared => absent (mem_append_left _ declared)⟩
  | next =>
    have apart : own.Disjoint own' := (nodup_append'.1 (inside.nodup distinct.of_map)).2.2
    have unset' : ∀ var ∈ own', var.ty.isArray = true → locals1 var.name.name = none := by
      intro var member array
      have listed := inside.subset (mem_append_right _ member)
      rw [keeps1 var listed array fun declared => apart declared member]
      exact unset var (mem_append_right _ member) array
    obtain ⟨owns, keeps⟩ := second start locals1 store1 rest1 locals' flow store' rest owns1 unset' ran
    refine ⟨owns, fun var member array absent => ?_⟩
    rw [mem_append, not_or] at absent
    rw [keeps var member array absent.2, keeps1 var member array absent.1]

/-- The declaration of an array: one without `const` joins those that are held. -/
theorem declareArray (accounts : m.Accounts P) (distinct : (vars.map (·.name.name)).Nodup) (member : var ∈ vars)
    (declared : P var) (array : var.ty.isArray = true) :
    Conducts P vars [var] fun locals => m.noting.stmt locals (.var var) := by
  intro start locals store choices locals' flow store' rest owns unset ran
  obtain ⟨handle, arrays, rest1, made, filled, rfl⟩ := Meaning.noteArray_eq_ok array ran
  have creates := ArrayHeap.creates_of_create owns.consistent made
  have filled := accounts.fillArray Accounts.congruence locals _ 0 var.items _ _ _ _ _ creates.consistent filled
  refine ⟨?_, fun other listed _ different =>
    Locals.set_other distinct member listed (by simpa using different)⟩
  cases const : var.ty.isConst with
  | true =>
    have isConst : var.isConstArray = true := by simp [VarDecl.isConstArray, array, const]
    refine owns.step ((Accounted.noteCreate creates isConst declared).trans filled) ?_
    refine Locals.held_congr fun other listed owned => Locals.set_other distinct member listed ?_
    rintro rfl
    simp [Ty.isOwnedArray, const] at owned
  | false =>
    have isConst : var.isConstArray = false := by simp [VarDecl.isConstArray, const]
    have owned : var.ty.isOwnedArray = true := by simp [Ty.isOwnedArray, array, const]
    have nonzero := (ArrayHeap.array?_eq_ok.1 creates.array).1
    rw [← Value.handle_ofHandle handle] at nonzero
    have joins := Locals.held_set distinct member owned (unset var mem_cons_self array) nonzero
    rw [Value.handle_ofHandle] at joins
    have owns := owns.step (.note owns.consistent isConst declared) rfl
    exact (owns.create creates joins).step filled rfl

theorem declareScalar (accounts : m.Accounts P) (distinct : (vars.map (·.name.name)).Nodup) (member : var ∈ vars)
    (declared : P var) (scalar : var.ty.isArray = false) :
    Conducts P vars [var] fun locals => m.noting.stmt locals (.var var) := by
  have isConst : var.isConstArray = false := by simp [VarDecl.isConstArray, scalar]
  have other : ¬ var.ty.isArray = true := by simp [scalar]
  refine of_accounts (fun locals => .bind (.note isConst declared) fun _ => .bind ?_ fun _ => .pure _) ?_
  · unfold Meaning.declare
    rw [if_neg other]
    cases var.init with
    | none => exact .pure _
    | some init => exact .bind (accounts.value Accounts.stepwise locals init) fun _ => .pure _
  · intro locals store choices locals' flow store' rest ran var' listed array
    obtain ⟨_, _, _, -, ran⟩ := Eval.bind_eq_ok ran
    obtain ⟨locals1, store1, rest1, ran, finished⟩ := Eval.bind_eq_ok ran
    cases finished
    unfold Meaning.declare at ran
    rw [if_neg other] at ran
    cases init : var.init with
    | none =>
      rw [init] at ran
      cases ran
      rfl
    | some e =>
      rw [init] at ran
      obtain ⟨v, _, _, -, finished⟩ := Eval.bind_eq_ok ran
      cases finished
      refine Locals.set_other distinct member listed ?_
      rintro rfl
      exact other array

theorem assign (accounts : m.Accounts P) {target value : Expr} {span : Span}
    (scalar : ∀ x ∈ (Stmt.assign target value span).targets, ∀ var ∈ vars, var.ty.isArray = true →
      var.name.name ≠ x) : Conducts P vars own fun locals => m.evalPlain locals (.assign target value span) := by
  refine of_accounts
    (fun locals => .bind (accounts.assign Accounts.congruence locals target value) fun _ => .pure _) ?_
  intro locals store choices locals' flow store' rest ran var member array
  obtain ⟨locals1, store1, rest1, ran, finished⟩ := Eval.bind_eq_ok ran
  cases finished
  unfold Meaning.assign at ran
  unfold Stmt.targets at scalar
  cases peeled : target.peel with
  | name id _ =>
    rw [peeled] at ran scalar
    obtain ⟨v, store2, rest2, -, ran⟩ := Eval.bind_eq_ok ran
    cases isLocal : m.local? id with
    | some _ =>
      rw [isLocal] at ran
      cases ran
      exact Locals.set_of_ne _ _ (scalar id mem_cons_self var member array)
    | none =>
      rw [isLocal] at ran
      cases isGlobal : m.global? id with
      | some _ =>
        rw [isGlobal] at ran
        cases ran
        rfl
      | none =>
        rw [isGlobal] at ran
        cases ran
  | index _ _ _ =>
    rw [peeled] at ran
    obtain ⟨-, store2, rest2, -, ran⟩ := Eval.bind_eq_ok ran
    cases ran
    rfl
  | _ =>
    rw [peeled] at ran
    cases ran
    rfl

end Conducts

namespace Meaning.Accounts

variable {m : Meaning (Noted ω)} {vars : List VarDecl}
  (accounts : m.Accounts P) (distinct : (vars.map (·.name.name)).Nodup) (declared : ∀ var ∈ vars, P var)
include accounts distinct declared

set_option linter.unusedSectionVars false in
mutual

theorem noteStmt : (stmt : Stmt) → stmt.vars.Sublist vars →
      (∀ x ∈ stmt.targets, ∀ var ∈ vars, var.ty.isArray = true → var.name.name ≠ x) →
      Conducts P vars stmt.vars fun locals => m.noting.stmt locals stmt
  | .var var, inside, _ => by
    have member := inside.subset mem_cons_self
    cases array : var.ty.isArray with
    | true => exact .declareArray accounts distinct member (declared var member) array
    | false => exact .declareScalar accounts distinct member (declared var member) array
  | .assign _ _ _, _, scalar => .assign accounts scalar
  | .ret none _, _, _ => .of_same (z := fun _ => pure ()) (f := fun _ => .ret 0) fun _ => .pure ()
  | .ret (some e) _, _, _ => .of_same fun locals => accounts.value Accounts.stepwise locals e
  | .branch chain, inside, scalar => noteConditional chain inside scalar
  | .expr e _, _, _ => .of_same fun locals => accounts.eval Accounts.stepwise locals e
  | .block (.mk stmts _), inside, scalar => noteStmts stmts inside scalar

theorem noteStmts : (stmts : List Stmt) → (Stmt.listVars stmts).Sublist vars →
      (∀ x ∈ Stmt.listTargets stmts, ∀ var ∈ vars, var.ty.isArray = true → var.name.name ≠ x) →
      Conducts P vars (Stmt.listVars stmts) fun locals => m.noting.stmts locals stmts
  | [], _, _ => .of_same (z := fun _ => pure ()) (f := fun _ => .next) fun _ => .pure ()
  | stmt :: stmts, inside, scalar =>
    .seq distinct inside
      (noteStmt stmt ((sublist_append_left _ _).trans inside)
        fun x member => scalar x (mem_append_left _ member))
      (noteStmts stmts ((sublist_append_right _ _).trans inside)
        fun x member => scalar x (mem_append_right _ member))

theorem noteConditional : (chain : Conditional) → chain.vars.Sublist vars →
      (∀ x ∈ chain.targets, ∀ var ∈ vars, var.ty.isArray = true → var.name.name ≠ x) →
      Conducts P vars chain.vars fun locals => m.noting.conditional locals chain
  | .mk cond (.mk stmts _) otherwise _, inside, scalar =>
    .ite (fun locals => accounts.condition Accounts.stepwise locals cond)
      (noteStmts stmts ((sublist_append_left _ _).trans inside)
        fun x member => scalar x (mem_append_left _ member))
      (noteOtherwise otherwise ((sublist_append_right _ _).trans inside)
        fun x member => scalar x (mem_append_right _ member))

theorem noteOtherwise : (otherwise : Otherwise) → otherwise.vars.Sublist vars →
      (∀ x ∈ otherwise.targets, ∀ var ∈ vars, var.ty.isArray = true → var.name.name ≠ x) →
      Conducts P vars otherwise.vars fun locals => m.noting.otherwise locals otherwise
  | .absent, _, _ => .of_same (z := fun _ => pure ()) (f := fun _ => .next) fun _ => .pure ()
  | .elif chain, inside, scalar => noteConditional chain inside scalar
  | .orElse (.mk stmts _), inside, scalar => noteStmts stmts inside scalar

end

end Meaning.Accounts

/-! ## Functions -/

/-- Destroy arrays one after the other. -/
def destroyAll : List Value → Eval ω Unit
  | [] => return
  | array :: arrays => do
    destroyArray array
    destroyAll arrays

theorem destroyAll_of_destroyAll? {values : List Value}
    (destroyed : store.arrays.destroyAll? (values.map Value.handle) = some arrays) (choices : List Value) :
    destroyAll values store choices = (.ok (), { store with arrays }, choices) := by
  induction values generalizing store with
  | nil =>
    cases destroyed
    rfl
  | cons value values ih =>
    obtain ⟨arrays1, first, destroyed⟩ := ArrayHeap.destroyAll?_cons.1 destroyed
    have one : (destroyArray value : Eval ω Unit) store choices =
        (.ok (), { store with arrays := arrays1 }, choices) := by
      rw [destroyArray, Eval.onArrays, first]
    change Eval.bind (destroyArray value) (fun _ => destroyAll values) store choices = _
    rw [Eval.bind, one]
    exact ih destroyed

/-- Destroying the arrays of a function destroys what is in its owned arrays; one that nothing was stored
in names no array. -/
theorem destroyOwned_eq (locals : Locals) (vars : List VarDecl) : (destroyOwned locals vars : Eval ω Unit) =
      destroyAll ((vars.filter (·.ty.isOwnedArray)).map fun v => (locals v.name.name).getD 0) := by
  induction vars with
  | nil => rfl
  | cons var vars ih =>
    rw [destroyOwned, ih]
    cases owned : var.ty.isOwnedArray with
    | false =>
      rw [filter_cons_of_neg (by simp [owned])]
      cases locals var.name.name <;> rfl
    | true =>
      rw [filter_cons_of_pos (by simp [owned]), map_cons, destroyAll]
      cases locals var.name.name with
      | some array => rfl
      | none =>
        rfl

theorem destroyOwned_of_destroyAll? {vars : List VarDecl}
    (destroyed : store.arrays.destroyAll? (locals.owned vars) = some arrays) (choices : List Value) :
    destroyOwned locals vars store choices = (.ok (), { store with arrays }, choices) := by
  rw [destroyOwned_eq]
  refine destroyAll_of_destroyAll? ?_ choices
  rw [map_map]
  exact destroyed

theorem listVars_stmts (block : Block) : Stmt.listVars block.stmts = block.vars := by
  cases block
  rfl

theorem listTargets_stmts (block : Block) : Stmt.listTargets block.stmts = block.targets := by
  cases block
  rfl

theorem bindParams_of_not_mem {params : List Param} {x : String} (absent : x ∉ params.map (·.name.name)) :
    bindParams params args x = none := by
  induction params generalizing args with
  | nil => rfl
  | cons param params ih =>
    cases args with
    | nil => rfl
    | cons arg args =>
      simp only [map_cons, mem_cons, not_or] at absent
      rw [bindParams, Locals.set_of_ne _ _ absent.1, ih absent.2]

namespace Linked

variable {u : Linked ω} {invoke : Nat → List Value → Eval (Noted ω) Value} {decl : FunctionDecl}

/-- A program whose functions are orderly, with an outside that leaves the arrays of the program alone. -/
structure Orderly (u : Linked ω) : Prop where
  unassigned : ∀ ty store choices, (u.unassigned ty store choices).2.1.arrays = store.arrays
  native : ∀ i args store choices, (u.native i args store choices).2.1.arrays = store.arrays
  body : ∀ decl ∈ u.functions, ∀ body, decl.body = some body → decl.linkage.isSome = false → decl.Orderly body

variable (u) in
/-- Some function with a body of its own declares a variable. -/
def Declared (var : VarDecl) : Prop :=
  ∃ decl ∈ u.functions, ∃ body, decl.body = some body ∧ var ∈ body.vars

section
variable (orderly : u.Orderly)
include orderly

variable {body : Block}

section
variable (accounts : ∀ i args, Accounts P (invoke i args))
include accounts

theorem Orderly.meaning (locals : List (String × Ty)) :
    (u.noted.meaning invoke locals).Accounts P :=
  ⟨rfl, rfl, rfl, rfl, rfl, rfl, fun ty => .noted (orderly.unassigned ty), fun _ i _ args _ _ => accounts i args⟩

theorem Orderly.owns_noteStmts
    (ordered : decl.Orderly body) (declared : ∀ var ∈ body.vars, P var) {store store' : Store (Noted ω)}
    (consistent : store.arrays.Consistent)
    (ran : (u.noted.meaning invoke (localTypes decl.params body)).noting.stmts (bindParams decl.params args)
      body.stmts store choices = (.ok (locals, flow), store', rest)) : Owns P body.vars store locals store' := by
  have distinct := nodup_append.1 ordered.distinct
  have unset : ∀ var ∈ body.vars, bindParams decl.params args var.name.name = none := by
    intro var member
    apply bindParams_of_not_mem
    intro param
    exact distinct.2.2 _ param _ (mem_map.2 ⟨var, member, rfl⟩) rfl
  have vars := listVars_stmts body
  have targets := listTargets_stmts body
  have conducts := (orderly.meaning accounts (localTypes decl.params body)).noteStmts distinct.2.1 declared
    body.stmts (vars ▸ List.Sublist.refl _) (targets ▸ ordered.scalar)
  rw [vars] at conducts
  have owns := Owns.of_start (P := P) consistent (Locals.held_of_none fun var member _ => unset var member)
  exact (conducts store _ store choices locals flow store' rest owns (fun var member _ => unset var member)
    ran).1

/-- A body accounts for its arrays: what it declares is destroyed when it ends. -/
theorem Orderly.accounts_noteBody (ordered : decl.Orderly body) (declared : ∀ var ∈ body.vars, P var)
    (args : List Value) : Accounts P (u.noted.noteBody invoke decl body args) := by
  intro store choices v store' rest consistent ran
  obtain ⟨⟨locals, flow⟩, store1, rest1, ran1, ran⟩ := Eval.bind_eq_ok ran
  have owns := orderly.owns_noteStmts accounts ordered declared consistent ran1
  obtain ⟨arrays, destroyed, accounted⟩ := owns.exists_destroyAll
  obtain ⟨_, store2, rest2, ran2, ran⟩ := Eval.bind_eq_ok ran
  cases (destroyOwned_of_destroyAll? destroyed rest1).symm.trans ran2
  cases flow with
  | ret v =>
    cases ran
    exact accounted
  | next =>
    by_cases void : decl.ret.isVoid = true
    · rw [if_pos void] at ran
      cases ran
      exact accounted
    · rw [if_neg void] at ran
      cases ran

end

/-- A call that gives a result accounts for the arrays, by recursion on the room for calls inside it. -/
theorem Orderly.accounts_noteInvoke (room i : Nat) (args : List Value) :
    Accounts u.Declared (u.noteInvoke room i args) := by
  refine u.noted.invokeWith_induct (v := u) (g := u.runBody) (P := fun _ _ _ x _ => Accounts u.Declared x) rfl
    (fun _ _ _ _ _ => .stop _) (fun _ i args _ _ _ => .noted (orderly.native i args)) ?_ room i args
  intro room calls i args decl body found has own
  have member := mem_of_getElem? found
  exact orderly.accounts_noteBody calls (orderly.body decl member body has own)
    (fun var listed => ⟨decl, member, body, has, listed⟩) args

theorem Orderly.accounts_noteRun (room : Nat) : Accounts u.Declared (u.noteRun room) :=
  u.noted.runWith_cases (v := u) (g := u.runBody) (n := room) (P := fun x _ => Accounts u.Declared x) rfl
    (.stop _) fun i _ _ _ => orderly.accounts_noteInvoke room i []

theorem Orderly.exists_destroyAll {room : Nat} (member : decl ∈ u.functions)
    (has : decl.body = some body) (own : decl.linkage.isSome = false)
    (consistent : store.arrays.Consistent)
    (ran : (u.meaning (u.invoke room) (localTypes decl.params body)).evalStmts (bindParams decl.params args)
      body.stmts store choices = (.ok (locals, flow), store', rest)) :
    ∃ arrays, store'.arrays.destroyAll? (locals.owned body.vars) = some arrays := by
  -- The same evaluation beside notes holds the same arrays.
  obtain ⟨notes, noted⟩ := ((erases_meaning (u.erases_noteInvoke room) _).noting _ body.stmts).exists_kept ran []
  have owns := orderly.owns_noteStmts (orderly.accounts_noteInvoke room) (orderly.body decl member body has own)
    (fun var listed => ⟨decl, member, body, has, listed⟩) consistent noted
  obtain ⟨arrays, destroyed, -⟩ := owns.exists_destroyAll
  exact ⟨arrays, destroyed⟩

end

end Linked

end Evaluation

end RegisterLang
