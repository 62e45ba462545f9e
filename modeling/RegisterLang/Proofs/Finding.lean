import RegisterLang.Proofs.Exposure
import RegisterLang.Proofs.Ownership
import RegisterLang.Proofs.Tracing

/-! # Finding arrays

A handle can be used when it names an array, or when it is null where that may be. An array that is a constant and that
its function does not expose is sealed once it has been filled. An evaluation finds its arrays when it does not stop
because of a handle that cannot be used, stores to no element of a sealed array, and the arrays that it seals are new,
from whatever heap in which the arrays are that it starts with. Main statements: `Finds.bind`, that such evaluations can
follow each other, and a rule for each thing that an evaluation does to arrays.
-/

namespace RegisterLang

open List

/-! ## Heaps that go on -/

namespace ArrayHeap

variable {h h1 h' : ArrayHeap} {handle : UInt32} {nullable : Prop}

/-- A consistent heap in which the arrays of another one are still there. -/
structure Lasts (h h' : ArrayHeap) : Prop where
  consistent : h'.Consistent
  kept : ∀ handle, h.Live handle → h'.Live handle

theorem Lasts.refl (consistent : h.Consistent) : h.Lasts h :=
  ⟨consistent, fun _ => id⟩

theorem Creates.live_iff {length : Nat} (creates : Creates h length handle h') (other : UInt32) :
    h'.Live other ↔ h.Live other ∨ other = handle := by
  by_cases same : other = handle
  · subst same
    exact ⟨fun _ => .inr rfl, fun _ => ⟨_, creates.array⟩⟩
  · unfold Live
    rw [creates.others other same]
    exact ⟨.inl, fun live => live.resolve_right same⟩

theorem Creates.lasts {length : Nat} (creates : Creates h length handle h') : h.Lasts h' :=
  ⟨creates.consistent, fun other live => (creates.live_iff other).2 (.inl live)⟩

theorem Writes.live_iff {index : Nat} {v : Value} (writes : Writes h handle index v h') (other : UInt32) :
    h'.Live other ↔ h.Live other := by
  obtain ⟨array, found, -, written⟩ := writes.array
  by_cases same : other = handle
  · subst same
    exact ⟨fun _ => ⟨array, found⟩, fun _ => ⟨_, written⟩⟩
  · unfold Live
    rw [writes.others other same]

theorem Writes.lasts {index : Nat} {v : Value} (consistent : h.Consistent)
    (writes : Writes h handle index v h') : h.Lasts h' :=
  ⟨writes.consistent consistent, fun other => (writes.live_iff other).2⟩

theorem not_live_zero : ¬ h.Live 0 :=
  fun ⟨_, found⟩ => (array?_eq_ok.1 found).1 rfl

theorem array?_eq_error {fault : Fault} (failed : h.array? handle = .error fault) :
    handle = 0 ∧ fault = .nullArray ∨ fault = .staleArray handle := by
  unfold array? at failed
  split at failed
  · next null =>
    cases failed
    exact .inl ⟨null, rfl⟩
  · split at failed
    · cases failed
    · cases failed
      exact .inr rfl

theorem live_iff_of_destroy (destroyed : h.destroy handle = (.ok (), h')) (other : UInt32) :
    h'.Live other ↔ h.Live other ∧ other ≠ handle := by
  by_cases null : handle = 0
  · subst null
    cases destroyed
    refine ⟨fun live => ⟨live, ?_⟩, And.left⟩
    rintro rfl
    exact not_live_zero live
  · have destroys := destroys_of_destroy null destroyed
    by_cases same : other = handle
    · subst same
      refine ⟨fun ⟨array, found⟩ => ?_, fun ⟨_, apart⟩ => absurd rfl apart⟩
      cases destroys.stale.symm.trans found
    · unfold Live
      rw [destroys.others other same]
      exact ⟨fun live => ⟨live, same⟩, And.left⟩

theorem live_of_destroyAll? {handles : List UInt32} (destroyed : h.destroyAll? handles = some h')
    (live : h.Live handle) (apart : handle ∉ handles) : h'.Live handle := by
  induction handles generalizing h with
  | nil =>
    cases destroyed
    exact live
  | cons first handles ih =>
    rw [mem_cons, not_or] at apart
    obtain ⟨h1, one, destroyed⟩ := destroyAll?_cons.1 destroyed
    exact ih destroyed ((live_iff_of_destroy one handle).2 ⟨live, apart.1⟩) apart.2

/-- A handle that names an array, or none where that may be. -/
def Usable (nullable : Prop) (h : ArrayHeap) (handle : UInt32) : Prop :=
  h.Live handle ∨ nullable ∧ handle = 0

theorem Usable.lasts (usable : h.Usable nullable handle) (lasts : h.Lasts h') : h'.Usable nullable handle :=
  usable.imp_left (lasts.kept handle)

theorem Usable.of_error (usable : h.Usable nullable handle) {fault : Fault}
    (failed : h.array? handle = .error fault) : fault = .nullArray ∧ nullable := by
  rcases usable with ⟨array, found⟩ | ⟨null, rfl⟩
  · cases found.symm.trans failed
  · cases failed
    exact ⟨rfl, null⟩

end ArrayHeap

/-- A fault that is no use of an array that is not there, unless it is null where that may be. -/
def Fault.Harmless (nullable : Prop) (fault : Fault) : Prop :=
  fault.trap? ≠ some .staleArray ∧ (fault.trap? = some .nullArray → nullable)

namespace ArrayHeap

variable {h h' : ArrayHeap} {handle : UInt32} {nullable : Prop} {fault : Fault}

theorem Usable.harmless (usable : h.Usable nullable handle) (failed : h.array? handle = .error fault) :
    fault.Harmless nullable := by
  obtain ⟨rfl, null⟩ := usable.of_error failed
  exact ⟨by simp [Fault.trap?], fun _ => null⟩

theorem Usable.harmless_get (usable : h.Usable nullable handle) {index : UInt64}
    (failed : h.get handle index = (.error fault, h')) : fault.Harmless nullable := by
  unfold get at failed
  cases found : h.array? handle with
  | error fault' =>
    rw [found] at failed
    cases failed
    exact usable.harmless found
  | ok array =>
    rw [found] at failed
    dsimp only at failed
    split at failed
    · cases failed
    · cases failed
      exact ⟨by simp [Fault.trap?], by simp [Fault.trap?]⟩

theorem Usable.harmless_set (usable : h.Usable nullable handle) {index : UInt64} {v : Value}
    (failed : h.set handle index v = (.error fault, h')) : fault.Harmless nullable := by
  unfold set length at failed
  cases found : h.array? handle with
  | error fault' =>
    rw [found] at failed
    cases failed
    exact usable.harmless found
  | ok array =>
    rw [found] at failed
    dsimp only [Except.map] at failed
    split at failed
    · cases failed
    · cases failed
      exact ⟨by simp [Fault.trap?], by simp [Fault.trap?]⟩

theorem harmless_create {length : UInt64} (failed : h.create length = (.error fault, h')) :
    fault.Harmless nullable := by
  cases create_error failed
  exact ⟨by simp [Fault.trap?], by simp [Fault.trap?]⟩

end ArrayHeap

namespace Evaluation

variable {ω α β : Type} {nullable : Prop}

/-! ## Arrays that are sealed -/

namespace Trace

/-- An array was filled that is a constant and that its function does not expose. -/
def Sealed (t : Trace) (handle : UInt32) : Prop :=
  ∃ decl var, .filled decl var handle ∈ t.events ∧ decl.Secludes var

/-- No element of an array is stored to behind the event that sealed it. -/
def Intact (t : Trace) : Prop :=
  t.events.Pairwise fun e e' => ∀ decl var handle, e = .filled decl var handle → decl.Secludes var →
    e' ≠ .element handle

variable {t : Trace} {e : Event} {handle : UInt32}

theorem sealed_tell : (t.tell [e]).Sealed handle ↔
    t.Sealed handle ∨ ∃ decl var, e = .filled decl var handle ∧ decl.Secludes var := by
  constructor
  · rintro ⟨decl, var, told, secludes⟩
    rcases mem_append.1 told with told | new
    · exact .inl ⟨decl, var, told, secludes⟩
    · exact .inr ⟨decl, var, (mem_singleton.1 new).symm, secludes⟩
  · rintro (⟨decl, var, told, secludes⟩ | ⟨decl, var, rfl, secludes⟩)
    · exact ⟨decl, var, mem_append_left _ told, secludes⟩
    · exact ⟨decl, var, mem_append_right _ (.head _), secludes⟩

theorem Sealed.of_tell (filled : ∀ decl var handle, e ≠ .filled decl var handle)
    (isSealed : (t.tell [e]).Sealed handle) : t.Sealed handle := by
  rcases sealed_tell.1 isSealed with before | ⟨decl, var, same, -⟩
  · exact before
  · exact absurd same (filled decl var handle)

theorem Intact.tell (intact : t.Intact) (apart : ∀ handle, e = .element handle → ¬ t.Sealed handle) :
    (t.tell [e]).Intact := by
  refine pairwise_append.2 ⟨intact, pairwise_singleton _ _, fun e' member e'' new => ?_⟩
  rintro decl var handle rfl secludes same
  cases mem_singleton.1 new
  exact apart handle same ⟨decl, var, member, secludes⟩

end Trace

/-- What matters for sealed arrays: the arrays that there are, and what happened so far. -/
structure View where
  heap : ArrayHeap
  trace : Trace

/-- What matters of a store. -/
def Store.view (store : Store (Traced ω)) : View :=
  ⟨store.arrays, store.trace⟩

namespace View

/-- Sealed arrays are there, and none of their elements was stored to. -/
structure Fit (v : View) : Prop where
  consistent : v.heap.Consistent
  intact : v.trace.Intact
  live : ∀ handle, v.trace.Sealed handle → v.heap.Live handle

/-- A view that goes on from another one: no array is gone, and what was sealed in between is new. -/
structure Later (v v' : View) : Prop extends Fit v' where
  kept : ∀ handle, v.heap.Live handle → v'.heap.Live handle
  new : ∀ handle, v'.trace.Sealed handle → v.trace.Sealed handle ∨ ¬ v.heap.Live handle

/-- A handle that elements may be stored through: it can be used, and names no sealed array. -/
def Clear (nullable : Prop) (v : View) (handle : UInt32) : Prop :=
  v.heap.Usable nullable handle ∧ ¬ v.trace.Sealed handle

variable {v v1 v' : View} {handle : UInt32}

theorem Later.refl (fit : v.Fit) : v.Later v :=
  ⟨fit, fun _ => id, fun _ => .inl⟩

theorem Later.trans (first : v.Later v1) (second : v1.Later v') : v.Later v' where
  toFit := second.toFit
  kept handle live := second.kept handle (first.kept handle live)
  new handle isSealed := by
    rcases second.new handle isSealed with before | fresh
    · exact first.new handle before
    · exact .inr fun live => fresh (first.kept handle live)

theorem Later.lasts (later : v.Later v') : v.heap.Lasts v'.heap :=
  ⟨later.consistent, later.kept⟩

theorem Later.of_lasts (fit : v.Fit) (lasts : v.heap.Lasts v'.heap) (same : v'.trace = v.trace) : v.Later v' := by
  obtain ⟨heap, trace⟩ := v'
  cases same
  exact ⟨⟨lasts.consistent, fit.intact, fun handle isSealed => lasts.kept handle (fit.live handle isSealed)⟩,
    lasts.kept, fun _ => .inl⟩

/-- Arrays that were made since then are destroyed, and none of them is sealed. -/
theorem Later.of_destroyed (later : v.Later v1) (lasts : v.heap.Lasts v'.heap) (same : v'.trace = v1.trace)
    (live : ∀ handle, v1.trace.Sealed handle → v'.heap.Live handle) : v.Later v' := by
  obtain ⟨heap, trace⟩ := v'
  cases same
  exact ⟨⟨lasts.consistent, later.intact, live⟩, lasts.kept, later.new⟩

/-- Something is told that neither seals an array nor stores to an element of one that is sealed. -/
theorem Later.tell {heap : ArrayHeap} {t : Trace} {e : Event} (later : v.Later ⟨heap, t⟩)
    (filled : ∀ decl var handle, e ≠ .filled decl var handle)
    (apart : ∀ handle, e = .element handle → ¬ t.Sealed handle) : v.Later ⟨heap, t.tell [e]⟩ where
  consistent := later.consistent
  intact := later.intact.tell apart
  live handle isSealed := later.live handle (isSealed.of_tell filled)
  kept := later.kept
  new handle isSealed := later.new handle (isSealed.of_tell filled)

theorem Later.tell_params {heap : ArrayHeap} {t : Trace} (later : v.Later ⟨heap, t⟩) (call : Nat)
    (params : List Param) : v.Later ⟨heap, t.tell (paramEvents call params)⟩ := by
  induction params generalizing t with
  | nil =>
    rw [paramEvents, map_nil, Trace.tell, append_nil]
    exact later
  | cons param params ih =>
    have rest := ih (later.tell (e := .own call param.name.name param.ty) (by simp) (by simp))
    rw [Trace.tell, Trace.tell, append_assoc] at rest
    exact rest

theorem Fit.not_sealed_zero (fit : v.Fit) : ¬ v.trace.Sealed 0 :=
  fun isSealed => ArrayHeap.not_live_zero (fit.live 0 isSealed)

theorem Clear.later (clear : v.Clear nullable handle) (later : v.Later v') : v'.Clear nullable handle := by
  refine ⟨clear.1.lasts later.lasts, fun isSealed => ?_⟩
  rcases later.new handle isSealed with before | fresh
  · exact clear.2 before
  · rcases clear.1 with live | ⟨-, rfl⟩
    · exact fresh live
    · exact later.not_sealed_zero isSealed

end View

/-! ## Evaluations that find their arrays -/

/-- A reason to stop that is no use of an array that is not there, unless it is null where that may be. -/
def Stop.Harmless (nullable : Prop) (reason : Stop) : Prop :=
  reason ≠ .trap .staleArray ∧ (reason = .trap .nullArray → nullable)

theorem Stop.harmless_stuck : Harmless nullable .stuck :=
  ⟨by simp, by simp⟩

/-- What becomes of a view when an evaluation ends without using an array that is not there or storing to an element of
a sealed one. -/
inductive Found (nullable : Prop) (v : View) (wanted : α → View → Prop) :
    Except Stop α × Store (Traced ω) × List Value → Prop where
  | ok {a : α} {store : Store (Traced ω)} {rest : List Value} (later : v.Later store.view)
      (holds : wanted a store.view) : Found nullable v wanted (.ok a, store, rest)
  | stop {reason : Stop} {store : Store (Traced ω)} {rest : List Value} (harmless : reason.Harmless nullable)
      (intact : store.trace.Intact) : Found nullable v wanted (.error reason, store, rest)

/-- From every view that goes on from `v`, an evaluation uses no array that is not there, stores to no element of a
sealed array and seals new arrays only, and `wanted` holds of what it gives and of the view behind it. -/
def Finds (nullable : Prop) (v : View) (x : Eval (Traced ω) α) (wanted : α → View → Prop) : Prop :=
  ∀ store choices, v.Later store.view → Found nullable store.view wanted (x store choices)

theorem Found.intact {v : View} {wanted : α → View → Prop} {out : Except Stop α × Store (Traced ω) × List Value}
    (found : Found nullable v wanted out) : out.2.1.trace.Intact := by
  cases found with
  | ok later _ => exact later.intact
  | stop _ intact => exact intact

namespace Finds

variable {v : View} {x : Eval (Traced ω) α} {wanted : α → View → Prop}

theorem pure {a : α} (holds : ∀ v', v.Later v' → wanted a v') :
    Finds nullable v (Pure.pure a : Eval (Traced ω) α) wanted :=
  fun _ _ later => .ok (.refl later.toFit) (holds _ later)

theorem stop {reason : Stop} (harmless : reason.Harmless nullable) :
    Finds nullable v (Eval.stop reason : Eval (Traced ω) α) wanted :=
  fun _ _ later => .stop harmless later.intact

theorem bind {f : α → Eval (Traced ω) β} {wanted' : β → View → Prop} (first : Finds nullable v x wanted)
    (second : ∀ a v', v.Later v' → wanted a v' → Finds nullable v' (f a) wanted') :
    Finds nullable v (x >>= f) wanted' := by
  intro store choices later
  change Found nullable store.view wanted' (Eval.bind x f store choices)
  unfold Eval.bind
  have found := first store choices later
  generalize x store choices = out at found ⊢
  cases found with
  | stop harmless intact => exact .stop harmless intact
  | @ok a store' rest later' holds =>
    have found := second a _ (later.trans later') holds store' rest (.refl later'.toFit)
    dsimp only
    generalize f a store' rest = out at found ⊢
    cases found with
    | stop harmless intact => exact .stop harmless intact
    | ok later'' holds' => exact .ok (later'.trans later'') holds'

theorem mono {wanted' : α → View → Prop} (finds : Finds nullable v x wanted)
    (less : ∀ a v', v.Later v' → wanted a v' → wanted' a v') : Finds nullable v x wanted' := by
  intro store choices later
  have found := finds store choices later
  generalize x store choices = out at found ⊢
  cases found with
  | stop harmless intact => exact .stop harmless intact
  | ok later' holds => exact .ok later' (less _ _ (later.trans later') holds)

theorem of_still (still : ∀ store choices, (x store choices).2.1.view = store.view)
    (calm : ∀ store choices reason, (x store choices).1 = .error reason → reason.Harmless nullable)
    (holds : ∀ store choices a, (x store choices).1 = .ok a → ∀ v', wanted a v') : Finds nullable v x wanted := by
  intro store choices later
  have same := still store choices
  have calm := calm store choices
  have holds := holds store choices
  generalize x store choices = out at same calm holds ⊢
  obtain ⟨reason | a, store', rest⟩ := out
  · refine .stop (calm reason rfl) (?_ : store'.view.trace.Intact)
    rw [same]
    exact later.intact
  · refine .ok ?_ (holds a rfl _)
    rw [same]
    exact .refl later.toFit

/-- What leaves the arrays alone and uses none of them, and knows nothing of the trace. -/
theorem keeping {y : Eval ω α} (still : ∀ store choices, (y store choices).2.1.arrays = store.arrays)
    (calm : ∀ store choices reason, (y store choices).1 = .error reason → reason.Harmless nullable)
    (holds : ∀ store choices a, (y store choices).1 = .ok a → ∀ v', wanted a v') : Finds nullable v y.keeping wanted :=
  .of_still (fun store choices => congrArg (View.mk · store.trace) (still (store.seen Prod.fst) choices))
    (fun store => calm (store.seen Prod.fst)) fun store => holds (store.seen Prod.fst)

theorem getGlobal (index : Nat) :
    Finds nullable v (Eval.getGlobal index : Eval (Traced ω) Value) fun _ _ => True := by
  refine .of_still (fun store choices => ?_) (fun store choices reason => ?_) fun _ _ _ _ _ => trivial
  · unfold Eval.getGlobal
    cases store.globals[index]? <;> rfl
  · unfold Eval.getGlobal
    cases store.globals[index]? with
    | some v => exact fun impossible => nomatch impossible
    | none =>
      intro same
      cases same
      exact Stop.harmless_stuck

/-- Something is told that neither seals an array nor stores to an element of one that is sealed. -/
theorem tell {e : Event} (filled : ∀ decl var handle, e ≠ .filled decl var handle)
    (apart : ∀ handle, e = .element handle → v.Clear nullable handle) :
    Finds nullable v (Eval.tell [e] : Eval (Traced ω) Unit) fun _ _ => True :=
  fun _ _ later => .ok ((View.Later.refl later.toFit).tell filled fun handle same =>
    ((apart handle same).later later).2) trivial

theorem storeGlobal (index : Nat) (ty : Ty) (w : Value) :
    Finds nullable v (Evaluation.storeGlobal index ty w : Eval (Traced ω) Unit) fun _ _ => True :=
  .bind (.of_still (fun _ _ => rfl) (fun _ _ _ impossible => nomatch impossible) fun _ _ _ _ _ => trivial)
    fun _ _ _ (_ : True) => .tell (by simp) (by simp)

theorem onArrays {f : ArrayHeap → Except Fault α × ArrayHeap}
    (succeeds : ∀ v' a h, v.Later v' → f v'.heap = (.ok a, h) → v'.heap.Lasts h ∧ wanted a ⟨h, v'.trace⟩)
    (fails : ∀ v' fault h, v.Later v' → f v'.heap = (.error fault, h) → fault.Harmless nullable) :
    Finds nullable v (Eval.onArrays f : Eval (Traced ω) α) wanted := by
  intro store choices later
  unfold Eval.onArrays
  rcases used : f store.arrays with ⟨fault | a, arrays⟩
  · obtain ⟨stale, null⟩ := fails _ fault _ later used
    refine .stop ?_ later.intact
    cases trap : fault.trap? with
    | none => exact Stop.harmless_stuck
    | some t =>
      rw [trap] at stale null
      refine ⟨fun same => ?_, fun same => ?_⟩
      · cases same
        exact stale rfl
      · cases same
        exact null rfl
  · obtain ⟨lasts, holds⟩ := succeeds _ _ _ later used
    exact .ok (.of_lasts later.toFit lasts rfl) holds

theorem newArray (length : Nat) :
    Finds nullable v (Evaluation.newArray length : Eval (Traced ω) Value) fun array v' =>
      v'.heap.Live array.handle ∧ ¬ v'.trace.Sealed array.handle ∧ ¬ v.heap.Live array.handle := by
  have made : Finds nullable v (Eval.onArrays fun h => h.create (UInt64.ofNat length) : Eval (Traced ω) UInt32)
      fun handle v' => v'.heap.Live handle ∧ ¬ v'.trace.Sealed handle ∧ ¬ v.heap.Live handle := by
    refine .onArrays (fun v' handle h later created => ?_) fun v' fault h _ => ArrayHeap.harmless_create
    have creates := ArrayHeap.creates_of_create later.consistent created
    exact ⟨creates.lasts, ⟨_, creates.array⟩, fun isSealed => creates.fresh (later.live _ isSealed),
      fun live => creates.fresh (later.kept _ live)⟩
  have later : ∀ {v1 v2 : View} {handle : UInt32}, v1.Later v2 → v1.heap.Live handle ∧ ¬ v1.trace.Sealed handle ∧
      ¬ v.heap.Live handle → v2.heap.Live handle ∧ ¬ v2.trace.Sealed handle ∧ ¬ v.heap.Live handle :=
    fun later ⟨live, open', fresh⟩ =>
      ⟨later.kept _ live, (View.Clear.later (⟨.inl live, open'⟩ : View.Clear nullable _ _) later).2, fresh⟩
  refine .bind (.bind made fun handle v1 later1 new => .pure fun v2 later2 => ?_) fun array v3 later3 new =>
    .bind (.tell (by simp) (by simp)) fun _ v4 later4 _ => .pure fun v' later' => later (later4.trans later') new
  rw [Value.handle_ofHandle]
  exact later later2 new

theorem readElement {array : Value} (index : Value) (usable : v.heap.Usable nullable array.handle) :
    Finds nullable v (Evaluation.readElement array index : Eval (Traced ω) Value) fun _ _ => True := by
  refine .onArrays (fun v' a h later read => ?_) fun v' fault h later => (usable.lasts later.lasts).harmless_get
  obtain rfl : v'.heap = h := by rw [← ArrayHeap.get_snd v'.heap array.handle index, read]
  exact ⟨.refl later.consistent, trivial⟩

theorem storeElement {array : Value} (index w : Value) (clear : v.Clear nullable array.handle) :
    Finds nullable v (Evaluation.storeElement array index w : Eval (Traced ω) Unit) fun _ _ => True := by
  have written : Finds nullable v (Evaluation.writeElement array index w : Eval (Traced ω) Unit)
      fun _ _ => True :=
    .onArrays (fun v' _ h later written => ⟨(ArrayHeap.writes_of_set written).lasts later.consistent, trivial⟩)
      fun v' fault h later => (clear.1.lasts later.lasts).harmless_set
  refine .bind written fun _ v' later _ => .tell (by simp) fun handle same => ?_
  cases same
  exact clear.later later

/-- An array that was made since then is told to be filled, which seals it where its function secludes it. -/
theorem bind_filled {x : Eval (Traced ω) Value} {f : Value → Eval (Traced ω) β} {wanted : β → View → Prop}
    {decl : FunctionDecl} {var : VarDecl}
    (first : ∀ v1, v.Later v1 → Finds nullable v1 x fun array v' => v'.heap.Live array.handle ∧
      ¬ v'.trace.Sealed array.handle ∧ ¬ v1.heap.Live array.handle)
    (second : ∀ array v1 v', v.Later v1 → v1.Later v' → v'.heap.Live array.handle → ¬ v1.heap.Live array.handle →
      (¬ decl.Secludes var → ¬ v'.trace.Sealed array.handle) → Finds nullable v' (f array) wanted) :
    Finds nullable v (x >>= fun array => Eval.tell [.filled decl var array.handle] >>= fun _ => f array) wanted := by
  intro store choices later
  change Found nullable store.view wanted (Eval.bind x _ store choices)
  unfold Eval.bind
  have found := first store.view later store choices (.refl later.toFit)
  generalize x store choices = out at found ⊢
  cases found with
  | stop harmless intact => exact .stop harmless intact
  | @ok array store' rest later' holds =>
    obtain ⟨live, open', fresh⟩ := holds
    have told : store.view.Later (store'.tell [.filled decl var array.handle]).view := by
      refine ⟨⟨later'.consistent, later'.intact.tell (by simp), fun handle isSealed => ?_⟩, later'.kept,
        fun handle isSealed => ?_⟩
      · rcases Trace.sealed_tell.1 isSealed with before | ⟨_, _, same, -⟩
        · exact later'.live handle before
        · cases same
          exact live
      · rcases Trace.sealed_tell.1 isSealed with before | ⟨_, _, same, -⟩
        · exact later'.new handle before
        · cases same
          exact .inr fresh
    have found := second array _ _ later told live fresh (fun other isSealed => ?_) _ rest (.refl told.toFit)
    · change Found nullable store.view wanted (f array (store'.tell [.filled decl var array.handle]) rest)
      generalize f array (store'.tell [.filled decl var array.handle]) rest = out at found ⊢
      cases found with
      | stop harmless intact => exact .stop harmless intact
      | ok later'' holds => exact .ok (told.trans later'') holds
    · rcases Trace.sealed_tell.1 isSealed with before | ⟨_, _, same, secludes⟩
      · exact open' before
      · cases same
        exact other secludes

theorem number : Finds nullable v (Eval.number : Eval (Traced ω) Nat) fun _ _ => True :=
  fun _ _ later => .ok ⟨⟨later.consistent, later.intact, later.live⟩, fun _ => id, fun _ => .inl⟩ trivial

theorem tell_params (call : Nat) (params : List Param) :
    Finds nullable v (Eval.tell (paramEvents call params) : Eval (Traced ω) Unit) fun _ _ => True :=
  fun _ _ later => .ok ((View.Later.refl later.toFit).tell_params call params) trivial

theorem get (a : Answer) : Finds nullable v (a.get : Eval (Traced ω) Value) fun w _ => a = .value w := by
  cases a with
  | value w => exact .pure fun _ _ => rfl
  | nothing | comparison _ => exact .stop Stop.harmless_stuck

theorem applyBinary (op : BinOp) (ty : Ty) (a b : Value) :
    Finds nullable v (Evaluation.applyBinary op ty a b : Eval (Traced ω) Answer) fun _ _ => True := by
  unfold Evaluation.applyBinary
  split
  · exact .pure fun _ _ => trivial
  split
  · exact .pure fun _ _ => trivial
  · exact .stop ⟨by simp, by simp⟩

end Finds

end Evaluation

end RegisterLang
