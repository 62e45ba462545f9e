import RegisterLang.Proofs.Execution

/-! # Runs that follow evaluations

A run of code follows an evaluation when it gets to a place where the evaluation has given its result, or
ends in the fault that the evaluation ends in. Main statement: `Sim.bind`, a run follows two evaluations in
a row when it follows one after the other.
-/

namespace RegisterLang

namespace Evaluation

variable {ω α β : Type}

/-- An evaluation that chooses the values `used` gives a result and a store, and leaves the other
choices. -/
def Yields (x : Eval ω α) (used : List Value) (store : Store ω) (r : Except Stop α)
    (store' : Store ω) : Prop :=
  ∀ more, x store (used ++ more) = (r, store', more)

namespace Yields

theorem pure (a : α) (store : Store ω) : Yields (Pure.pure a) [] store (.ok a) store :=
  fun _ => rfl

theorem stop (reason : Stop) (store : Store ω) :
    Yields (Eval.stop reason : Eval ω α) [] store (.error reason) store :=
  fun _ => rfl

theorem bind {x : Eval ω α} {f : α → Eval ω β} {used used' : List Value} {a : α}
    {r : Except Stop β} {store store' store'' : Store ω} (first : Yields x used store (.ok a) store')
    (second : Yields (f a) used' store' r store'') : Yields (x >>= f) (used ++ used') store r store'' := by
  intro more
  change Eval.bind x f store _ = _
  rw [Eval.bind, List.append_assoc, first]
  exact second more

theorem bind_error {x : Eval ω α} (f : α → Eval ω β) {used : List Value} {reason : Stop}
    {store store' : Store ω} (first : Yields x used store (.error reason) store') :
    Yields (x >>= f) used store (.error reason) store' := by
  intro more
  change Eval.bind x f store _ = _
  rw [Eval.bind, first]

end Yields

end Evaluation

/-! ## Faults of arrays -/

namespace ArrayHeap

variable {h h' : ArrayHeap} {handle : UInt32} {fault : Fault}

theorem trap_of_array? (failed : h.array? handle = .error fault) : ∃ t, fault.trap? = some t := by
  rw [array?] at failed
  split at failed
  · cases failed
    exact ⟨_, rfl⟩
  split at failed
  · cases failed
  · cases failed
    exact ⟨_, rfl⟩

theorem trap_of_create {length : UInt64} (failed : h.create length = (.error fault, h')) :
    ∃ t, fault.trap? = some t := by
  cases create_error failed
  exact ⟨_, rfl⟩

theorem trap_of_length (failed : h.length handle = .error fault) : ∃ t, fault.trap? = some t := by
  rw [length] at failed
  cases found : h.array? handle with
  | ok array =>
    rw [found] at failed
    cases failed
  | error fault' =>
    rw [found] at failed
    cases failed
    exact trap_of_array? found

theorem trap_of_get {index : UInt64} (failed : h.get handle index = (.error fault, h')) :
    ∃ t, fault.trap? = some t := by
  rw [get] at failed
  cases found : h.array? handle with
  | error fault' =>
    rw [found] at failed
    cases failed
    exact trap_of_array? found
  | ok array =>
    simp only [found] at failed
    split at failed
    · cases failed
    · cases failed
      exact ⟨_, rfl⟩

theorem trap_of_set {index : UInt64} {v : Value} (failed : h.set handle index v = (.error fault, h')) :
    ∃ t, fault.trap? = some t := by
  rw [set] at failed
  cases found : h.length handle with
  | error fault' =>
    rw [found] at failed
    cases failed
    exact trap_of_length found
  | ok length =>
    simp only [found] at failed
    split at failed
    · cases failed
    · cases failed
      exact ⟨_, rfl⟩

theorem trap_of_destroy (failed : h.destroy handle = (.error fault, h')) : ∃ t, fault.trap? = some t := by
  rw [destroy] at failed
  split at failed
  · cases failed
  cases found : h.length handle with
  | error fault' =>
    rw [found] at failed
    cases failed
    exact trap_of_length found
  | ok length =>
    rw [found] at failed
    cases failed

end ArrayHeap

namespace Machine

open Evaluation

/-- A run of code beside an evaluation. -/
structure Link (σ ω : Type) where
  code : Activation σ
  /-- What the evaluation sees of the world. -/
  view : σ → ω
  /-- Whether the evaluation may choose values. -/
  free : Bool

namespace Link

variable {σ ω α β : Type} (l : Link σ ω) {c : Core σ} {a : α} {x : Eval ω α} {f : α → Eval ω β}

/-- The store that a state stands for. -/
def store (c : Core σ) : Store ω :=
  ⟨c.globals, c.arrays, l.view c.world⟩

/-- The values that an evaluation may choose. -/
def May (used : List Value) : Prop :=
  l.free = false → used = []

/-- An evaluation in a state gives a result, by some choice of values. -/
def Gives (c : Core σ) (x : Eval ω α) (r : Except Stop α) (c' : Core σ) : Prop :=
  ∃ used, l.May used ∧ Yields x used (l.store c) r (l.store c')

/-- From operation `k` the run gets to a place where the evaluation has given its result, or it ends in the fault
that the evaluation ends in, never by destroying an array, unless the step limit cuts it off. -/
def Sim (k : Nat) (c : Core σ) (x : Eval ω α) (post : α → Nat → Core σ → Prop) : Prop :=
  ∀ s : State σ, s.core = c → s.arrays.Consistent →
    Limited l.code.env (l.code.runFrom k s).1 ∨
    (∃ v k' s', l.Gives c x (.ok v) s'.core ∧ l.code.Reaches k s k' s' ∧
      s'.arrays.Consistent ∧ post v k' s'.core) ∨
    ∃ t fault s' culprit, l.Gives c x (.error (.trap t)) s'.core ∧
      l.code.runFrom k s = ((.error fault, s'), culprit) ∧ fault.trap? = some t ∧ Spares culprit

variable {l}

theorem Gives.pure (a : α) (c : Core σ) : l.Gives c (Pure.pure a : Eval ω α) (.ok a) c :=
  ⟨[], fun _ => rfl, .pure a _⟩

theorem Gives.stop (reason : Stop) (c : Core σ) : l.Gives c (Eval.stop reason : Eval ω α) (.error reason) c :=
  ⟨[], fun _ => rfl, .stop reason _⟩

theorem Gives.bind {r : Except Stop β} {c' c'' : Core σ} (first : l.Gives c x (.ok a) c')
    (second : l.Gives c' (f a) r c'') : l.Gives c (x >>= f) r c'' := by
  obtain ⟨used, may, yields⟩ := first
  obtain ⟨used', may', yields'⟩ := second
  refine ⟨used ++ used', fun bound => ?_, yields.bind yields'⟩
  rw [may bound, may' bound, List.append_nil]

theorem Gives.bind_error (f : α → Eval ω β) {reason : Stop} {c' : Core σ} (first : l.Gives c x (.error reason) c') :
    l.Gives c (x >>= f) (.error reason) c' := by
  obtain ⟨used, may, yields⟩ := first
  exact ⟨used, may, yields.bind_error f⟩

theorem Gives.of_store {r : Except Stop α} {d c' d' : Core σ} (given : l.Gives c x r c')
    (start : l.store c = l.store d) (done : l.store c' = l.store d') : l.Gives d x r d' := by
  obtain ⟨used, may, yields⟩ := given
  exact ⟨used, may, start ▸ done ▸ yields⟩

theorem Gives.onArrays {f : ArrayHeap → Except Fault α × ArrayHeap} {arrays : ArrayHeap}
    (used : f c.arrays = (.ok a, arrays)) : l.Gives c (Eval.onArrays f) (.ok a) { c with arrays } := by
  refine ⟨[], fun _ => rfl, fun more => ?_⟩
  simp only [Eval.onArrays, store, used, List.nil_append]

theorem Gives.onArrays_error {f : ArrayHeap → Except Fault α × ArrayHeap} {arrays : ArrayHeap} {fault : Fault}
    {t : Trap} (failed : f c.arrays = (.error fault, arrays)) (kind : fault.trap? = some t) :
    l.Gives c (Eval.onArrays f) (.error (.trap t)) { c with arrays } := by
  refine ⟨[], fun _ => rfl, fun more => ?_⟩
  simp only [Eval.onArrays, store, failed, kind, List.nil_append]

namespace Sim

variable {k k' : Nat} {c c' : Core σ} {x : Eval ω α} {post : α → Nat → Core σ → Prop}

theorem pure (holds : post a k c) : l.Sim k c (Pure.pure a) post :=
  fun s same consistent => .inr (.inl ⟨a, k, s, same ▸ .pure a s.core, .refl k s, consistent, same ▸ holds⟩)

theorem of_gives (given : l.Gives c x (.ok a) c) (holds : post a k c) : l.Sim k c x post :=
  fun s same consistent =>
    .inr (.inl ⟨a, k, s, by rw [same]; exact given, .refl k s, consistent, same ▸ holds⟩)

theorem mono {post' : α → Nat → Core σ → Prop} (sim : l.Sim k c x post)
    (weaker : ∀ v k' c', post v k' c' → post' v k' c') : l.Sim k c x post' := by
  intro s same consistent
  obtain limited | ⟨v, k', s', given, went, kept, holds⟩ | trapped := sim s same consistent
  · exact .inl limited
  · exact .inr (.inl ⟨v, k', s', given, went, kept, weaker v k' s'.core holds⟩)
  · exact .inr (.inr trapped)

/-- What is known of the results of an evaluation holds where the run gets. -/
theorem also (sim : l.Sim k c x post) (known : α → Store ω → Prop)
    (fact : ∀ used a store, Yields x used (l.store c) (.ok a) store → known a store) :
    l.Sim k c x fun v k' c' => post v k' c' ∧ known v (l.store c') := by
  intro s same consistent
  obtain limited | ⟨v, k', s', given, went, kept, holds⟩ | trapped := sim s same consistent
  · exact .inl limited
  · obtain ⟨used, may, yields⟩ := given
    exact .inr (.inl ⟨v, k', s', ⟨used, may, yields⟩, went, kept, holds, fact used v _ yields⟩)
  · exact .inr (.inr trapped)

theorem goes (first : l.code.Goes k c k' c') (same_store : l.store c' = l.store c)
    (sim : l.Sim k' c' x post) : l.Sim k c x post := by
  intro s same consistent
  obtain ⟨s', same', kept, limited | went⟩ := first s same
  · exact .inl limited
  · rw [went.runFrom_eq]
    obtain limited | ⟨v, k'', s'', given, went', rest⟩ | ⟨t, fault, s'', culprit, given, rest⟩ :=
      sim s' same' (kept consistent)
    · exact .inl limited
    · exact .inr (.inl ⟨v, k'', s'', given.of_store same_store rfl, went.trans went', rest⟩)
    · exact .inr (.inr ⟨t, fault, s'', culprit, given.of_store same_store rfl, rest⟩)

theorem bind {post' : β → Nat → Core σ → Prop} (first : l.Sim k c x post)
    (second : ∀ v k' c', post v k' c' → l.Sim k' c' (f v) post') : l.Sim k c (x >>= f) post' := by
  intro s same consistent
  obtain limited | ⟨v, k', s', given, went, kept, holds⟩ | ⟨t, fault, s', culprit, given, rest⟩ :=
    first s same consistent
  · exact .inl limited
  · rw [went.runFrom_eq]
    obtain limited | ⟨w, k'', s'', given', went', rest⟩ | ⟨t, fault, s'', culprit, given', rest⟩ :=
      second v k' s'.core holds s' rfl kept
    · exact .inl limited
    · exact .inr (.inl ⟨w, k'', s'', given.bind given', went.trans went', rest⟩)
    · exact .inr (.inr ⟨t, fault, s'', culprit, given.bind given', rest⟩)
  · exact .inr (.inr ⟨t, fault, s', culprit, given.bind_error f, rest⟩)

theorem then_goes {post' : α → Nat → Core σ → Prop} (sim : l.Sim k c x post)
    (after : ∀ v k' c', post v k' c' → ∃ k'' c'', l.code.Goes k' c' k'' c'' ∧
      l.store c'' = l.store c' ∧ post' v k'' c'') : l.Sim k c x post' := by
  rw [← bind_pure x]
  refine sim.bind fun v k' c' holds => ?_
  obtain ⟨k'', c'', went, same, holds'⟩ := after v k' c' holds
  exact .goes went same (.pure holds')

theorem bind_gives {post' : β → Nat → Core σ → Prop} (given : l.Gives c x (.ok a) c) (rest : l.Sim k c (f a) post') :
    l.Sim k c (x >>= f) post' := by
  have first : l.Sim k c x fun v k' c' => v = a ∧ k' = k ∧ c' = c := .of_gives given ⟨rfl, rfl, rfl⟩
  refine first.bind ?_
  rintro _ _ _ ⟨rfl, rfl, rfl⟩
  exact rest

theorem of_goes (given : l.Gives c x (.ok a) c') (went : l.code.Goes k c k' c') (holds : post a k' c') :
    l.Sim k c x post := by
  rintro s rfl consistent
  obtain ⟨s', rfl, kept, limited | went⟩ := went s rfl
  · exact .inl limited
  · exact .inr (.inl ⟨a, k', s', given, went, kept consistent, holds⟩)

theorem of_traps {t : Trap} (given : l.Gives c x (.error (.trap t)) c')
    (traps : l.code.Traps k c t c') : l.Sim k c x post := by
  rintro s rfl -
  obtain limited | ⟨fault, s', culprit, ran, kind, rfl, other⟩ := traps s rfl
  · exact .inl limited
  · exact .inr (.inr ⟨t, fault, s', culprit, given, ran, kind, other⟩)

end Sim

variable (l) in
/-- From operation `k` the run ends the function as an evaluation ends. -/
def Ends (k : Nat) (c : Core σ) (x : Eval ω Value) (post : Core σ → Prop) : Prop :=
  ∀ s : State σ, s.core = c → s.arrays.Consistent →
    Limited l.code.env (l.code.runFrom k s).1 ∨
    (∃ v s', l.Gives c x (.ok v) s'.core ∧ l.code.runFrom k s = ((.ok v, s'), none) ∧
      s'.arrays.Consistent ∧ post s'.core) ∨
    ∃ t fault s' culprit, l.Gives c x (.error (.trap t)) s'.core ∧
      l.code.runFrom k s = ((.error fault, s'), culprit) ∧ fault.trap? = some t ∧ Spares culprit

theorem Ends.of_consistent {k : Nat} {x : Eval ω Value} {post : Core σ → Prop}
    (ends : c.arrays.Consistent → l.Ends k c x post) : l.Ends k c x post :=
  fun s same consistent => ends (same ▸ consistent) s same consistent

theorem Ends.of_returns {k : Nat} {v : Value} {post : Core σ → Prop} (returns : l.code.Returns k c v c)
    (holds : post c) : l.Ends k c (Pure.pure v : Eval ω Value) post := by
  intro s same consistent
  obtain limited | ⟨s', ran, same'⟩ := returns s same
  · exact .inl limited
  · have kept : s'.core.arrays.Consistent := by
      rw [same', ← same]
      exact consistent
    exact .inr (.inl ⟨v, s', by rw [same']; exact .pure v c, ran, kept, by rw [same']; exact holds⟩)

theorem Sim.ends {k : Nat} {f : α → Eval ω Value} {post : α → Nat → Core σ → Prop} {post' : Core σ → Prop}
    (sim : l.Sim k c x post) (rest : ∀ a k' c', post a k' c' → l.Ends k' c' (f a) post') :
    l.Ends k c (x >>= f) post' := by
  intro s same consistent
  obtain limited | ⟨a, k', s', given, went, kept, holds⟩ | ⟨t, fault, s', culprit, given, ended⟩ :=
    sim s same consistent
  · exact .inl limited
  · rw [went.runFrom_eq]
    obtain limited | ⟨v, s'', given', ended⟩ | ⟨t, fault, s'', culprit, given', ended⟩ :=
      rest a k' s'.core holds s' rfl kept
    · exact .inl limited
    · exact .inr (.inl ⟨v, s'', given.bind given', ended⟩)
    · exact .inr (.inr ⟨t, fault, s'', culprit, given.bind given', ended⟩)
  · exact .inr (.inr ⟨t, fault, s', culprit, given.bind_error f, ended⟩)

end Link

end Machine

end RegisterLang
