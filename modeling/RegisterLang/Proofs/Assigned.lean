import RegisterLang.Proofs.Congruence

/-! # Evaluations that read assigned locals only

What reading a local gives that nothing was stored in is open. An evaluation that never does so gives the
same whatever is chosen there. Main statement: `Linked.settles_run`.
-/

namespace RegisterLang.Evaluation

variable {ω α β : Type}

/-- An evaluation uses no choices and, unless it reads a local that nothing was stored in, another one gives
the same and leaves all choices. -/
def Settles (x y : Eval ω α) : Prop :=
  ∀ store, ∃ r store', x store [] = (r, store', []) ∧
    (r ≠ .error .unassigned → ∀ choices, y store choices = (r, store', choices))

namespace Settles

theorem pure (a : α) : Settles (Pure.pure a : Eval ω α) (Pure.pure a) :=
  fun store => ⟨.ok a, store, rfl, fun _ _ => rfl⟩

theorem stop (reason : Stop) : Settles (Eval.stop reason : Eval ω α) (Eval.stop reason) :=
  fun store => ⟨.error reason, store, rfl, fun _ _ => rfl⟩

theorem unassigned (y : Eval ω α) : Settles (Eval.stop .unassigned) y :=
  fun store => ⟨.error .unassigned, store, rfl, fun other => absurd rfl other⟩

theorem bind {x y : Eval ω α} {f g : α → Eval ω β} (first : Settles x y)
    (second : ∀ a, Settles (f a) (g a)) : Settles (x >>= f) (y >>= g) := by
  intro store
  obtain ⟨r, store', ran, same⟩ := first store
  cases r with
  | error reason =>
    refine ⟨.error reason, store', ?_, fun other choices => ?_⟩
    · change Eval.bind x f store [] = _
      rw [Eval.bind, ran]
    · have ran' := same (fun equal => other (by cases equal; rfl)) choices
      change Eval.bind y g store choices = _
      rw [Eval.bind, ran']
  | ok a =>
    obtain ⟨r, store'', ended, same'⟩ := second a store'
    refine ⟨r, store'', ?_, fun other choices => ?_⟩
    · change Eval.bind x f store [] = _
      rw [Eval.bind, ran]
      exact ended
    · change Eval.bind y g store choices = _
      rw [Eval.bind, same nofun choices]
      exact same' other choices

theorem of_fixed {x : Eval ω α}
    (fixed : ∀ store, ∃ r store', ∀ choices, x store choices = (r, store', choices)) : Settles x x := by
  intro store
  obtain ⟨r, store', same⟩ := fixed store
  exact ⟨r, store', same [], fun _ => same⟩

theorem getGlobal (index : Nat) : Settles (Eval.getGlobal index : Eval ω Value) (Eval.getGlobal index) := by
  refine .of_fixed fun store => ?_
  cases found : store.globals[index]? with
  | some v =>
    refine ⟨.ok v, store, fun choices => ?_⟩
    rw [Eval.getGlobal, found]
  | none =>
    refine ⟨.error .stuck, store, fun choices => ?_⟩
    rw [Eval.getGlobal, found]

theorem setGlobal (index : Nat) (v : Value) :
    Settles (Eval.setGlobal index v : Eval ω Unit) (Eval.setGlobal index v) :=
  .of_fixed fun _ => ⟨_, _, fun _ => rfl⟩

theorem onArrays (f : ArrayHeap → Except Fault α × ArrayHeap) :
    Settles (Eval.onArrays f : Eval ω α) (Eval.onArrays f) := by
  refine .of_fixed fun store => ?_
  rcases used : f store.arrays with ⟨fault | a, arrays⟩
  · exact ⟨.error _, { store with arrays }, fun _ => by rw [Eval.onArrays, used]⟩
  · exact ⟨.ok a, { store with arrays }, fun _ => by rw [Eval.onArrays, used]⟩

theorem outside (f : ω → Value × ω) : Settles (Eval.outside f) (Eval.outside f) :=
  .of_fixed fun _ => ⟨_, _, fun _ => rfl⟩

theorem createArray (length : Nat) :
    Settles (Evaluation.createArray length : Eval ω Value) (Evaluation.createArray length) :=
  .bind (.onArrays _) fun _ => .pure _

theorem congruence : Congruence fun α : Type => (Settles : Eval ω α → Eval ω α → Prop) where
  pure := .pure
  stop := .stop
  bind := .bind
  getGlobal := .getGlobal
  setGlobal := .setGlobal
  readElement _ _ := .onArrays _
  writeElement _ _ _ := .onArrays _

end Settles

/-- Two meanings that differ only in what reading a local gives that nothing was stored in, there and in the
functions that are called. -/
abbrev Meaning.Settles (m m' : Meaning ω) : Prop :=
  m.Related (fun _ => Evaluation.Settles) m'

namespace Linked

/-- The same program, where reading a local that nothing was stored in ends evaluation. -/
def strict (u : Linked ω) : Linked ω :=
  { u with unassigned := fun _ => Eval.stop .unassigned }

variable {u : Linked ω}

theorem settles_runBody {invoke invoke' : Nat → List Value → Eval ω Value}
    (settles : ∀ i args, Settles (invoke i args) (invoke' i args)) (decl : FunctionDecl) (body : Block)
    (args : List Value) : Settles (u.strict.runBody invoke decl body args) (u.runBody invoke' decl body args) := by
  have meaning : Meaning.Settles (u.strict.meaning invoke (localTypes decl.params body))
      (u.meaning invoke' (localTypes decl.params body)) :=
    ⟨rfl, rfl, rfl, rfl, rfl, rfl, fun _ => .unassigned _, fun _ i _ args _ _ => settles i args⟩
  exact .bind (meaning.evalStmts Settles.congruence .createArray _ body.stmts) fun (locals, flow) =>
    Settles.congruence.toStepwise.endBody (fun _ => .onArrays _) decl body locals flow

/-- Calls settle what they give, by recursion on the room for calls inside them. -/
theorem settles_invoke (native : ∀ i args, Settles (u.native i args) (u.native i args)) (room i : Nat)
    (args : List Value) : Settles (u.strict.invoke room i args) (u.invoke room i args) :=
  u.strict.invokeWith_induct (v := u) (P := fun _ _ _ => Settles) rfl (fun _ _ _ _ _ => .stop _)
    (fun _ i args _ _ _ => native i args) (fun _ calls _ args decl body _ _ _ => settles_runBody calls decl body args)
    room i args

theorem settles_run (native : ∀ i args, Settles (u.native i args) (u.native i args)) (room : Nat) :
    Settles (u.strict.run room) (u.run room) :=
  u.strict.runWith_cases (v := u) rfl (.stop _) fun i _ _ _ => settles_invoke native room i []

end Linked

end RegisterLang.Evaluation
