import RegisterLang.Emission.Stmt
import RegisterLang.Proofs.Growth

/-! # Emission without mistakes

What a piece of emission does is stated for runs that report no mistake. A report only grows, so no part
of such a run reports one either, and branches that complain can be left out.
-/

namespace RegisterLang.Emission

variable {α β : Type}

/-- How many mistakes were reported. -/
def Body.errors (b : Body) : Nat :=
  b.strings.report.totalErrors

/-- A piece of emission never takes a report back, and relates the bodies before and after as given when
it reports no mistake. -/
def Emits (x : EmitM α) (does : Body → α → Body → Prop) : Prop :=
  ∀ b a b', x.run b = .ok (a, b') → b.errors ≤ b'.errors ∧ (b'.errors = b.errors → does b a b')

namespace Emits

variable {x : EmitM α} {does : Body → α → Body → Prop}
  {does' : Body → α → Body → Prop} {rest : α → Body → β → Body → Prop}

theorem mono (emits : Emits x does) (weaker : ∀ b a b', does b a b' → does' b a b') : Emits x does' := by
  intro b a b' ran
  obtain ⟨more, clean⟩ := emits b a b' ran
  exact ⟨more, fun same => weaker b a b' (clean same)⟩

theorem counted (emits : Emits x does) : Emits x fun b a b' => b'.errors = b.errors ∧ does b a b' := by
  intro b a b' ran
  obtain ⟨more, clean⟩ := emits b a b' ran
  exact ⟨more, fun same => ⟨same, clean same⟩⟩

theorem ran (emits : Emits x does) : Emits x fun b a b' => x.run b = .ok (a, b') ∧ does b a b' := by
  intro b a b' ran
  obtain ⟨more, clean⟩ := emits b a b' ran
  exact ⟨more, fun same => ⟨ran, clean same⟩⟩

theorem of_pure (a : α) : Emits (pure a) fun b a' b' => a' = a ∧ b' = b := by
  intro b a' b' ran
  cases ran
  exact ⟨Nat.le_refl _, fun _ => ⟨rfl, rfl⟩⟩

theorem bind {f : α → EmitM β} (first : Emits x does) (second : ∀ a, Emits (f a) (rest a)) :
    Emits (x >>= f) fun b c b'' => ∃ a b', does b a b' ∧ rest a b' c b'' := by
  intro b c b'' ran
  rw [StateT.run_bind, bind_eq_ok] at ran
  obtain ⟨⟨a, b'⟩, ran, ran'⟩ := ran
  obtain ⟨more, clean⟩ := first b a b' ran
  obtain ⟨more', clean'⟩ := second a b' c b'' ran'
  refine ⟨Nat.le_trans more more', fun same => ⟨a, b', clean ?_, clean' ?_⟩⟩
  · omega
  · omega

/-- A piece of emission that reports a mistake does all that is asked of one that does not. -/
theorem never (emits : Emits x fun _ _ _ => False) : Emits x does :=
  emits.mono fun _ _ _ impossible => impossible.elim

theorem bind_never {f : α → EmitM β} {does : Body → β → Body → Prop} (first : Emits x fun _ _ _ => False)
    (second : ∀ a, Emits (f a) (rest a)) : Emits (x >>= f) does :=
  .mono (.bind first second) fun _ _ _ ⟨_, _, impossible, _⟩ => impossible.elim

theorem of_get : Emits get fun b a b' => a = b ∧ b' = b := by
  intro b a b' ran
  cases ran
  exact ⟨Nat.le_refl _, fun _ => ⟨rfl, rfl⟩⟩

theorem of_modify {f : Body → Body} (quiet : ∀ b, (f b).errors = b.errors) :
    Emits (modify f) fun b _ b' => b' = f b := by
  intro b a b' ran
  cases ran
  exact ⟨Nat.le_of_eq (quiet b).symm, fun _ => rfl⟩

theorem of_throw (e : EmissionError) : Emits (throw e : EmitM α) does := by
  intro b a b' ran
  cases ran

theorem of_ite {c : Prop} [Decidable c] {y : EmitM α} (yes : c → Emits x does) (no : ¬ c → Emits y does) :
    Emits (if c then x else y) does := by
  split
  · next holds => exact yes holds
  · next fails => exact no fails

theorem ite {c : Prop} [Decidable c] {y : EmitM α} (yes : Emits x does) (no : Emits y does') :
    Emits (if c then x else y) fun b a b' => c ∧ does b a b' ∨ ¬ c ∧ does' b a b' :=
  .of_ite (fun holds => .mono yes fun _ _ _ done => .inl ⟨holds, done⟩)
    fun fails => .mono no fun _ _ _ done => .inr ⟨fails, done⟩

end Emits

end RegisterLang.Emission
