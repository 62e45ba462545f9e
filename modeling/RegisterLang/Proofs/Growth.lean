import RegisterLang.Proofs.Labels

/-! # How code grows

Emission only appends operations and only binds labels that it has made itself. So code that was emitted
early is still there in the end, and a label that was bound stays where it is.
-/

namespace RegisterLang.CodeBuffer

variable {c : CodeBuffer} {label : Label}

/-- Code that is part of other code, with the labels it has bound. -/
structure Within (c final : CodeBuffer) : Prop where
  ops : ∀ (k : Nat) (op : Op), c.ops[k]? = some op → final.ops[k]? = some op
  labels : ∀ (label : Label) (target : Nat), c.target? label = some target → final.target? label = some target

/-- Code after more was emitted: the labels that were there are left alone, and new instructions fit. -/
structure Grows (c c' : CodeBuffer) : Prop where
  ops : ∀ (k : Nat) (op : Op), c.ops[k]? = some op → c'.ops[k]? = some op
  kept : ∀ label : Label, label.index < c.labels.size → c'.target? label = c.target? label
  more : c.labels.size ≤ c'.labels.size
  fits : ∀ i, Op.plain i ∈ c'.ops → Op.plain i ∈ c.ops ∨ i.Encodable
  inside : c.LabelsInside → c'.LabelsInside

theorem index_lt_of_target? {target : Nat} (bound : c.target? label = some target) : label.index < c.labels.size := by
  rw [target?, Option.join_eq_some_iff] at bound
  exact (Array.getElem?_eq_some_iff.1 bound).1

namespace Within

theorem refl (c : CodeBuffer) : Within c c :=
  ⟨fun _ _ found => found, fun _ _ bound => bound⟩

theorem trans {c' c'' : CodeBuffer} (first : Within c c') (second : Within c' c'') : Within c c'' :=
  ⟨fun k op found => second.ops k op (first.ops k op found),
    fun label target bound => second.labels label target (first.labels label target bound)⟩

end Within

theorem within_emit (c : CodeBuffer) (i : Instruction) : Within c (c.emit i) where
  ops k op found := by
    have inside := (Array.getElem?_eq_some_iff.1 found).1
    rw [emit, Array.getElem?_push, if_neg (Nat.ne_of_lt inside), found]
  labels _ _ bound := bound

namespace Grows

variable {c c' c'' : CodeBuffer}

theorem refl (c : CodeBuffer) : Grows c c :=
  ⟨fun _ _ found => found, fun _ _ => rfl, Nat.le_refl _, fun _ member => .inl member, id⟩

theorem trans (first : Grows c c') (second : Grows c' c'') : Grows c c'' where
  ops k op found := second.ops k op (first.ops k op found)
  kept label old := by
    rw [second.kept label (Nat.lt_of_lt_of_le old first.more), first.kept label old]
  more := Nat.le_trans first.more second.more
  fits i member := by
    obtain earlier | fits := second.fits i member
    · exact first.fits i earlier
    · exact .inr fits
  inside start := second.inside (first.inside start)

theorem within (grows : Grows c c') : Within c c' :=
  ⟨grows.ops, fun label target bound => by
    rw [grows.kept label (index_lt_of_target? bound), bound]⟩

theorem emit (c : CodeBuffer) {i : Instruction} (fits : i.Encodable) : Grows c (c.emit i) where
  ops := (within_emit c i).ops
  kept _ _ := rfl
  more := Nat.le_refl _
  fits j member := by
    obtain earlier | new := Array.mem_push.1 member
    · exact .inl earlier
    · cases new
      exact .inr fits
  inside start label target bound := by
    have := start label target bound
    rw [CodeBuffer.emit, Array.size_push]
    omega

theorem jump (c : CodeBuffer) (cond : Condition) (label : Label) : Grows c (c.jump cond label) where
  ops k op found := by
    have inside := (Array.getElem?_eq_some_iff.1 found).1
    rw [CodeBuffer.jump, Array.getElem?_push, if_neg (Nat.ne_of_lt inside), found]
  kept _ _ := rfl
  more := Nat.le_refl _
  fits j member := by
    obtain earlier | new := Array.mem_push.1 member
    · exact .inl earlier
    · cases new
  inside start label target bound := by
    have := start label target bound
    rw [CodeBuffer.jump, Array.size_push]
    omega

theorem newLabel (c : CodeBuffer) : Grows c c.newLabel.2 where
  ops _ _ found := found
  kept label _ := target?_push_none c label
  more := by simp [CodeBuffer.newLabel]
  fits _ member := .inl member
  inside start label target bound := start label target (target?_push_none c label ▸ bound)

/-- Binding a label that was made on the way leaves the earlier ones alone. -/
theorem bind (grows : Grows c c') (made : c.labels.size ≤ label.index) : Grows c (c'.bind label) where
  ops := grows.ops
  kept other old := by
    have apart : label.index ≠ other.index := by omega
    have same : (c'.bind label).target? other = c'.target? other := by
      simp only [target?, CodeBuffer.bind, Array.getElem?_setIfInBounds, if_neg apart]
    rw [same, grows.kept other old]
  more := by simpa [CodeBuffer.bind] using grows.more
  fits := grows.fits
  inside start other target bound := by
    obtain ⟨-, rfl⟩ | ⟨-, earlier⟩ := target?_bind c' label other bound
    · exact Nat.le_refl _
    · exact grows.inside start other target earlier

end Grows

theorem within_bind (unbound : c.target? label = none) : Within c (c.bind label) := by
  refine ⟨fun _ _ found => found, fun other target bound => ?_⟩
  have apart : label.index ≠ other.index := by
    intro same
    rw [show other = label from (congrArg Label.mk same).symm, unbound] at bound
    cases bound
  simpa only [target?, CodeBuffer.bind, Array.getElem?_setIfInBounds, if_neg apart] using bound

theorem target?_bind_self (made : label.index < c.labels.size) : (c.bind label).target? label = some c.ops.size := by
  simp [target?, CodeBuffer.bind, made]

theorem target?_newLabel (c : CodeBuffer) : c.newLabel.2.target? c.newLabel.1 = none := by
  simp [target?, CodeBuffer.newLabel]

theorem target?_bind_of_ne {other : Label} (apart : label.index ≠ other.index) :
    (c.bind label).target? other = c.target? other := by
  simp only [target?, CodeBuffer.bind, Array.getElem?_setIfInBounds, if_neg apart]

/-- A label that was made before more code was emitted can be bound behind it. -/
theorem fresh_newLabel {c' : CodeBuffer} (grows : c.newLabel.2.Grows c') :
    c'.target? c.newLabel.1 = none ∧ c.newLabel.1.index < c'.labels.size ∧ c.labels.size ≤ c.newLabel.1.index := by
  have made : c.newLabel.1.index < c.newLabel.2.labels.size := by simp [CodeBuffer.newLabel]
  refine ⟨?_, Nat.lt_of_lt_of_le made grows.more, Nat.le_refl _⟩
  rw [grows.kept _ made, target?_newLabel]

@[simp] theorem size_ops_emit (c : CodeBuffer) (i : Instruction) : (c.emit i).ops.size = c.ops.size + 1 := by
  simp [emit]

@[simp] theorem size_ops_jump (c : CodeBuffer) (cond : Condition) (label : Label) :
    (c.jump cond label).ops.size = c.ops.size + 1 := by
  simp [jump]

@[simp] theorem ops_bind (c : CodeBuffer) (label : Label) : (c.bind label).ops = c.ops := rfl

@[simp] theorem ops_newLabel (c : CodeBuffer) : c.newLabel.2.ops = c.ops := rfl

theorem Within.emitted {final : CodeBuffer} {i : Instruction} (within : Within (c.emit i) final) :
    final.ops[c.ops.size]? = some (.plain i) :=
  within.ops _ _ (by simp [emit])

theorem Within.jumped {final : CodeBuffer} {cond : Condition} (within : Within (c.jump cond label) final) :
    final.ops[c.ops.size]? = some (.jump cond label) :=
  within.ops _ _ (by simp [jump])

end RegisterLang.CodeBuffer
