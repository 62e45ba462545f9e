import RegisterLang.Proofs.Layout

/-! # Code built step by step

A buffer is built by appending instructions and jumps, making labels and binding them. Main statement:
`decodeAll_finish_build`, the code of a finished buffer reads back as its operations, and every jump lands where
its label was bound last.
-/

namespace RegisterLang

open List

/-- Whether an operation is a jump to a label. -/
def Op.isJump : Op → Bool
  | .plain _ => false
  | .jump _ _ => true

namespace CodeBuffer

variable {c : CodeBuffer} {ops : List ResolvedOp} {target : Nat}

/-- No label stands behind the end of the code. -/
def LabelsInside (c : CodeBuffer) : Prop :=
  ∀ (label : Label) (target : Nat), c.target? label = some target → target ≤ c.ops.size

/-- The operations of a buffer with the places of their labels in place of the labels. -/
structure Resolves (c : CodeBuffer) (ops : List ResolvedOp) : Prop where
  length_eq : ops.length = c.ops.size
  plain : ∀ (k : Nat) (i : Instruction), c.ops[k]? = some (.plain i) → ops[k]? = some (.plain i)
  jump : ∀ (k : Nat) (cond : Condition) (label : Label), c.ops[k]? = some (.jump cond label) →
    ∃ target, c.target? label = some target ∧ ops[k]? = some (.jump cond target)

theorem resolves_of_mapM (mapped : c.ops.toList.mapM c.resolve = .ok ops) : c.Resolves ops := by
  obtain ⟨same, each⟩ := mapM_eq_ok mapped
  refine ⟨by simpa using same, ?_, ?_⟩
  · intro k i found
    obtain ⟨op, placed, made⟩ := each k (.plain i) (by simpa using found)
    cases made
    exact placed
  · intro k cond label found
    obtain ⟨op, placed, made⟩ := each k (.jump cond label) (by simpa using found)
    rw [resolve] at made
    split at made
    · next target bound =>
      cases made
      exact ⟨target, bound, placed⟩
    · cases made

variable {k : Nat} {steps : List BuildStep} {cond : Condition}

theorem lt_of_backwardJump? (none_found : backwardJump? ops = none)
    (found : ops[k]? = some (.jump cond target)) : k < target := by
  rw [backwardJump?, findSome?_eq_none_iff] at none_found
  have ahead := none_found (.jump cond target, k)
    (mem_iff_getElem?.2 ⟨k, by simp [getElem?_zipIdx, found]⟩)
  simp only [ite_eq_right_iff, reduceCtorEq, imp_false] at ahead
  omega

theorem Resolves.jump_of (resolved : c.Resolves ops) (found : ops[k]? = some (.jump cond target)) :
    ∃ label, c.ops[k]? = some (.jump cond label) ∧ c.target? label = some target := by
  have here : k < c.ops.size := resolved.length_eq ▸ (List.getElem?_eq_some_iff.1 found).1
  have original := Array.getElem?_eq_getElem here
  cases op : c.ops[k] with
  | plain i =>
    cases found.symm.trans (resolved.plain k i (op ▸ original))
  | jump cond' label =>
    obtain ⟨target', bound, placed⟩ := resolved.jump k cond' label (op ▸ original)
    cases found.symm.trans placed
    exact ⟨label, op ▸ original, bound⟩

theorem backwardJump?_eq_some (found : backwardJump? ops = some k) :
    ∃ cond target, ops[k]? = some (.jump cond target) ∧ target ≤ k := by
  obtain ⟨⟨op, i⟩, member, here⟩ := exists_of_findSome?_eq_some found
  have placed := mem_zipIdx_iff_getElem?.1 member
  cases op with
  | plain i => cases here
  | jump cond target =>
    obtain ⟨behind, same⟩ := Option.ite_none_right_eq_some.1 here
    cases same
    exact ⟨cond, target, placed, behind⟩

/-- Finishing a buffer stops at a label that is not bound, or at a jump that does not go forward, or lays out the
operations. -/
theorem finish_cases (c : CodeBuffer) :
    (∃ (k : Nat) (cond : Condition) (label : Label), c.ops[k]? = some (.jump cond label) ∧ c.target? label = none ∧
        c.finish = .error (.internal (.labelUnbound label.index))) ∨ ∃ ops, c.Resolves ops ∧
        ((∃ (k : Nat) (cond : Condition) (target : Nat), ops[k]? = some (.jump cond target) ∧ target ≤ k ∧
            c.finish = .error (.internal (.backwardJump k))) ∨
          (∀ (k : Nat) (cond : Condition) (target : Nat), ops[k]? = some (.jump cond target) → k < target) ∧
            c.finish = Layout.assemble ops) := by
  cases mapped : c.ops.toList.mapM c.resolve with
  | error e =>
    left
    obtain ⟨op, member, fails⟩ := mapM_eq_error mapped
    obtain ⟨k, found⟩ := mem_iff_getElem?.1 member
    cases op with
    | plain i => cases fails
    | jump cond label =>
      rw [resolve] at fails
      split at fails
      · cases fails
      · next unbound =>
        cases fails
        refine ⟨k, cond, label, by simpa using found, unbound, ?_⟩
        rw [finish, mapped]
        rfl
  | ok ops =>
    refine .inr ⟨ops, resolves_of_mapM mapped, ?_⟩
    cases backward : backwardJump? ops with
    | some k =>
      obtain ⟨cond, target, found, behind⟩ := backwardJump?_eq_some backward
      refine .inl ⟨k, cond, target, found, behind, ?_⟩
      rw [finish, mapped]
      simp only [Bind.bind, Except.bind, backward]
      rfl
    | none =>
      refine .inr ⟨fun k cond target found => lt_of_backwardJump? backward found, ?_⟩
      rw [finish, mapped]
      simp [Bind.bind, Except.bind, backward]

/-- Jumps that go forward go to an operation or to the end, when no label stands behind it. -/
theorem Resolves.forward (resolved : c.Resolves ops) (inside : c.LabelsInside)
    (ahead : ∀ (k : Nat) (cond : Condition) (target : Nat), ops[k]? = some (.jump cond target) → k < target) :
    Layout.Forward ops := by
  intro k cond target found
  obtain ⟨label, -, bound⟩ := resolved.jump_of found
  exact ⟨ahead k cond target found, resolved.length_eq ▸ inside label target bound⟩

variable {code : FinishedCode}

theorem finish_eq_ok (inside : c.LabelsInside) (finished : c.finish = .ok code) :
    ∃ ops, c.Resolves ops ∧ Layout.Forward ops ∧ Layout.assemble ops = .ok code := by
  rcases c.finish_cases with ⟨_, _, _, -, -, failed⟩ | ⟨ops, resolved, ⟨_, _, _, -, -, failed⟩ | ⟨ahead, same⟩⟩
  · cases failed.symm.trans finished
  · cases failed.symm.trans finished
  · exact ⟨ops, resolved, resolved.forward inside ahead, same ▸ finished⟩

/-- The instructions that stand for the operations of a buffer. A jump skips the bytes up to the
operation that its label stands before. -/
structure Laid (c : CodeBuffer) (is : List Instruction) : Prop where
  length_eq : is.length = c.ops.size
  plain : ∀ (k : Nat) (i : Instruction), c.ops[k]? = some (.plain i) → is[k]? = some i
  jump : ∀ (k : Nat) (cond : Condition) (label : Label), c.ops[k]? = some (.jump cond label) →
    ∃ i distance target, is[k]? = some i ∧
      (i.IsShortJump cond distance ∨ i.IsWideJump cond distance) ∧
      c.target? label = some target ∧ k < target ∧ target ≤ is.length ∧
      Instruction.address is k + i.length + distance = Instruction.address is target

/-- How many jumps to a label are realized by an instruction of some form. -/
def countJumps (ops : List Op) (is : List Instruction) (form : Instruction → Bool) : Nat :=
  (ops.zip is).countP fun x => x.1.isJump && form x.2

theorem Resolves.map_isJump (resolved : c.Resolves ops) : ops.map Layout.isJump = c.ops.toList.map Op.isJump := by
  apply ext_getElem?
  intro k
  simp only [getElem?_map, Array.getElem?_toList]
  cases found : c.ops[k]? with
  | none =>
    have outside := Array.getElem?_eq_none_iff.1 found
    rw [getElem?_eq_none (resolved.length_eq ▸ outside)]
    rfl
  | some op =>
    cases op with
    | plain i =>
      rw [resolved.plain k i found]
      rfl
    | jump cond label =>
      obtain ⟨target, -, placed⟩ := resolved.jump k cond label found
      rw [placed]
      rfl

theorem Resolves.countJumps (resolved : c.Resolves ops) (is : List Instruction) (form : Instruction → Bool) :
    (ops.zip is).countP (fun x => Layout.isJump x.1 && form x.2) = CodeBuffer.countJumps c.ops.toList is form := by
  have counts := congrArg (fun fs => (fs.zip is).countP fun x => x.1 && form x.2) resolved.map_isJump
  simpa only [CodeBuffer.countJumps, zip_map_left, countP_map, Function.comp_def, Prod.map,
    id_eq] using counts

variable {is : List Instruction}

/-- Instructions that realize the resolved operations of a buffer stand for its operations. -/
theorem Resolves.laid (resolved : c.Resolves ops) (forward : Layout.Forward ops) {wide : List Bool}
    (same : wide.length = ops.length) (realized : Layout.Realizes ops wide is) :
    c.Laid is where
  length_eq := realized.length_eq.trans resolved.length_eq
  plain k i found := realized.plain k i (resolved.plain k i found)
  jump k cond label found := by
    obtain ⟨target, bound, placed⟩ := resolved.jump k cond label found
    obtain ⟨i, distance, here, form, lands⟩ := realized.jump_lands same forward placed
    obtain ⟨ahead, within⟩ := forward k cond target placed
    exact ⟨i, distance, target, here, form, bound, ahead, realized.length_eq ▸ within, lands⟩

/-- A finished buffer is the code of instructions that stand for its operations. -/
theorem laid_of_finish (inside : c.LabelsInside) (finished : c.finish = .ok code) :
    ∃ is, c.Laid is ∧ code.bytes = is.flatMap Instruction.encode ∧
      code.shortJumps = countJumps c.ops.toList is Instruction.isJump8 ∧
      code.wideJumps = countJumps c.ops.toList is Instruction.isJump16 := by
  obtain ⟨ops, resolved, forward, assembled⟩ := finish_eq_ok inside finished
  obtain ⟨is, realized, bytes, short, wide⟩ := Layout.assemble_eq_ok forward assembled
  exact ⟨is, resolved.laid forward (Layout.length_settle ops) realized, bytes,
    short.trans (resolved.countJumps is _), wide.trans (resolved.countJumps is _)⟩

theorem Laid.encodable (laid : c.Laid is) (fits : ∀ i, Op.plain i ∈ c.ops → i.Encodable) :
    ∀ i ∈ is, i.Encodable := by
  intro i member
  obtain ⟨k, found⟩ := mem_iff_getElem?.1 member
  have here : k < c.ops.size := laid.length_eq ▸ (List.getElem?_eq_some_iff.1 found).1
  cases original : c.ops[k] with
  | plain j =>
    cases found.symm.trans (laid.plain k j (by simp [here, original]))
    exact fits i (original ▸ Array.getElem_mem here)
  | jump cond label =>
    obtain ⟨j, _, _, placed, form, _⟩ := laid.jump k cond label (by simp [here, original])
    cases found.symm.trans placed
    obtain ⟨offset, rfl, -⟩ | ⟨offset, rfl, -⟩ := form <;> simp [Instruction.Encodable, Instruction.nibbles]

/-! ## Building a buffer -/

/-- A step in building a body. -/
inductive BuildStep where
  | emit (i : Instruction)
  | newLabel
  | bind (label : Label)
  | jump (cond : Condition) (label : Label)
  deriving DecidableEq, Repr

namespace BuildStep

/-- The buffer after a step. -/
def apply (c : CodeBuffer) : BuildStep → CodeBuffer
  | .emit i => c.emit i
  | .newLabel => c.newLabel.2
  | .bind label => c.bind label
  | .jump cond label => c.jump cond label

/-- The operation that a step appends. -/
def op? : BuildStep → Option Op
  | .emit i => some (.plain i)
  | .newLabel | .bind _ => none
  | .jump cond label => some (.jump cond label)

end BuildStep

/-- The buffer that steps build. -/
def build (steps : List BuildStep) : CodeBuffer :=
  steps.foldl BuildStep.apply .empty

/-- The operations that steps append, in order. -/
def opsOf (steps : List BuildStep) : List Op :=
  steps.filterMap BuildStep.op?

theorem target?_push_none (c : CodeBuffer) (label : Label) :
    ({ c with labels := c.labels.push none } : CodeBuffer).target? label = c.target? label := by
  simp only [target?, Array.getElem?_push]
  split
  · next last => simp [last]
  · rfl

theorem target?_bind (c : CodeBuffer) (bound label : Label) (found : (c.bind bound).target? label = some target) :
    bound = label ∧ target = c.ops.size ∨ bound ≠ label ∧ c.target? label = some target := by
  simp only [bind, target?, Array.getElem?_setIfInBounds] at found
  by_cases same : bound = label
  · subst same
    rw [if_pos rfl] at found
    split at found
    · exact .inl ⟨rfl, (Option.some.inj found).symm⟩
    · cases found
  · have apart : bound.index ≠ label.index := fun equal => same (congrArg Label.mk equal)
    rw [if_neg apart] at found
    exact .inr ⟨same, found⟩

theorem toList_ops_foldl (steps : List BuildStep) (c : CodeBuffer) :
    (steps.foldl BuildStep.apply c).ops.toList = c.ops.toList ++ opsOf steps := by
  induction steps generalizing c with
  | nil => simp [opsOf]
  | cons step rest ih =>
    rw [foldl_cons, ih]
    cases step <;> simp [BuildStep.apply, emit, newLabel, bind, jump, opsOf, BuildStep.op?, filterMap_cons]

theorem toList_ops_build (steps : List BuildStep) : (build steps).ops.toList = opsOf steps := by
  simp [build, toList_ops_foldl, empty]

theorem mem_of_plain_mem_build {i : Instruction} (member : Op.plain i ∈ (build steps).ops) : .emit i ∈ steps := by
  rw [← Array.mem_toList_iff, toList_ops_build, opsOf, mem_filterMap] at member
  obtain ⟨step, taken, appended⟩ := member
  cases step <;> simp only [BuildStep.op?, Option.some.injEq, Op.plain.injEq, reduceCtorEq] at appended
  exact appended ▸ taken

/-- A label stands where the last step that binds it was taken, or where it stood at first. -/
theorem target?_foldl {label : Label} (found : (steps.foldl BuildStep.apply c).target? label = some target) :
    (∃ before after, steps = before ++ .bind label :: after ∧ .bind label ∉ after ∧
        target = c.ops.size + (opsOf before).length) ∨ .bind label ∉ steps ∧ c.target? label = some target := by
  induction steps generalizing c with
  | nil => exact .inr ⟨by simp, found⟩
  | cons step rest ih =>
    obtain ⟨before, after, same, last, here⟩ | ⟨absent, earlier⟩ := ih found
    · refine .inl ⟨step :: before, after, by simp [same], last, ?_⟩
      have size := congrArg length (toList_ops_foldl [step] c)
      simp only [foldl_cons, foldl_nil, Array.length_toList, length_append] at size
      rw [here, size, Nat.add_assoc, ← length_append]
      simp [opsOf, ← filterMap_append]
    · cases step with
      | emit _ | jump _ _ => exact .inr ⟨by simpa using absent, earlier⟩
      | newLabel => exact .inr ⟨by simpa using absent, target?_push_none c label ▸ earlier⟩
      | bind bound =>
        obtain ⟨rfl, here⟩ | ⟨apart, earlier⟩ := target?_bind c bound label earlier
        · exact .inl ⟨[], rest, rfl, absent, by simpa [opsOf] using here⟩
        · exact .inr ⟨by simp [absent, Ne.symm apart], earlier⟩

/-- A label of a built buffer stands where the last step that binds it was taken. -/
theorem target?_build {label : Label} (found : (build steps).target? label = some target) :
    ∃ before after, steps = before ++ .bind label :: after ∧ .bind label ∉ after ∧
      target = (opsOf before).length := by
  obtain ⟨before, after, same, last, here⟩ | ⟨-, unbound⟩ := target?_foldl found
  · exact ⟨before, after, same, last, by simpa [empty] using here⟩
  · cases unbound

theorem labelsInside_build (steps : List BuildStep) : (build steps).LabelsInside := by
  intro label target found
  obtain ⟨before, after, same, -, here⟩ := target?_build found
  rw [here, ← Array.length_toList, toList_ops_build, same]
  simp [opsOf]

/-- The code of a finished buffer reads back as its operations in order. A plain instruction comes back
as it was. A jump comes back on its own condition, and its offset leads from the instruction after it to
the operation before which its label was bound last, or to the end of the code. -/
theorem decodeAll_finish_build (steps : List BuildStep)
    (fits : ∀ i, .emit i ∈ steps → i.Encodable) {code : FinishedCode} (finished : (build steps).finish = .ok code) :
    ∃ listing : List (Nat × Instruction), Instruction.decodeAll code.bytes = .ok listing ∧
      listing.length = (opsOf steps).length ∧ (∀ (k : Nat) (i : Instruction), (opsOf steps)[k]? = some (.plain i) →
        ∃ here, listing[k]? = some (here, i)) ∧
      (∀ (k : Nat) (cond : Condition) (label : Label), (opsOf steps)[k]? = some (.jump cond label) →
        ∃ here i distance before after, listing[k]? = some (here, i) ∧
          (i.IsShortJump cond distance ∨ i.IsWideJump cond distance) ∧
          steps = before ++ .bind label :: after ∧ .bind label ∉ after ∧ here + i.length + distance =
            (listing[(opsOf before).length]?.map Prod.fst).getD code.bytes.length) ∧
      code.shortJumps = countJumps (opsOf steps) (listing.map Prod.snd) Instruction.isJump8 ∧
      code.wideJumps = countJumps (opsOf steps) (listing.map Prod.snd) Instruction.isJump16 := by
  obtain ⟨is, laid, bytes, short, wide⟩ := laid_of_finish (labelsInside_build steps) finished
  have encodable : ∀ i ∈ is, i.Encodable := laid.encodable fun i member =>
    fits i (mem_of_plain_mem_build member)
  have found_op : ∀ {k : Nat} {op : Op}, (opsOf steps)[k]? = some op →
      (build steps).ops[k]? = some op := by
    intro k op found
    rwa [← toList_ops_build, Array.getElem?_toList] at found
  rw [toList_ops_build] at short wide
  refine ⟨Instruction.located 0 is, bytes ▸ Instruction.decodeAll_flatMap_encode encodable, ?_, ?_, ?_, ?_, ?_⟩
  · rw [Instruction.length_located, laid.length_eq, ← Array.length_toList, toList_ops_build]
  · intro k i found
    refine ⟨0 + Instruction.address is k, ?_⟩
    rw [Instruction.getElem?_located, laid.plain k i (found_op found), Option.map_some]
  · intro k cond label found
    obtain ⟨i, distance, target, placed, form, bound, -, within, lands⟩ :=
      laid.jump k cond label (found_op found)
    obtain ⟨before, after, same, last, rfl⟩ := target?_build bound
    refine ⟨0 + Instruction.address is k, i, distance, before, after, ?_, form, same, last, ?_⟩
    · rw [Instruction.getElem?_located, placed, Option.map_some]
    · rw [Nat.zero_add, lands, bytes, Instruction.address_eq_located is within]
  · rw [short, Instruction.map_snd_located]
  · rw [wide, Instruction.map_snd_located]

/-- Two jumps to a label that is bound twice go to its later place, at the end of the code. -/
theorem decodeAll_finish_build_rebound :
    let steps : List BuildStep := [.newLabel, .jump .eq ⟨0⟩, .bind ⟨0⟩, .emit (.mov 3 15),
      .jump .always ⟨0⟩, .emit .nop, .bind ⟨0⟩]
    ∃ code, (build steps).finish = .ok code ∧ (∀ i, .emit i ∈ steps → i.Encodable) ∧
      ∃ listing, Instruction.decodeAll code.bytes = .ok listing ∧
        listing.length = 4 ∧ code.shortJumps = 2 := by
  intro steps
  have fits : ∀ i, .emit i ∈ steps → i.Encodable := by
    intro i member
    simp only [steps, List.mem_cons, reduceCtorEq, BuildStep.emit.injEq, false_or, or_false,
      List.not_mem_nil] at member
    obtain rfl | rfl := member <;> decide
  have finished : (build steps).finish = .ok ⟨[66, 5, 1, 63, 64, 1, 0], 2, 0⟩ := by rfl
  obtain ⟨listing, decoded, length, -⟩ := decodeAll_finish_build steps fits finished
  exact ⟨_, finished, fits, listing, decoded, length, rfl⟩

end CodeBuffer

end RegisterLang
