import RegisterLang.Proofs.Labels

/-! # The shortest layout

Which jumps are wide is settled from below: a round only widens a jump that no layout could keep short
beside the jumps that are wide already. Main statement: `finish_build_shortest`, a jump that is wide in a
finished buffer is wide in every layout whose short jumps reach their labels, so no code of the same
operations is shorter.
-/

namespace RegisterLang

open Instruction List

variable {k : Nat} {is : List Instruction} {cond : Condition}

namespace Layout

/-! ## Comparing layouts -/

/-- Every jump that is wide in the first layout is wide in the second. -/
def Below (ops : List ResolvedOp) (narrow wide : List Bool) : Prop :=
  ∀ (k : Nat) (cond : Condition) (target : Nat), ops[k]? = some (.jump cond target) →
    narrow[k]? = some true → wide[k]? = some true

/-- How many bytes there are from operation `k` to operation `l`. -/
def bytesBetween (ops : List ResolvedOp) (wide : List Bool) (k l : Nat) : Nat :=
  start ops wide l - start ops wide k

/-- Every jump that is short reaches its target. -/
def ShortFits (ops : List ResolvedOp) (wide : List Bool) : Prop :=
  ∀ (k : Nat) (cond : Condition) (target : Nat), ops[k]? = some (.jump cond target) →
    wide[k]? = some false → bytesBetween ops wide (k + 1) target ≤ shortLimit

/-- Every jump that is wide skips more than a short jump can. -/
def WideNeeded (ops : List ResolvedOp) (wide : List Bool) : Prop :=
  ∀ (k : Nat) (cond : Condition) (target : Nat), ops[k]? = some (.jump cond target) →
    wide[k]? = some true → shortLimit < bytesBetween ops wide (k + 1) target

variable {ops : List ResolvedOp} {narrow wide : List Bool}

theorem start_add_one_of_length_le (same : wide.length = ops.length) (outside : ops.length ≤ k) :
    start ops wide (k + 1) = start ops wide k := by
  have zipped : (ops.zip wide).length ≤ k := by simpa [same] using outside
  rw [start, start, take_of_length_le zipped, take_of_length_le (by omega)]

theorem opLength_le_of_below (below : Below ops narrow wide) {op : ResolvedOp} {n w : Bool}
    (found : ops[k]? = some op) (given : narrow[k]? = some n) (given' : wide[k]? = some w) :
    opLength op n ≤ opLength op w := by
  cases op with
  | plain i => exact Nat.le_refl _
  | jump cond target =>
    cases n with
    | false => cases w <;> simp [opLength, jumpLength]
    | true =>
      cases given'.symm.trans (below k cond target found given)
      exact Nat.le_refl _

/-- One operation after another, the layout with more wide jumps moves ahead. -/
theorem start_add_le (below : Below ops narrow wide) (same : narrow.length = ops.length)
    (same' : wide.length = ops.length) (k d : Nat) :
    start ops narrow (k + d) + start ops wide k ≤ start ops wide (k + d) + start ops narrow k := by
  induction d with
  | zero => exact Nat.le_of_eq (Nat.add_comm _ _)
  | succ d ih =>
    rw [← Nat.add_assoc]
    by_cases inside : k + d < ops.length
    · have found := getElem?_eq_getElem inside
      have given := getElem?_eq_getElem (same.symm ▸ inside : k + d < narrow.length)
      have given' := getElem?_eq_getElem (same'.symm ▸ inside : k + d < wide.length)
      have longer := opLength_le_of_below below found given given'
      rw [start_succ (getElem?_zip_eq_some found given), start_succ (getElem?_zip_eq_some found given')]
      omega
    · have outside : ops.length ≤ k + d := Nat.le_of_not_lt inside
      rw [start_add_one_of_length_le same outside, start_add_one_of_length_le same' outside]
      exact ih

theorem bytesBetween_le (below : Below ops narrow wide) (same : narrow.length = ops.length)
    (same' : wide.length = ops.length) {l : Nat} (ordered : k ≤ l) :
    bytesBetween ops narrow k l ≤ bytesBetween ops wide k l := by
  obtain ⟨d, rfl⟩ := Nat.exists_eq_add_of_le ordered
  have ahead := start_add_le below same same' k d
  rw [bytesBetween, bytesBetween]
  omega

/-! ## What a round widens -/

/-- A jump is wide after a round when it was wide before, or was too long as a short jump. -/
theorem widen_eq_true_iff (forward : Forward ops) (same : wide.length = ops.length) {target : Nat}
    (found : ops[k]? = some (.jump cond target)) : (widen ops wide)[k]? = some true ↔ wide[k]? = some true ∨
      wide[k]? = some false ∧ shortLimit < bytesBetween ops wide (k + 1) target := by
  have here : k < wide.length := same ▸ (List.getElem?_eq_some_iff.1 found).1
  have inside := (forward k cond target found).2
  cases flag : wide[k] with
  | true =>
    have given : wide[k]? = some true := flag ▸ getElem?_eq_getElem here
    rw [getElem?_widen found given, mustWiden_true, given]
    simp
  | false =>
    have given : wide[k]? = some false := flag ▸ getElem?_eq_getElem here
    rw [getElem?_widen found given, mustWiden, distance_eq same found given inside, given, bytesBetween]
    simp

theorem below_widen (forward : Forward ops) (same : wide.length = ops.length) :
    Below ops wide (widen ops wide) := fun _ _ _ found set =>
  (widen_eq_true_iff forward same found).2 (.inl set)

/-- A round stays below every layout whose short jumps reach their targets. -/
theorem Below.widen (forward : Forward ops) (fits : ShortFits ops wide)
    (same : narrow.length = ops.length) (same' : wide.length = ops.length)
    (below : Below ops narrow wide) : Below ops (widen ops narrow) wide := by
  intro k cond target found set
  obtain set | ⟨-, long⟩ := (widen_eq_true_iff forward same found).1 set
  · exact below k cond target found set
  · have here : k < wide.length := same' ▸ (List.getElem?_eq_some_iff.1 found).1
    have further := bytesBetween_le (k := k + 1) below same same' (forward k cond target found).1
    cases flag : wide[k] with
    | true => exact flag ▸ getElem?_eq_getElem here
    | false =>
      -- a short jump there would have to skip at least as much as it did in this round
      have short := fits k cond target found (flag ▸ getElem?_eq_getElem here)
      omega

/-- What a round widens is too long for a short jump, and stays so as other jumps widen. -/
theorem WideNeeded.widen (forward : Forward ops) (same : wide.length = ops.length)
    (needed : WideNeeded ops wide) : WideNeeded ops (widen ops wide) := by
  intro k cond target found set
  have further := bytesBetween_le (below_widen forward same) same (length_widen same) (forward k cond target found).1
  obtain set | ⟨-, long⟩ := (widen_eq_true_iff forward same found).1 set
  · exact Nat.lt_of_lt_of_le (needed k cond target found set) further
  · exact Nat.lt_of_lt_of_le long further

/-- What holds when every jump is short, and is kept by every round, holds of the settled layout. -/
theorem settle_induction {motive : List Bool → Prop} (short : motive (replicate ops.length false))
    (round : ∀ wide, wide.length = ops.length → motive wide → motive (widen ops wide)) : motive (settle ops) := by
  have within (bound : List Bool) : ∀ wide : List Bool, wide.length = ops.length → motive wide →
      motive (settleWithin ops bound wide) := by
    induction bound with
    | nil => exact fun _ _ start => start
    | cons _ bound ih =>
      intro wide same start
      rw [settleWithin]
      split
      · exact start
      · exact ih _ (length_widen same) (round wide same start)
  exact within _ _ (by simp) short

theorem getElem?_replicate_false (n k : Nat) : (replicate n false)[k]? ≠ some true := by
  rw [getElem?_replicate]
  split <;> simp

/-- The settled layout is below every layout whose short jumps reach their targets. -/
theorem settle_below (forward : Forward ops) (same : wide.length = ops.length)
    (fits : ShortFits ops wide) : Below ops (settle ops) wide :=
  settle_induction (motive := fun narrow => Below ops narrow wide)
    (fun k _ _ _ set => (getElem?_replicate_false _ k set).elim)
    fun _ same' below => below.widen forward fits same' same

theorem wideNeeded_settle (forward : Forward ops) : WideNeeded ops (settle ops) :=
  settle_induction (fun k _ _ _ set => (getElem?_replicate_false _ k set).elim)
    fun _ same needed => needed.widen forward same

theorem Realizes.length_flatMap_encode (laid : Realizes ops wide is) (same : wide.length = ops.length) :
    (is.flatMap Instruction.encode).length = start ops wide ops.length := by
  rw [Instruction.length_flatMap_encode, ← laid.address_eq_start same, Instruction.address,
    ← laid.length_eq, take_length]

/-- A jump that comes out in the wide form is one that the layout makes wide. -/
theorem Realizes.wide_of_jump16 (laid : Realizes ops wide is) (same : wide.length = ops.length) {target : Nat}
    {cond' : Condition} {offset : UInt16} (found : ops[k]? = some (.jump cond target))
    (placed : is[k]? = some (.jump16 cond' offset)) :
    wide[k]? = some true ∧ offset.toNat = bytesBetween ops wide (k + 1) target := by
  have here : k < wide.length := same ▸ (List.getElem?_eq_some_iff.1 found).1
  cases flag : wide[k] with
  | false =>
    obtain ⟨i, placed', short, rfl, -⟩ :=
      laid.short k cond target found (flag ▸ getElem?_eq_getElem here)
    cases placed.symm.trans placed'
  | true =>
    have set : wide[k]? = some true := flag ▸ getElem?_eq_getElem here
    obtain ⟨i, placed', long, rfl, skipped⟩ := laid.wide k cond target found set
    cases placed.symm.trans placed'
    exact ⟨set, skipped⟩

end Layout

/-- The length of an operation, given whether it is wide when it is a jump. -/
def Op.length : Op → Bool → Nat
  | .plain i, _ => i.length
  | .jump _ _, wide => Layout.jumpLength wide

namespace CodeBuffer

/-! ## Layouts of a buffer -/

/-- Where operation `k` starts when the jumps with the given numbers are wide. -/
def startOf (c : CodeBuffer) (wide : Nat → Bool) : Nat → Nat
  | 0 => 0
  | k + 1 => c.startOf wide k + c.ops[k]?.elim 0 fun op => op.length (wide k)

/-- Every jump that is short skips at most 255 bytes on the way to its label. -/
def ShortJumpsFit (c : CodeBuffer) (wide : Nat → Bool) : Prop :=
  ∀ (k : Nat) (cond : Condition) (label : Label) (target : Nat),
    c.ops[k]? = some (.jump cond label) → c.target? label = some target → wide k = false →
      c.startOf wide target - c.startOf wide (k + 1) ≤ 255

/-- The choice of a layout for the operations of a buffer, as a list. -/
def flags (c : CodeBuffer) (wide : Nat → Bool) : List Bool :=
  (range c.ops.size).map wide

@[simp]
theorem length_flags (c : CodeBuffer) (wide : Nat → Bool) : (c.flags wide).length = c.ops.size := by
  simp [flags]

theorem getElem?_flags {c : CodeBuffer} (inside : k < c.ops.size) (wide : Nat → Bool) :
    (c.flags wide)[k]? = some (wide k) := by
  simp [flags, inside]

variable {c : CodeBuffer} {ops : List ResolvedOp}

theorem Resolves.opLength (resolved : c.Resolves ops) {op : Op} (found : c.ops[k]? = some op) (w : Bool) :
    ∃ r, ops[k]? = some r ∧ Layout.opLength r w = op.length w := by
  cases op with
  | plain i => exact ⟨_, resolved.plain k i found, rfl⟩
  | jump cond label =>
    obtain ⟨target, -, placed⟩ := resolved.jump k cond label found
    exact ⟨_, placed, rfl⟩

theorem Resolves.startOf (resolved : c.Resolves ops) (wide : Nat → Bool) (k : Nat) :
    c.startOf wide k = Layout.start ops (c.flags wide) k := by
  induction k with
  | zero => rfl
  | succ k ih =>
    rw [CodeBuffer.startOf, ih]
    by_cases inside : k < c.ops.size
    · have found := Array.getElem?_eq_getElem inside
      obtain ⟨r, placed, long⟩ := resolved.opLength found (wide k)
      rw [Layout.start_succ (Layout.getElem?_zip_eq_some placed (getElem?_flags inside wide)), found, long]
      rfl
    · have outside : c.ops.size ≤ k := Nat.le_of_not_lt inside
      rw [Layout.start_add_one_of_length_le (by rw [length_flags, resolved.length_eq])
        (resolved.length_eq ▸ outside), Array.getElem?_eq_none outside]
      rfl

theorem Resolves.shortFits (resolved : c.Resolves ops) {wide : Nat → Bool}
    (fits : c.ShortJumpsFit wide) : Layout.ShortFits ops (c.flags wide) := by
  intro k cond target found given
  obtain ⟨label, original, bound⟩ := resolved.jump_of found
  have here : k < c.ops.size := (Array.getElem?_eq_some_iff.1 original).1
  have short : wide k = false := Option.some.inj ((getElem?_flags here wide).symm.trans given)
  have reached := fits k cond label target original bound short
  rwa [resolved.startOf, resolved.startOf] at reached

/-! ## Any code of the same operations -/

/-- Which instructions of a list are wide jumps. -/
def wideIn (is : List Instruction) (k : Nat) : Bool :=
  is[k]?.any isJump16

theorem Laid.startOf (laid : c.Laid is) (k : Nat) : c.startOf (wideIn is) k = address is k := by
  induction k with
  | zero => rfl
  | succ k ih =>
    rw [CodeBuffer.startOf, ih]
    by_cases inside : k < c.ops.size
    · have found := Array.getElem?_eq_getElem inside
      cases op : c.ops[k] with
      | plain i =>
        rw [address_succ (laid.plain k i (op ▸ found)), found, op]
        rfl
      | jump cond label =>
        obtain ⟨i, distance, target, placed, form, -⟩ := laid.jump k cond label (op ▸ found)
        have long : (Op.jump cond label).length (wideIn is k) = i.length := by
          rw [wideIn, placed]
          obtain ⟨offset, rfl, -⟩ | ⟨offset, rfl, -⟩ := form <;> rfl
        rw [address_succ placed, found, op, ← long]
        rfl
    · have outside : c.ops.size ≤ k := Nat.le_of_not_lt inside
      have stop : is.length ≤ k := laid.length_eq ▸ outside
      rw [Array.getElem?_eq_none outside, address, address,
        take_of_length_le stop, take_of_length_le (Nat.le_succ_of_le stop)]
      rfl

theorem Laid.shortJumpsFit (laid : c.Laid is) : c.ShortJumpsFit (wideIn is) := by
  intro k cond label target found bound short
  obtain ⟨i, distance, target', placed, form, bound', -, -, lands⟩ := laid.jump k cond label found
  cases bound.symm.trans bound'
  rw [laid.startOf, laid.startOf, address_succ placed]
  obtain ⟨offset, rfl, skipped⟩ | ⟨offset, rfl, -⟩ := form
  · have small := offset.toNat_lt
    omega
  · rw [wideIn, placed] at short
    cases short

theorem Laid.length_flatMap_encode (laid : c.Laid is) :
    (is.flatMap Instruction.encode).length = c.startOf (wideIn is) c.ops.size := by
  rw [laid.startOf, Instruction.length_flatMap_encode, Instruction.address, ← laid.length_eq, take_length]

/-- A finished buffer is laid out as short as can be. Every wide jump in it skips more than 255 bytes. A
jump that is wide in it is wide in every choice of wide jumps under which the short ones skip at most 255
bytes, so the code is no longer than under any such choice, nor than any other instructions that stand for
the same operations. -/
theorem finish_build_shortest (steps : List BuildStep) {code : FinishedCode}
    (finished : (build steps).finish = .ok code) :
    ∃ is, (build steps).Laid is ∧ code.bytes = is.flatMap Instruction.encode ∧
      (∀ (k : Nat) (cond cond' : Condition) (label : Label) (offset : UInt16),
        (build steps).ops[k]? = some (.jump cond label) → is[k]? = some (.jump16 cond' offset) → 255 < offset.toNat) ∧
      (∀ wide : Nat → Bool, (build steps).ShortJumpsFit wide →
        (∀ (k : Nat) (cond cond' : Condition) (label : Label) (offset : UInt16),
          (build steps).ops[k]? = some (.jump cond label) → is[k]? = some (.jump16 cond' offset) → wide k = true) ∧
        code.bytes.length ≤ (build steps).startOf wide (build steps).ops.size) ∧ ∀ other, (build steps).Laid other →
        code.bytes.length ≤ (other.flatMap Instruction.encode).length := by
  obtain ⟨ops, resolved, forward, assembled⟩ := finish_eq_ok (labelsInside_build steps) finished
  obtain ⟨is, realized, bytes, -⟩ := Layout.assemble_eq_ok forward assembled
  have settled := Layout.length_settle ops
  have wideIs {k : Nat} {cond cond' : Condition} {target : Nat} {offset : UInt16}
      (found : ops[k]? = some (.jump cond target)) (placed : is[k]? = some (.jump16 cond' offset)) :=
    realized.wide_of_jump16 settled found placed
  have least (wide : Nat → Bool) (fits : (build steps).ShortJumpsFit wide) :
      Layout.Below ops (Layout.settle ops) ((build steps).flags wide) :=
    Layout.settle_below forward (by rw [length_flags, resolved.length_eq]) (resolved.shortFits fits)
  have shortest (wide : Nat → Bool) (fits : (build steps).ShortJumpsFit wide) :
      code.bytes.length ≤ (build steps).startOf wide (build steps).ops.size := by
    rw [bytes, realized.length_flatMap_encode settled, resolved.startOf, ← resolved.length_eq]
    have ahead := Layout.start_add_le (least wide fits) settled
      (by rw [length_flags, resolved.length_eq]) 0 ops.length
    simpa [Layout.start] using ahead
  refine ⟨is, resolved.laid forward settled realized, bytes, ?_, ?_, ?_⟩
  · intro k cond cond' label offset found placed
    obtain ⟨target, -, jump⟩ := resolved.jump k cond label found
    obtain ⟨set, skipped⟩ := wideIs jump placed
    exact skipped ▸ Layout.wideNeeded_settle forward k cond target jump set
  · intro wide fits
    refine ⟨?_, shortest wide fits⟩
    intro k cond cond' label offset found placed
    obtain ⟨target, -, jump⟩ := resolved.jump k cond label found
    have set := least wide fits k cond target jump (wideIs jump placed).1
    have here : k < (build steps).ops.size := (Array.getElem?_eq_some_iff.1 found).1
    exact Option.some.inj ((getElem?_flags here wide).symm.trans set)
  · intro other laid
    exact laid.length_flatMap_encode ▸ shortest _ laid.shortJumpsFit

/-- The second jump skips 256 bytes and has to be wide. That pushes the first one, which skips 255 bytes
over a short jump, over the limit, so no layout does with less than 262 bytes. -/
theorem finish_build_shortest_cascade :
    let steps : List BuildStep := [.newLabel, .newLabel, .jump .eq ⟨0⟩, .jump .always ⟨1⟩] ++
      List.replicate 25 (.emit (.ldi64 0 0)) ++ List.replicate 3 (.emit .nop) ++ [.bind ⟨0⟩] ++
      List.replicate 3 (.emit .nop) ++ [.bind ⟨1⟩]
    ∃ code, (build steps).finish = .ok code ∧ code.wideJumps = 2 ∧
      ∀ wide, (build steps).ShortJumpsFit wide →
        262 ≤ (build steps).startOf wide (build steps).ops.size := by
  intro steps
  have measured : (build steps).finish.toOption.map (fun code => (code.wideJumps, code.bytes.length)) =
      some (2, 262) := by decide +kernel
  cases finished : (build steps).finish with
  | error e =>
    rw [finished] at measured
    cases measured
  | ok code =>
    rw [finished] at measured
    obtain ⟨wideJumps, size⟩ := Prod.mk.inj (Option.some.inj measured)
    obtain ⟨is, -, -, -, shortest, -⟩ := finish_build_shortest steps finished
    exact ⟨code, rfl, wideJumps, fun wide fits => size ▸ (shortest wide fits).2⟩

end CodeBuffer

end RegisterLang
