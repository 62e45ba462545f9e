import RegisterLang.Proofs.Growth
import RegisterLang.Proofs.Shortest

/-! # When code cannot be laid out

Each round of widening but the last one makes some jump wide, so there is at most one round more than there are jumps.
Main statement: `finish_build_eq_iff`, finishing a buffer fails exactly at a jump whose label was never bound, at a jump
that does not go forward, or at one that is too long in the shortest layout.
-/

namespace RegisterLang

open Layout List

variable {ops : List ResolvedOp} {k : Nat}

namespace Layout

/-! ## Rounds -/

/-- Which operations are wide after a number of rounds. -/
def afterRounds (ops : List ResolvedOp) : Nat → List Bool
  | 0 => replicate ops.length false
  | n + 1 => widen ops (afterRounds ops n)

@[simp]
theorem length_afterRounds (ops : List ResolvedOp) (n : Nat) : (afterRounds ops n).length = ops.length := by
  induction n with
  | zero => simp [afterRounds]
  | succ n ih => exact length_widen ih

theorem settle_eq_afterRounds (ops : List ResolvedOp) :
    ∃ n, settle ops = afterRounds ops n ∧ ∀ m < n, afterRounds ops (m + 1) ≠ afterRounds ops m := by
  have within (bound : List Bool) (m : Nat) (changed : ∀ l < m, afterRounds ops (l + 1) ≠ afterRounds ops l) :
      ∃ n, settleWithin ops bound (afterRounds ops m) = afterRounds ops n ∧
        ∀ l < n, afterRounds ops (l + 1) ≠ afterRounds ops l := by
    induction bound generalizing m with
    | nil => exact ⟨m, rfl, changed⟩
    | cons _ bound ih =>
      rw [settleWithin]
      split
      · exact ⟨m, rfl, changed⟩
      · next changes =>
        refine ih (m + 1) fun l below => ?_
        rcases Nat.lt_succ_iff_lt_or_eq.1 below with below | rfl
        · exact changed l below
        · exact changes
  exact within _ 0 fun _ impossible => absurd impossible (Nat.not_lt_zero _)

theorem count_le_count {as bs : List Bool} (same : as.length = bs.length)
    (above : ∀ i : Nat, as[i]? = some true → bs[i]? = some true) : as.count true ≤ bs.count true := by
  by_cases equal : as = bs
  · rw [equal]
  · exact Nat.le_of_lt (count_lt_count same above equal)

theorem isJump_of_afterRounds (n : Nat) (set : (afterRounds ops n)[k]? = some true) :
    (ops.map isJump)[k]? = some true := by
  induction n with
  | zero => exact absurd set (getElem?_replicate_false _ k)
  | succ n ih =>
    have inside : k < ops.length := length_afterRounds ops (n + 1) ▸ (List.getElem?_eq_some_iff.1 set).1
    have found := getElem?_eq_getElem inside
    have given := getElem?_eq_getElem ((length_afterRounds ops n).symm ▸ inside : k < (afterRounds ops n).length)
    rw [afterRounds, getElem?_widen found given] at set
    cases op : ops[k] with
    | plain i =>
      rw [op] at set
      exact ih (given.trans set)
    | jump cond target => rw [getElem?_map, found, op, Option.map_some, isJump]

/-- A round that changes something makes a jump wide, so there are no more such rounds than jumps. -/
theorem rounds_le {n : Nat} (changed : ∀ m < n, afterRounds ops (m + 1) ≠ afterRounds ops m) :
    n ≤ (ops.map isJump).count true := by
  have counted : n ≤ (afterRounds ops n).count true := by
    induction n with
    | zero => exact Nat.zero_le _
    | succ n ih =>
      have before := ih fun m below => changed m (Nat.lt_succ_of_lt below)
      have more := count_lt_count_widen (length_afterRounds ops n) (changed n (Nat.lt_succ_self n))
      exact Nat.lt_of_le_of_lt before more
  exact Nat.le_trans counted (count_le_count (by simp) fun i => isJump_of_afterRounds n)

/-- Widening ends with the settled layout after so many rounds that change something. -/
structure SettledAfter (ops : List ResolvedOp) (rounds : Nat) : Prop where
  settled : settle ops = afterRounds ops rounds
  changed : ∀ n < rounds, afterRounds ops (n + 1) ≠ afterRounds ops n
  fixed : afterRounds ops (rounds + 1) = afterRounds ops rounds

/-- By the addresses of a layout, every jump ends at or before its target. -/
def JumpsEndBefore (ops : List ResolvedOp) (wide : List Bool) : Prop :=
  ∀ (k : Nat) (cond : Condition) (target : Nat) (w : Bool), ops[k]? = some (.jump cond target) → wide[k]? = some w →
    (addresses ops wide).getD k 0 + jumpLength w ≤ (addresses ops wide).getD target 0

theorem jumpsEndBefore (forward : Forward ops) {wide : List Bool} (same : wide.length = ops.length) :
    JumpsEndBefore ops wide := by
  intro k cond target w found given
  obtain ⟨ahead, inside⟩ := forward k cond target found
  have zipped : (ops.zip wide).length = ops.length := by simp [same]
  have here : k ≤ ops.length := Nat.le_of_lt (List.getElem?_eq_some_iff.1 found).1
  rw [addresses_getD ops wide (zipped ▸ here), addresses_getD ops wide (zipped ▸ inside)]
  have next := start_succ (getElem?_zip_eq_some found given)
  rw [opLength] at next
  exact next ▸ start_mono ops wide ahead

/-- Which operations are wide in the settled layout, by their numbers. -/
def settledWide (ops : List ResolvedOp) (k : Nat) : Bool :=
  (settle ops)[k]?.getD false

/-- Operations can be assembled unless a jump is too long in the settled layout. -/
theorem exists_assemble_eq_ok_iff (forward : Forward ops) :
    (∃ code, assemble ops = .ok code) ↔ ∀ (k : Nat) (cond : Condition) (target : Nat),
      ops[k]? = some (.jump cond target) → bytesBetween ops (settle ops) (k + 1) target ≤ wideLimit := by
  constructor
  · rintro ⟨code, assembled⟩ k cond target found
    obtain ⟨is, laid, -⟩ := assemble_eq_ok forward assembled
    obtain ⟨w, -, given, -⟩ := laid.cases_at (length_settle ops) found
    cases w with
    | false =>
      obtain ⟨_, -, offset, -, skipped⟩ := laid.short k cond target found given
      have small := offset.toNat_lt
      rw [bytesBetween, wideLimit]
      omega
    | true =>
      obtain ⟨_, -, offset, -, skipped⟩ := laid.wide k cond target found given
      have small := offset.toNat_lt
      rw [bytesBetween, wideLimit]
      omega
  · intro fits
    cases assembled : assemble ops with
    | ok code => exact ⟨code, rfl⟩
    | error e =>
      obtain ⟨k, cond, target, found, set, long, -⟩ := assemble_eq_error assembled
      rw [distance_eq (length_settle ops) found set (forward k cond target found).2] at long
      exact absurd (fits k cond target found) (Nat.not_le.2 long)

end Layout

namespace CodeBuffer

/-! ## Labels -/

variable {steps : List BuildStep} {label : Label} {target : Nat} {c : CodeBuffer}

/-- The last step that binds a label binds it before operation `target`, behind the step that made the label. -/
def Binds (steps : List BuildStep) (label : Label) (target : Nat) : Prop :=
  ∃ before after, steps = before ++ .bind label :: after ∧ .bind label ∉ after ∧
    label.index < before.count .newLabel ∧ target = (opsOf before).length

theorem size_labels_foldl (steps : List BuildStep) (c : CodeBuffer) :
    (steps.foldl BuildStep.apply c).labels.size = c.labels.size + steps.count .newLabel := by
  induction steps generalizing c with
  | nil => rfl
  | cons step rest ih =>
    rw [foldl_cons, ih, count_cons]
    cases step with
    | newLabel => simp [BuildStep.apply, newLabel, Nat.add_right_comm, Nat.add_assoc]
    | emit _ | bind _ | jump _ _ => simp [BuildStep.apply, emit, bind, jump]

theorem target?_foldl_of_not_mem (absent : .bind label ∉ steps) :
    (steps.foldl BuildStep.apply c).target? label = c.target? label := by
  induction steps generalizing c with
  | nil => rfl
  | cons step rest ih =>
    rw [mem_cons, not_or] at absent
    rw [foldl_cons, ih absent.2]
    cases step with
    | emit _ | jump _ _ => rfl
    | newLabel => exact target?_push_none c label
    | bind bound =>
      have apart : bound.index ≠ label.index := fun same => absent.1 (congrArg (BuildStep.bind ⟨·⟩) same.symm)
      exact target?_bind_of_ne apart

theorem target?_bind_eq (c : CodeBuffer) (label : Label) :
    (c.bind label).target? label = if label.index < c.labels.size then some c.ops.size else none := by
  rw [bind, target?, Array.getElem?_setIfInBounds, if_pos rfl]
  split <;> rfl

theorem target?_build_iff : (build steps).target? label = some target ↔ Binds steps label target := by
  have bound (before after : List BuildStep) (last : .bind label ∉ after) :
      (build (before ++ .bind label :: after)).target? label =
        if label.index < before.count .newLabel then some (opsOf before).length else none := by
    have size : (build before).ops.size = (opsOf before).length := by
      rw [← Array.length_toList, toList_ops_build]
    have labels : (build before).labels.size = before.count .newLabel := by
      rw [build, size_labels_foldl]
      exact Nat.zero_add _
    rw [build, foldl_append, foldl_cons, target?_foldl_of_not_mem last, BuildStep.apply, target?_bind_eq,
      ← build, size, labels]
  constructor
  · intro found
    obtain ⟨before, after, rfl, last, here⟩ := target?_build found
    rw [bound before after last] at found
    exact ⟨before, after, rfl, last, (Option.ite_none_right_eq_some.1 found).1, here⟩
  · rintro ⟨before, after, rfl, last, made, rfl⟩
    rw [bound before after last, if_pos made]

/-! ## Failures -/

/-- A choice of wide jumps under which the short ones skip at most 255 bytes, and which makes no other jump wide than
every such choice does. -/
def IsShortest (c : CodeBuffer) (wide : Nat → Bool) : Prop :=
  c.ShortJumpsFit wide ∧ ∀ other, c.ShortJumpsFit other → ∀ (k : Nat) (cond : Condition) (label : Label),
    c.ops[k]? = some (.jump cond label) → wide k = true → other k = true

/-- Some jump has a label that was never bound. -/
def Dangles (steps : List BuildStep) : Prop :=
  ∃ (k : Nat) (cond : Condition) (label : Label), (build steps).ops[k]? = some (.jump cond label) ∧
    ∀ target, ¬ Binds steps label target

/-- Some jump has a label that is bound at or before it. -/
def TurnsBack (steps : List BuildStep) : Prop :=
  ∃ (k : Nat) (cond : Condition) (label : Label) (target : Nat),
    (build steps).ops[k]? = some (.jump cond label) ∧ Binds steps label target ∧ target ≤ k

/-- In the shortest layout some jump skips more than 65535 bytes. -/
def Overreaches (steps : List BuildStep) : Prop :=
  ∃ wide, (build steps).IsShortest wide ∧ ∃ (k : Nat) (cond : Condition) (label : Label) (target : Nat),
    (build steps).ops[k]? = some (.jump cond label) ∧ Binds steps label target ∧
      65535 < (build steps).startOf wide target - (build steps).startOf wide (k + 1)

theorem dangles_of_target? {cond : Condition} (found : (build steps).ops[k]? = some (.jump cond label))
    (unbound : (build steps).target? label = none) : Dangles steps := by
  refine ⟨k, cond, label, found, fun target binds => ?_⟩
  cases unbound.symm.trans (target?_build_iff.2 binds)

namespace Resolves

variable (resolved : (build steps).Resolves ops)
include resolved

theorem not_dangles : ¬ Dangles steps := by
  rintro ⟨k, cond, label, found, never⟩
  obtain ⟨target, bound, -⟩ := resolved.jump k cond label found
  exact never target (target?_build_iff.1 bound)

theorem turnsBack_iff : TurnsBack steps ↔
    ∃ (k : Nat) (cond : Condition) (target : Nat), ops[k]? = some (.jump cond target) ∧ target ≤ k := by
  constructor
  · rintro ⟨k, cond, label, target, found, binds, behind⟩
    obtain ⟨target', bound, placed⟩ := resolved.jump k cond label found
    cases bound.symm.trans (target?_build_iff.2 binds)
    exact ⟨k, cond, target, placed, behind⟩
  · rintro ⟨k, cond, target, placed, behind⟩
    obtain ⟨label, found, bound⟩ := resolved.jump_of placed
    exact ⟨k, cond, label, target, found, target?_build_iff.1 bound, behind⟩

theorem forward_of_not_turnsBack (ahead : ¬ TurnsBack steps) : Layout.Forward ops :=
  resolved.forward (labelsInside_build steps) fun k cond target found => Nat.lt_of_not_le fun behind =>
    ahead (resolved.turnsBack_iff.2 ⟨k, cond, target, found, behind⟩)

theorem flags_settle : (build steps).flags (settledWide ops) = settle ops := by
  apply ext_getElem?
  intro k
  by_cases inside : k < (build steps).ops.size
  · have here : k < (settle ops).length := by rwa [length_settle, resolved.length_eq]
    rw [getElem?_flags inside, settledWide, getElem?_eq_getElem here, Option.getD_some]
  · rw [getElem?_eq_none (by simpa using inside),
      getElem?_eq_none (by simpa [resolved.length_eq] using inside)]

variable (forward : Layout.Forward ops)
include forward

theorem isShortest_settle : (build steps).IsShortest (settledWide ops) := by
  constructor
  · intro k cond label target found bound short
    obtain ⟨target', bound', placed⟩ := resolved.jump k cond label found
    cases bound.symm.trans bound'
    have given : (settle ops)[k]? = some false := by
      rw [← resolved.flags_settle, getElem?_flags (Array.getElem?_eq_some_iff.1 found).1, short]
    have fits := distance_le_shortLimit placed given
    rw [distance_eq (length_settle ops) placed given (forward k cond target placed).2] at fits
    rw [resolved.startOf, resolved.startOf, resolved.flags_settle]
    exact fits
  · intro other fits k cond label found set
    obtain ⟨target, -, placed⟩ := resolved.jump k cond label found
    have here := (Array.getElem?_eq_some_iff.1 found).1
    have given : (settle ops)[k]? = some true := by
      rw [← resolved.flags_settle, getElem?_flags here, set]
    have least := settle_below forward (by rw [length_flags, resolved.length_eq]) (resolved.shortFits fits)
    exact Option.some.inj ((getElem?_flags here other).symm.trans (least k cond target placed given))

theorem overreaches_iff : Overreaches steps ↔ ∃ (k : Nat) (cond : Condition) (target : Nat),
    ops[k]? = some (.jump cond target) ∧
      wideLimit < bytesBetween ops (settle ops) (k + 1) target := by
  constructor
  · rintro ⟨wide, ⟨-, least⟩, k, cond, label, target, found, binds, long⟩
    obtain ⟨target', bound, placed⟩ := resolved.jump k cond label found
    cases bound.symm.trans (target?_build_iff.2 binds)
    -- The layout is no wider than the settled one, so the jump is at least as long there.
    have below : Layout.Below ops ((build steps).flags wide) (settle ops) := by
      intro l cond' target' placed' set
      obtain ⟨label', found', -⟩ := resolved.jump_of placed'
      have here := (Array.getElem?_eq_some_iff.1 found').1
      rw [getElem?_flags here] at set
      have wider := least _ (resolved.isShortest_settle forward).1 l cond' label' found' (Option.some.inj set)
      rw [← resolved.flags_settle, getElem?_flags here, wider]
    have further := bytesBetween_le below (by rw [length_flags, resolved.length_eq]) (length_settle ops)
      (forward k cond target placed).1
    rw [resolved.startOf, resolved.startOf] at long
    exact ⟨k, cond, target, placed, Nat.lt_of_lt_of_le long further⟩
  · rintro ⟨k, cond, target, placed, long⟩
    obtain ⟨label, found, bound⟩ := resolved.jump_of placed
    refine ⟨_, resolved.isShortest_settle forward, k, cond, label, target, found, target?_build_iff.1 bound, ?_⟩
    rw [resolved.startOf, resolved.startOf, resolved.flags_settle]
    exact long

end Resolves

/-- Finishing a buffer fails because a label was never bound exactly if that is so for the label of some jump, otherwise
because of a jump that goes back exactly if some label is bound at or before a jump to it, otherwise because of the
length of a jump exactly if one skips more than 65535 bytes in the shortest layout, and succeeds otherwise. No more
rounds of widening change something than there are jumps, and the round behind them is the last one. In every round a
jump ends at or before its target, and the distance of a jump that stays short is not cut off. -/
theorem finish_build_eq_iff (steps : List BuildStep) :
    ((∃ label, (build steps).finish = .error (.internal (.labelUnbound label))) ↔ Dangles steps) ∧
      ((∃ op, (build steps).finish = .error (.internal (.backwardJump op))) ↔ ¬ Dangles steps ∧ TurnsBack steps) ∧
      ((∃ offset, (build steps).finish = .error (.jumpTooLong offset)) ↔
        ¬ Dangles steps ∧ ¬ TurnsBack steps ∧ Overreaches steps) ∧ ((∃ code, (build steps).finish = .ok code) ↔
        ¬ Dangles steps ∧ ¬ TurnsBack steps ∧ ¬ Overreaches steps) ∧ ∀ ops, (build steps).Resolves ops →
        (∃ rounds ≤ (opsOf steps).countP Op.isJump, Layout.SettledAfter ops rounds) ∧
        (¬ TurnsBack steps → (∀ n, Layout.JumpsEndBefore ops (Layout.afterRounds ops n)) ∧
          ∀ (k : Nat) (cond : Condition) (target : Nat), ops[k]? = some (.jump cond target) →
            (Layout.settle ops)[k]? = some false →
              (UInt8.ofNat (Layout.distance (Layout.addresses ops (Layout.settle ops)) k target false)).toNat =
                Layout.distance (Layout.addresses ops (Layout.settle ops)) k target false) := by
  rw [← and_assoc, ← and_assoc, ← and_assoc]
  refine ⟨?_, fun ops resolved => ⟨?_, fun ahead => ⟨fun n => ?_, fun k cond target found short => ?_⟩⟩⟩
  · rcases (build steps).finish_cases with ⟨k, cond, label, found, unbound, same⟩ |
      ⟨ops, resolved, back | ⟨ahead, same⟩⟩
    · simp [same, dangles_of_target? found unbound]
    · obtain ⟨k, cond, target, found, behind, same⟩ := back
      have turns := resolved.turnsBack_iff.2 ⟨k, cond, target, found, behind⟩
      simp [same, resolved.not_dangles, turns]
    · have forward := resolved.forward (labelsInside_build steps) ahead
      have onward : ¬ TurnsBack steps := fun turns => by
        obtain ⟨k, cond, target, found, behind⟩ := resolved.turnsBack_iff.1 turns
        exact absurd (ahead k cond target found) (Nat.not_lt.2 behind)
      have fits := Layout.exists_assemble_eq_ok_iff forward
      cases assembled : Layout.assemble ops with
      | ok code =>
        have short : ¬ Overreaches steps := fun reaches => by
          obtain ⟨k, cond, target, found, long⟩ := (resolved.overreaches_iff forward).1 reaches
          exact absurd (fits.1 ⟨code, assembled⟩ k cond target found) (Nat.not_le.2 long)
        simp [same, assembled, resolved.not_dangles, onward, short]
      | error e =>
        obtain ⟨k, cond, target, found, set, long, rfl⟩ := Layout.assemble_eq_error assembled
        have reaches := (resolved.overreaches_iff forward).2 ⟨k, cond, target, found, by
          rwa [Layout.distance_eq (Layout.length_settle ops) found set (forward k cond target found).2] at long⟩
        simp [same, assembled, resolved.not_dangles, onward, reaches]
  · obtain ⟨n, settled, changed⟩ := Layout.settle_eq_afterRounds ops
    have few := Layout.rounds_le changed
    have jumps : ((opsOf steps).map Op.isJump).count true = (opsOf steps).countP Op.isJump := by
      rw [List.count_eq_countP, List.countP_map]
      exact List.countP_congr fun op _ => by simp
    rw [resolved.map_isJump, toList_ops_build, jumps] at few
    refine ⟨n, few, settled, changed, ?_⟩
    rw [Layout.afterRounds, ← settled, Layout.widen_settle]
  · exact Layout.jumpsEndBefore (resolved.forward_of_not_turnsBack ahead) (Layout.length_afterRounds ops n)
  · have fits := Layout.distance_le_shortLimit found short
    exact UInt8.toNat_ofNat_of_lt (Nat.lt_succ_of_le fits)

end CodeBuffer

end RegisterLang
