import RegisterLang.CodeBuffer.Layout
import RegisterLang.Proofs.Codec

/-! # Where jumps land

Laid out code is a list of instructions, one for each operation. A plain operation is its own
instruction, and the offset of a jump leads from the instruction after the jump to the operation that
the jump names. A short offset is never cut off, because the last round of widening left nothing to
widen.
-/

namespace RegisterLang

variable {ops : List ResolvedOp} {k : Nat} {wide : List Bool} {cond : Condition}
  {ε α β : Type} {f : α → Except ε β} {x : Except ε α}

/-- Two computations in a row give a value when the second does for a value of the first. -/
theorem bind_eq_ok {b : β} : (x >>= f) = .ok b ↔ ∃ a, x = .ok a ∧ f a = .ok b := by
  cases x with
  | error _ | ok _ => simp [bind, Except.bind]

theorem bind_eq_error {e : ε} : (x >>= f) = .error e ↔ x = .error e ∨ ∃ a, x = .ok a ∧ f a = .error e := by
  cases x with
  | error _ | ok _ => simp [bind, Except.bind]

theorem mapM_eq_ok {as : List α} {bs : List β} (mapped : as.mapM f = .ok bs) : bs.length = as.length ∧
      ∀ (i : Nat) (a : α), as[i]? = some a → ∃ b, bs[i]? = some b ∧ f a = .ok b := by
  induction as generalizing bs with
  | nil =>
    cases mapped
    simp
  | cons a as ih =>
    rw [List.mapM_cons, bind_eq_ok] at mapped
    obtain ⟨b, first, mapped⟩ := mapped
    rw [bind_eq_ok] at mapped
    obtain ⟨tail, rest, made⟩ := mapped
    cases made
    obtain ⟨same, each⟩ := ih rest
    refine ⟨by simp [same], ?_⟩
    intro i x found
    cases i with
    | zero =>
      cases found
      exact ⟨b, rfl, first⟩
    | succ i => exact each i x found

theorem mapM_eq_error {as : List α} {e : ε} (failed : as.mapM f = .error e) : ∃ a ∈ as, f a = .error e := by
  induction as with
  | nil =>
    cases failed
  | cons a as ih =>
    rw [List.mapM_cons, bind_eq_error] at failed
    obtain first | ⟨b, -, failed⟩ := failed
    · exact ⟨a, List.mem_cons_self .., first⟩
    rw [bind_eq_error] at failed
    obtain rest | ⟨bs, -, impossible⟩ := failed
    · obtain ⟨a', member, fails⟩ := ih rest
      exact ⟨a', List.mem_cons_of_mem _ member, fails⟩
    · cases impossible

variable {op : ResolvedOp} {target : Nat} {w : Bool}

namespace Layout

/-! ## Addresses -/

/-- Where operation `k` starts when the given operations are wide. -/
def start (ops : List ResolvedOp) (wide : List Bool) (k : Nat) : Nat :=
  (((ops.zip wide).take k).map fun x => opLength x.1 x.2).sum

/-- The addresses after `here`, one for each operation and one for the end. -/
def addressesFrom (here : Nat) : List (ResolvedOp × Bool) → List Nat
  | [] => [here]
  | x :: xs => here :: addressesFrom (here + opLength x.1 x.2) xs

theorem getElem?_addressesFrom (here : Nat) (xs : List (ResolvedOp × Bool)) (inside : k ≤ xs.length) :
    (addressesFrom here xs)[k]? = some (here + ((xs.take k).map fun x => opLength x.1 x.2).sum) := by
  induction xs generalizing here k with
  | nil =>
    obtain rfl : k = 0 := Nat.le_zero.1 inside
    rfl
  | cons x xs ih =>
    cases k with
    | zero => rfl
    | succ k =>
      rw [addressesFrom, List.getElem?_cons_succ, ih _ (Nat.le_of_succ_le_succ inside)]
      simp only [List.take_succ_cons, List.map_cons, List.sum_cons, Nat.add_assoc]

theorem toList_addresses (ops : List ResolvedOp) (wide : List Bool) :
    (addresses ops wide).toList = addressesFrom 0 (ops.zip wide) := by
  have general (xs : List (ResolvedOp × Bool)) (starts : Array Nat) (here : Nat) :
      let done := xs.foldl (fun (acc : Array Nat × Nat) (x : ResolvedOp × Bool) =>
        (acc.1.push acc.2, acc.2 + opLength x.1 x.2)) (starts, here)
      (done.1.push done.2).toList = starts.toList ++ addressesFrom here xs := by
    induction xs generalizing starts here with
    | nil => simp [addressesFrom]
    | cons x xs ih => simpa [addressesFrom] using ih (starts.push here) (here + opLength x.1 x.2)
  exact general (ops.zip wide) #[] 0

theorem addresses_getD (ops : List ResolvedOp) (wide : List Bool) (inside : k ≤ (ops.zip wide).length) :
    (addresses ops wide).getD k 0 = start ops wide k := by
  have found := getElem?_addressesFrom 0 (ops.zip wide) inside
  rw [← toList_addresses, Array.getElem?_toList] at found
  rw [Array.getD_eq_getD_getElem?, found, Option.getD_some, Nat.zero_add, start]

theorem start_succ (found : (ops.zip wide)[k]? = some (op, w)) :
    start ops wide (k + 1) = start ops wide k + opLength op w := by
  rw [start, start, List.take_add_one, found]
  simp

theorem start_mono (ops : List ResolvedOp) (wide : List Bool) {l : Nat} (le : k ≤ l) :
    start ops wide k ≤ start ops wide l := by
  obtain ⟨d, rfl⟩ := Nat.exists_eq_add_of_le le
  rw [start, start, List.take_add, List.map_append, List.sum_append]
  exact Nat.le_add_right _ _

/-! ## Widening -/

theorem length_widen (same : wide.length = ops.length) : (widen ops wide).length = ops.length := by
  simp [widen, same]

variable {i : Nat}

theorem getElem?_zip_eq_some {α β : Type} {as : List α} {bs : List β} {a : α} {b : β} (left : as[i]? = some a)
    (right : bs[i]? = some b) : (as.zip bs)[i]? = some (a, b) := by
  rw [List.getElem?_zip_eq_some]
  exact ⟨left, right⟩

theorem getElem?_widen (found : ops[i]? = some op) (given : wide[i]? = some w) :
    (widen ops wide)[i]? = some (mustWiden (addresses ops wide) i op w) := by
  simp [widen, List.getElem?_mapIdx, getElem?_zip_eq_some found given]

theorem mustWiden_true (addrs : Array Nat) (i : Nat) (op : ResolvedOp) : mustWiden addrs i op true = true := by
  cases op <;> rfl

/-- Two lists of flags of one length differ only if the one above has more flags set. -/
theorem count_lt_count {as bs : List Bool} (same : as.length = bs.length)
    (above : ∀ i : Nat, as[i]? = some true → bs[i]? = some true) (differ : as ≠ bs) :
    as.count true < bs.count true := by
  induction as generalizing bs with
  | nil => exact (differ (List.length_eq_zero_iff.1 same.symm).symm).elim
  | cons a as ih =>
    obtain _ | ⟨b, bs⟩ := bs
    · cases same
    · have tailSame : as.length = bs.length := Nat.succ.inj same
      have tailAbove : ∀ i : Nat, as[i]? = some true → bs[i]? = some true :=
        fun i => above (i + 1)
      have headAbove : a = true → b = true := by simpa using above 0
      by_cases tails : as = bs
      · subst tails
        cases a <;> cases b <;> simp_all
      · have less := ih tailSame tailAbove tails
        cases a <;> cases b <;> simp at headAbove ⊢ <;> omega

theorem count_lt_count_widen (same : wide.length = ops.length) (changes : widen ops wide ≠ wide) :
    wide.count true < (widen ops wide).count true := by
  apply count_lt_count (same.trans (length_widen same).symm) _ changes.symm
  intro i set
  have inside : i < ops.length := same ▸ (List.getElem?_eq_some_iff.1 set).1
  rw [getElem?_widen (List.getElem?_eq_getElem inside) set, mustWiden_true]

theorem widen_of_count (same : wide.length = ops.length) (full : ops.length ≤ wide.count true) :
    widen ops wide = wide := by
  apply Classical.byContradiction
  intro changes
  have less := count_lt_count_widen same changes
  have most := List.count_le_length (a := true) (l := widen ops wide)
  rw [length_widen same] at most
  omega

/-- With as many rounds left as there are flags to set, widening comes to an end. -/
theorem widen_settleWithin (bound : List Bool) (same : wide.length = ops.length)
    (enough : ops.length ≤ wide.count true + bound.length) : (settleWithin ops bound wide).length = ops.length ∧
      widen ops (settleWithin ops bound wide) = settleWithin ops bound wide := by
  induction bound generalizing wide with
  | nil => exact ⟨same, widen_of_count same enough⟩
  | cons _ bound ih =>
    rw [settleWithin]
    split
    · next fixed => exact ⟨same, fixed⟩
    · next changes =>
      have less := count_lt_count_widen same changes
      rw [List.length_cons] at enough
      exact ih (length_widen same) (by omega)

@[simp]
theorem length_settle (ops : List ResolvedOp) : (settle ops).length = ops.length :=
  (widen_settleWithin _ (by simp) (by simp)).1

theorem widen_settle (ops : List ResolvedOp) : widen ops (settle ops) = settle ops :=
  (widen_settleWithin _ (by simp) (by simp)).2

theorem distance_le_shortLimit (found : ops[i]? = some (.jump cond target))
    (short : (settle ops)[i]? = some false) : distance (addresses ops (settle ops)) i target false ≤ shortLimit := by
  have fixed := getElem?_widen found short
  rw [widen_settle, short, Option.some.injEq, mustWiden] at fixed
  exact Nat.le_of_not_lt (of_decide_eq_false fixed.symm)

/-! ## Assembled code -/

/-- The operations are numbered so that every jump goes forward, to an operation or to the end. -/
def Forward (ops : List ResolvedOp) : Prop :=
  ∀ (k : Nat) (cond : Condition) (target : Nat), ops[k]? = some (.jump cond target) → k < target ∧ target ≤ ops.length

end Layout

namespace Instruction

/-- A jump on `cond` that skips `distance` bytes, in its short form. -/
def IsShortJump (i : Instruction) (cond : Condition) (distance : Nat) : Prop :=
  ∃ offset, i = .jump8 cond offset ∧ offset.toNat = distance

/-- A jump on `cond` that skips `distance` bytes, in its wide form. -/
def IsWideJump (i : Instruction) (cond : Condition) (distance : Nat) : Prop :=
  ∃ offset, i = .jump16 cond offset ∧ offset.toNat = distance

def isJump8 : Instruction → Bool
  | jump8 _ _ => true
  | _ => false

def isJump16 : Instruction → Bool
  | jump16 _ _ => true
  | _ => false

end Instruction

namespace Layout

open Instruction

/-- How the operations appear as instructions, given which of them are wide. -/
structure Realizes (ops : List ResolvedOp) (wide : List Bool) (is : List Instruction) : Prop where
  length_eq : is.length = ops.length
  plain : ∀ (k : Nat) (i : Instruction), ops[k]? = some (.plain i) → is[k]? = some i
  short : ∀ (k : Nat) (cond : Condition) (target : Nat), ops[k]? = some (.jump cond target) →
    wide[k]? = some false → ∃ i, is[k]? = some i ∧ i.IsShortJump cond (start ops wide target - start ops wide (k + 1))
  wide : ∀ (k : Nat) (cond : Condition) (target : Nat), ops[k]? = some (.jump cond target) →
    wide[k]? = some true → ∃ i, is[k]? = some i ∧ i.IsWideJump cond (start ops wide target - start ops wide (k + 1))

theorem distance_eq (same : wide.length = ops.length)
    (found : ops[k]? = some (.jump cond target)) (given : wide[k]? = some w) (inside : target ≤ ops.length) :
    distance (addresses ops wide) k target w = start ops wide target - start ops wide (k + 1) := by
  have here : k < ops.length := (List.getElem?_eq_some_iff.1 found).1
  have zipped : (ops.zip wide).length = ops.length := by simp [same]
  rw [distance, addresses_getD ops wide (zipped ▸ inside),
    addresses_getD ops wide (zipped ▸ Nat.le_of_lt here),
    start_succ (getElem?_zip_eq_some found given), opLength]

theorem realizes_of_mapM (forward : Forward ops) {is : List Instruction}
    (mapped : ((ops.zip (settle ops)).zipIdx).mapM (fun x =>
      instruction (addresses ops (settle ops)) x.2 x.1.1 x.1.2) = .ok is) : Realizes ops (settle ops) is := by
  obtain ⟨same, each⟩ := mapM_eq_ok mapped
  have settled := length_settle ops
  have at_index {k : Nat} {op : ResolvedOp} {w : Bool} (found : ops[k]? = some op)
      (given : (settle ops)[k]? = some w) :
      ∃ i, is[k]? = some i ∧ instruction (addresses ops (settle ops)) k op w = .ok i :=
    each k ((op, w), k) (by simp [List.getElem?_zipIdx, getElem?_zip_eq_some found given])
  refine ⟨by simpa using same, ?_, ?_, ?_⟩
  · intro k i found
    have here : k < (settle ops).length := settled ▸ (List.getElem?_eq_some_iff.1 found).1
    obtain ⟨j, placed, made⟩ := at_index found (List.getElem?_eq_getElem here)
    cases made
    exact placed
  · intro k cond target found given
    obtain ⟨i, placed, made⟩ := at_index found given
    have short := distance_le_shortLimit found given
    rw [distance_eq settled found given (forward k cond target found).2] at short
    rw [instruction, distance_eq settled found given (forward k cond target found).2] at made
    cases made
    exact ⟨_, placed, _, rfl, UInt8.toNat_ofNat_of_lt (Nat.lt_succ_of_le short)⟩
  · intro k cond target found given
    obtain ⟨i, placed, made⟩ := at_index found given
    rw [instruction, distance_eq settled found given (forward k cond target found).2, if_pos rfl] at made
    split at made
    · next fits =>
      cases made
      exact ⟨_, placed, _, rfl, UInt16.toNat_ofNat_of_lt (Nat.lt_succ_of_le fits)⟩
    · cases made

namespace Realizes

variable {ops : List ResolvedOp} {wide : List Bool} {is : List Instruction}

section
variable (laid : Realizes ops wide is) (same : wide.length = ops.length)
include laid same

/-- Every operation and its instruction, with the flag that chose the form of the instruction. -/
theorem cases_at (found : ops[k]? = some op) :
    ∃ w i, wide[k]? = some w ∧ is[k]? = some i ∧ i.length = opLength op w ∧
      (isJump op && !w) = (isJump op && i.isJump8) ∧ (isJump op && w) = (isJump op && i.isJump16) := by
  have here : k < wide.length := same ▸ (List.getElem?_eq_some_iff.1 found).1
  have given := List.getElem?_eq_getElem here
  cases op with
  | plain i => exact ⟨_, i, given, laid.plain k i found, rfl, rfl, rfl⟩
  | jump cond target =>
    cases flag : wide[k] with
    | false =>
      rw [flag] at given
      obtain ⟨i, placed, offset, rfl, _⟩ := laid.short k cond target found given
      exact ⟨false, _, given, placed, rfl, rfl, rfl⟩
    | true =>
      rw [flag] at given
      obtain ⟨i, placed, offset, rfl, _⟩ := laid.wide k cond target found given
      exact ⟨true, _, given, placed, rfl, rfl, rfl⟩

theorem map_length : is.map length = (ops.zip wide).map fun x => opLength x.1 x.2 := by
  apply List.ext_getElem?
  intro k
  obtain outside | inside := Nat.lt_or_ge k ops.length |>.symm
  · rw [List.getElem?_eq_none (by simpa [laid.length_eq] using outside),
      List.getElem?_eq_none (by simpa [same] using outside)]
  · obtain ⟨w, i, given, placed, long, _⟩ :=
      laid.cases_at same (List.getElem?_eq_getElem inside)
    rw [List.getElem?_map, List.getElem?_map, placed, getElem?_zip_eq_some (List.getElem?_eq_getElem inside) given]
    simp only [Option.map_some, long]

theorem address_eq_start (k : Nat) : address is k = start ops wide k := by
  rw [address, List.map_take, laid.map_length same, ← List.map_take, start]

/-- A jump leads from the instruction after it to the operation that it names. -/
theorem jump_lands (forward : Forward ops) (found : ops[k]? = some (.jump cond target)) :
    ∃ i distance, is[k]? = some i ∧ (i.IsShortJump cond distance ∨ i.IsWideJump cond distance) ∧
      address is k + i.length + distance = address is target := by
  have ahead := (forward k cond target found).1
  obtain ⟨w, i, given, placed, long, _⟩ := laid.cases_at same found
  have next := start_succ (getElem?_zip_eq_some found given)
  have behind : start ops wide (k + 1) ≤ start ops wide target := start_mono ops wide ahead
  refine ⟨i, start ops wide target - start ops wide (k + 1), placed, ?_, ?_⟩
  · cases w with
    | false =>
      obtain ⟨j, same_place, short⟩ := laid.short k cond target found given
      cases placed.symm.trans same_place
      exact .inl short
    | true =>
      obtain ⟨j, same_place, wide⟩ := laid.wide k cond target found given
      cases placed.symm.trans same_place
      exact .inr wide
  · rw [laid.address_eq_start same, laid.address_eq_start same]
    omega

/-- Operations can be counted by their instructions in place of their flags. -/
theorem countP_zip {f : ResolvedOp × Bool → Bool} {g : ResolvedOp × Instruction → Bool}
    (agree : ∀ {k : Nat} {op : ResolvedOp}, ops[k]? = some op →
      ∃ w i, wide[k]? = some w ∧ is[k]? = some i ∧ f (op, w) = g (op, i)) :
    (ops.zip wide).countP f = (ops.zip is).countP g := by
  have flags : (ops.zip wide).map f = (ops.zip is).map g := by
    apply List.ext_getElem?
    intro k
    obtain outside | inside := Nat.lt_or_ge k ops.length |>.symm
    · rw [List.getElem?_eq_none (by simp [same, outside]),
        List.getElem?_eq_none (by simp [laid.length_eq, outside])]
    · have found := List.getElem?_eq_getElem inside
      obtain ⟨w, i, given, placed, equal⟩ := agree found
      rw [List.getElem?_map, List.getElem?_map, getElem?_zip_eq_some found given,
        getElem?_zip_eq_some found placed, Option.map_some, Option.map_some, equal]
  have counts := congrArg (List.countP id) flags
  rwa [List.countP_map, List.countP_map] at counts

theorem countP_short :
    (ops.zip wide).countP (fun x => isJump x.1 && !x.2) = (ops.zip is).countP fun x => isJump x.1 && x.2.isJump8 := by
  apply laid.countP_zip same
  intro k op found
  obtain ⟨w, i, given, placed, _, short, _⟩ := laid.cases_at same found
  exact ⟨w, i, given, placed, short⟩

theorem countP_wide :
    (ops.zip wide).countP (fun x => isJump x.1 && x.2) = (ops.zip is).countP fun x => isJump x.1 && x.2.isJump16 := by
  apply laid.countP_zip same
  intro k op found
  obtain ⟨w, i, given, placed, _, _, wide⟩ := laid.cases_at same found
  exact ⟨w, i, given, placed, wide⟩

end

end Realizes

theorem assemble_eq_error {e : EmissionError} (failed : assemble ops = .error e) :
    ∃ k cond target, ops[k]? = some (.jump cond target) ∧ (settle ops)[k]? = some true ∧
      wideLimit < distance (addresses ops (settle ops)) k target true ∧
      e = .jumpTooLong (distance (addresses ops (settle ops)) k target true) := by
  rw [assemble] at failed
  dsimp only at failed
  rw [bind_eq_error] at failed
  obtain failed | ⟨insns, -, impossible⟩ := failed
  · obtain ⟨⟨⟨op, w⟩, k⟩, member, fails⟩ := mapM_eq_error failed
    obtain ⟨found, given⟩ := List.getElem?_zip_eq_some.1 (List.mem_zipIdx_iff_getElem?.1 member)
    unfold instruction at fails
    cases op with
    | plain i => cases fails
    | jump cond target =>
      dsimp only at found fails
      split at fails
      · next set =>
        obtain rfl : w = true := set
        split at fails
        · cases fails
        · next long =>
          cases fails
          exact ⟨k, cond, target, found, given, Nat.lt_of_not_le long, rfl⟩
      · cases fails
  · cases impossible

/-- Assembled code is the code of instructions that realize the operations. -/
theorem assemble_eq_ok (forward : Forward ops) {code : FinishedCode} (assembled : assemble ops = .ok code) :
    ∃ is, Realizes ops (settle ops) is ∧ code.bytes = is.flatMap encode ∧
      code.shortJumps = (ops.zip is).countP (fun x => isJump x.1 && x.2.isJump8) ∧
      code.wideJumps = (ops.zip is).countP fun x => isJump x.1 && x.2.isJump16 := by
  rw [assemble] at assembled
  cases mapped : ((ops.zip (settle ops)).zipIdx).mapM (fun x =>
      instruction (addresses ops (settle ops)) x.2 x.1.1 x.1.2) with
  | error e =>
    rw [mapped] at assembled
    cases assembled
  | ok is =>
    rw [mapped] at assembled
    cases assembled
    have laid := realizes_of_mapM forward mapped
    exact ⟨is, laid, rfl, laid.countP_short (length_settle ops), laid.countP_wide (length_settle ops)⟩

end Layout

end RegisterLang
