import RegisterLang.Proofs.Handles
import RegisterLang.Proofs.Lifetimes

/-! # Arrays that are used

A program that was emitted without mistakes and keeps arrays apart from other values uses an array only between the
instruction that creates it and the one that destroys it. Main statements: `Executes.recounts`, that the arrays that
are there at any time of a run are the ones that it has created and not destroyed, and `executeMain_accesses`.
-/

namespace RegisterLang

open Evaluation List ArrayHeap

variable {σ : Type}

/-- The register that holds the array that an instruction reads from or writes to. -/
def Instruction.array? : Instruction → Option UInt8
  | .arrayGet _ array _ | .arraySet array _ _ => some array
  | _ => none

variable {r : UInt8}

namespace Machine

variable {env : Env σ} {m : Moment σ} {task : Task} {frames : List (List (Moment σ))} {out : Outcome σ Value}
  {next : Nat} {frame : Frame} {i : Instruction}

/-! ## Where arrays come from -/

/-- An instruction that creates an array and gets this handle for it. -/
def Moment.Creates (m : Moment σ) (handle : UInt32) : Prop :=
  ∃ dst length arrays, m.instruction = .arrayNew dst length ∧
    m.state.arrays.create (m.state.reg length) = (.ok handle, arrays)

/-- An instruction that destroys the array with this handle. -/
def Moment.Destroys (m : Moment σ) (handle : UInt32) : Prop :=
  ∃ r, m.instruction = .arrayDestroy r ∧ (m.state.reg r).handle = handle

variable {handle : UInt32}

theorem Moment.not_creates (other : ∀ dst length, m.instruction ≠ .arrayNew dst length) :
    ¬ m.Creates handle := by
  rintro ⟨dst, length, -, same, -⟩
  exact other dst length same

theorem Moment.not_destroys (other : ∀ r, m.instruction ≠ .arrayDestroy r) : ¬ m.Destroys handle := by
  rintro ⟨r, same, -⟩
  exact other r same

/-- Before the instruction with a number was executed, an array with this handle was created, and it was not
destroyed since. -/
def CreatedBefore (moments : List (Moment σ)) (number : Nat) (handle : UInt32) : Prop :=
  ∃ n ∈ moments, n.Creates handle ∧ n.state.steps < number ∧
    ∀ k ∈ moments, n.state.steps < k.state.steps → k.state.steps < number → ¬ k.Destroys handle

/-- Why an array is there before the instruction with a number is executed: it was there from the start and was not
destroyed, or it was created. -/
def Origin (s : State σ) (moments : List (Moment σ)) (number : Nat) (handle : UInt32) : Prop :=
  (s.arrays.Live handle ∧ ∀ k ∈ moments, k.state.steps < number → ¬ k.Destroys handle) ∨
    CreatedBefore moments number handle

variable {s s' s1 : State σ} {moments more : List (Moment σ)} {number : Nat} {handle : UInt32}

theorem Origin.of_mem_iff (same : ∀ k : Moment σ, k.state.steps < number → (k ∈ moments ↔ k ∈ more))
    (origin : Origin s moments number handle) : Origin s more number handle := by
  rcases origin with ⟨live, intact⟩ | ⟨n, member, creates, before, intact⟩
  · exact .inl ⟨live, fun k member before => intact k ((same k before).2 member) before⟩
  · exact .inr ⟨n, (same n before).1 member, creates, before, fun k member after before =>
      intact k ((same k before).2 member) after before⟩

theorem origin_congr (same : ∀ k : Moment σ, k.state.steps < number → (k ∈ moments ↔ k ∈ more)) :
    Origin s moments number handle ↔ Origin s more number handle :=
  ⟨.of_mem_iff same, .of_mem_iff fun k before => (same k before).symm⟩

/-- Instructions that lead from one state to another, and account for the arrays that are there before each of them
and at the end. -/
structure Recounts (s : State σ) (moments : List (Moment σ)) (s' : State σ) : Prop where
  forth : s.steps ≤ s'.steps
  after : ∀ m ∈ moments, s.steps < m.state.steps
  within : ∀ m ∈ moments, m.state.steps ≤ s'.steps
  consistent : s'.arrays.Consistent
  live_iff : ∀ m ∈ moments, ∀ handle, m.state.arrays.Live handle ↔ Origin s moments m.state.steps handle
  final_iff : ∀ handle, s'.arrays.Live handle ↔ Origin s moments (s'.steps + 1) handle

namespace Recounts

theorem nil (consistent : s.arrays.Consistent) (forth : s.steps ≤ s'.steps) (arrays : s'.arrays = s.arrays) :
    Recounts s [] s' where
  forth := forth
  after := forall_mem_nil _
  within := forall_mem_nil _
  consistent := arrays ▸ consistent
  live_iff := forall_mem_nil _
  final_iff handle := by
    rw [arrays]
    refine ⟨fun live => .inl ⟨live, forall_mem_nil _⟩, ?_⟩
    rintro (⟨live, -⟩ | ⟨n, impossible, -⟩)
    · exact live
    · cases impossible

/-- The arrays that are there at the end of the first instructions are those that the others start with. -/
theorem origin_append (first : Recounts s moments s1) (after : ∀ m ∈ more, s1.steps < m.state.steps)
    (later : s1.steps < number) : Origin s (moments ++ more) number handle ↔ Origin s1 more number handle := by
  constructor
  · rintro (⟨live, intact⟩ | ⟨n, member, creates, before, intact⟩)
    · have kept : Origin s moments (s1.steps + 1) handle := .inl ⟨live, fun k member _ =>
        intact k (mem_append_left _ member) (Nat.lt_of_le_of_lt (first.within k member) later)⟩
      exact .inl ⟨(first.final_iff handle).2 kept, fun k member => intact k (mem_append_right _ member)⟩
    -- An array that the first instructions create is there when the others start.
    rcases mem_append.1 member with member | member
    · have early := first.within n member
      have kept : Origin s moments (s1.steps + 1) handle := .inr ⟨n, member, creates, Nat.lt_succ_of_le early,
        fun k member after _ => intact k (mem_append_left _ member) after
          (Nat.lt_of_le_of_lt (first.within k member) later)⟩
      exact .inl ⟨(first.final_iff handle).2 kept, fun k member =>
        intact k (mem_append_right _ member) (Nat.lt_of_le_of_lt early (after k member))⟩
    · exact .inr ⟨n, member, creates, before, fun k member => intact k (mem_append_right _ member)⟩
  · rintro (⟨live, intact⟩ | ⟨n, member, creates, before, intact⟩)
    · rcases (first.final_iff handle).1 live with ⟨live, intact'⟩ | ⟨n, member, creates, before, intact'⟩
      · refine .inl ⟨live, forall_mem_append.2 ⟨fun k member _ => ?_, intact⟩⟩
        exact intact' k member (Nat.lt_succ_of_le (first.within k member))
      · refine .inr ⟨n, mem_append_left _ member, creates, Nat.lt_of_lt_of_le before later,
          forall_mem_append.2 ⟨fun k member after _ => ?_, fun k member _ => intact k member⟩⟩
        exact intact' k member after (Nat.lt_succ_of_le (first.within k member))
    · refine .inr ⟨n, mem_append_right _ member, creates, before,
        forall_mem_append.2 ⟨fun k listed late => ?_, intact⟩⟩
      have := first.within k listed
      have := after n member
      omega

theorem append (first : Recounts s moments s1) (second : Recounts s1 more s') : Recounts s (moments ++ more) s' where
  forth := Nat.le_trans first.forth second.forth
  after := forall_mem_append.2 ⟨first.after, fun m member =>
    Nat.lt_of_le_of_lt first.forth (second.after m member)⟩
  within := forall_mem_append.2 ⟨fun m member => Nat.le_trans (first.within m member) second.forth,
    second.within⟩
  consistent := second.consistent
  live_iff := by
    refine forall_mem_append.2 ⟨fun m member handle => ?_, fun m member handle => ?_⟩
    · refine (first.live_iff m member handle).trans (origin_congr fun k before => ?_)
      refine ⟨mem_append_left _, fun listed => (mem_append.1 listed).resolve_right fun listed => ?_⟩
      have := first.within m member
      have := second.after k listed
      omega
    · rw [first.origin_append second.after (second.after m member)]
      exact second.live_iff m member handle
  final_iff handle := by
    rw [first.origin_append second.after (Nat.lt_succ_of_le second.forth)]
    exact second.final_iff handle

theorem reorder (recounts : Recounts s moments s') (same : ∀ m, m ∈ moments ↔ m ∈ more) : Recounts s more s' where
  forth := recounts.forth
  after m member := recounts.after m ((same m).2 member)
  within m member := recounts.within m ((same m).2 member)
  consistent := recounts.consistent
  live_iff m member handle :=
    (recounts.live_iff m ((same m).2 member) handle).trans (origin_congr fun k _ => same k)
  final_iff handle := (recounts.final_iff handle).trans (origin_congr fun k _ => same k)

theorem congr (recounts : Recounts s moments s') {t t' : State σ} (arrays : t.arrays = s.arrays)
    (steps : t.steps = s.steps) (arrays' : t'.arrays = s'.arrays) (steps' : t'.steps = s'.steps) :
    Recounts t moments t' where
  forth := by rw [steps, steps']; exact recounts.forth
  after := by rw [steps]; exact recounts.after
  within := by rw [steps']; exact recounts.within
  consistent := by rw [arrays']; exact recounts.consistent
  live_iff := by
    unfold Origin
    rw [arrays]
    exact recounts.live_iff
  final_iff := by
    unfold Origin
    rw [arrays, arrays', steps']
    exact recounts.final_iff

end Recounts

theorem Moment.live_iff_of_eq {h : ArrayHeap} (same : h.array? handle = m.state.arrays.array? handle)
    (none : ¬ m.Creates handle) (intact : m.state.arrays.Live handle → ¬ m.Destroys handle) :
    h.Live handle ↔ m.state.arrays.Live handle ∧ ¬ m.Destroys handle ∨ m.Creates handle := by
  unfold ArrayHeap.Live at *
  rw [same]
  exact ⟨fun live => .inl ⟨live, intact live⟩, fun origin => (origin.resolve_right none).1⟩

/-- An array is there behind an instruction if it was there before and is not destroyed, or if it is created. -/
theorem Moment.live_iff_of_step (m : Moment σ) {r : Except Fault Effect} (consistent : m.state.arrays.Consistent)
    (stepped : step env m.frame m.offset next m.instruction m.state = (r, s')) :
    s'.arrays.Live handle ↔ m.state.arrays.Live handle ∧ ¬ m.Destroys handle ∨ m.Creates handle := by
  obtain rfl : _ = s' := congrArg Prod.snd stepped
  cases is : m.instruction with
  | arrayNew dst length =>
    have intact : ¬ m.Destroys handle := not_destroys (by simp [is])
    rw [step, arrays_onArrays]
    case still => exact fun _ _ => rfl
    rcases created : m.state.arrays.create (m.state.reg length) with ⟨fault | handle', arrays⟩
    · refine live_iff_of_eq ((fails_of_create consistent created).arrays handle) ?_ fun _ => intact
      rintro ⟨_, _, _, is', created'⟩
      cases is.symm.trans is'
      cases created.symm.trans created'
    · refine ((creates_of_create consistent created).live_iff handle).trans (or_congr ?_ ?_)
      · exact ⟨fun live => ⟨live, intact⟩, And.left⟩
      · refine ⟨fun same => ⟨dst, length, arrays, is, same ▸ created⟩, ?_⟩
        rintro ⟨_, _, _, is', created'⟩
        cases is.symm.trans is'
        cases created.symm.trans created'
        rfl
  | arrayGet dst array index =>
    rw [step, arrays_onArrays, get_snd]
    case still => exact fun _ _ => rfl
    exact live_iff_of_eq rfl (not_creates (by simp [is])) fun _ => not_destroys (by simp [is])
  | arraySet array index value =>
    have intact : ¬ m.Destroys handle := not_destroys (by simp [is])
    have none : ¬ m.Creates handle := not_creates (by simp [is])
    rw [step, arrays_onArrays]
    case still => exact fun _ _ => rfl
    rcases written : m.state.arrays.set _ _ _ with ⟨fault | _, arrays⟩
    · exact live_iff_of_eq (by rw [set_error written]) none fun _ => intact
    · refine ((writes_of_set written).live_iff handle).trans ?_
      exact live_iff_of_eq rfl none fun _ => intact
  | arrayDestroy reg =>
    have none : ¬ m.Creates handle := not_creates (by simp [is])
    have destroys : m.Destroys handle ↔ handle = (m.state.reg reg).handle := by
      refine ⟨?_, fun same => ⟨reg, is, same.symm⟩⟩
      rintro ⟨_, is', same⟩
      cases is.symm.trans is'
      exact same.symm
    rw [step, arrays_onArrays]
    case still => exact fun _ _ => rfl
    rcases destroyed : m.state.arrays.destroy (m.state.reg reg).handle with ⟨fault | _, arrays⟩
    · refine live_iff_of_eq (by rw [destroy_error destroyed]) none fun live gone => ?_
      obtain ⟨arrays, succeeds, -⟩ := exists_destroys (destroys.1 gone ▸ live)
      cases destroyed.symm.trans succeeds
    · rw [or_iff_left none, destroys]
      exact live_iff_of_destroy destroyed handle
  | _ =>
    refine live_iff_of_eq ?_ (not_creates (by simp [is])) fun _ => not_destroys (by simp [is])
    simp only [step, jump, advance]
    repeat' split
    all_goals rfl

variable {offset : Nat}

theorem Recounts.one {r : Except Fault Effect} (consistent : s.arrays.Consistent)
    (stepped : step env frame offset next i s.tick = (r, s')) : Recounts s [⟨frame, offset, i, s.tick⟩] s' := by
  let m : Moment σ := ⟨frame, offset, i, s.tick⟩
  have steps : s'.steps = m.state.steps := steps_of_step stepped
  have before : m.state.steps < s'.steps + 1 := Nat.lt_succ_of_le (Nat.le_of_eq steps.symm)
  have heap := consistent_step (s := s.tick) consistent env frame offset next i
  rw [stepped] at heap
  refine ⟨steps ▸ Nat.le_succ _, ?_, ?_, heap, ?_, fun handle => ?_⟩
  · exact forall_mem_singleton.2 (Nat.lt_succ_self _)
  · exact forall_mem_singleton.2 (Nat.le_of_eq steps.symm)
  · refine forall_mem_singleton.2 fun handle => ⟨fun live => .inl ⟨live, ?_⟩, ?_⟩
    · exact forall_mem_singleton.2 fun early => absurd early (Nat.lt_irrefl _)
    · rintro (⟨live, -⟩ | ⟨n, member, -, early, -⟩)
      · exact live
      · cases mem_singleton.1 member
        exact absurd early (Nat.lt_irrefl _)
  · refine (m.live_iff_of_step consistent stepped).trans (or_congr (and_congr_right fun _ => ?_) ?_)
    · exact ⟨fun intact => forall_mem_singleton.2 fun _ => intact, fun intact =>
        intact m mem_cons_self before⟩
    · constructor
      · refine fun creates => ⟨m, mem_cons_self, creates, before, ?_⟩
        exact forall_mem_singleton.2 fun after => absurd after (Nat.lt_irrefl _)
      · rintro ⟨n, member, creates, -⟩
        cases mem_singleton.1 member
        exact creates

theorem arrays_returned (out : Outcome σ Value) : (returned out).2.arrays = out.2.arrays := by
  rcases out with ⟨fault | v, s⟩ <;> rfl

theorem arrays_callNative (env : Env σ) (index : UInt32) (s : State σ) :
    (callNative env index s).2.arrays = s.arrays := by
  rw [callNative]
  split
  · rfl
  · exact arrays_returned _

theorem arrays_enter {index : UInt32} {reserve stackArgs : Nat}
    (entered : enter index reserve stackArgs s = some (frame, s')) : s'.arrays = s.arrays := by
  rw [enter] at entered
  split at entered
  · cases entered
  · cases entered
    rfl

/-- The instructions of a run account for its arrays, by induction on what is executed. -/
theorem Executes.recounts (executes : Executes env task s frames out) (consistent : s.arrays.Consistent) :
    Recounts s frames.flatten out.2 := by
  induction executes with
  | fellOff | missing | tooDeep | underflow => exact .nil consistent (Nat.le_refl _) rfl
  | limited | invalid => exact .nil consistent (Nat.le_succ _) rfl
  | native found =>
    exact .nil consistent (Nat.le_of_eq (steps_callNative _ _ _).symm) (arrays_callNative _ _ _)
  | fault fetches stepped | ret fetches stepped => exact .one consistent stepped
  | next fetches stepped rest ih | skip fetches stepped rest ih | callFails fetches stepped called ih =>
    have first := Recounts.one consistent stepped
    exact first.append (ih first.consistent)
  | callReturns fetches stepped called rest ih_call ih =>
    have first := Recounts.one consistent stepped
    have second := ih_call first.consistent
    -- The instructions of the frame that goes on are listed before those of the call.
    refine (first.append (second.append (ih second.consistent))).reorder fun m => ?_
    simp only [flatten_cons, flatten_append, mem_append, mem_cons, not_mem_nil, or_false,
      or_assoc]
    exact or_congr_right or_left_comm
  | body found room entered ran ih =>
    have arrays := arrays_enter entered
    refine (ih (arrays ▸ consistent)).congr arrays.symm (steps_enter entered).symm ?_ ?_
    · exact arrays_returned _
    · exact steps_returned _

/-! ## Failing instructions -/

theorem step_of_missing {fault : Fault} (uses : i.array? = some r)
    (missing : s.arrays.array? (s.reg r).handle = .error fault) :
    step env frame offset next i s = (.error fault, s) := by
  cases i with
  | arrayGet dst array index =>
    cases uses
    simp only [step, ArrayHeap.get, missing, onArrays]
  | arraySet array index value =>
    cases uses
    simp only [step, ArrayHeap.set, ArrayHeap.length, missing, Except.map, onArrays]
  | _ => cases uses

/-- An instruction that uses an array that is there does not fail because of the array. -/
theorem harmless_of_live {fault : Fault} (uses : i.array? = some r)
    (live : s.arrays.Live (s.reg r).handle) (failed : (step env frame offset next i s).1 = .error fault) :
    fault.Harmless False := by
  have usable : s.arrays.Usable False (s.reg r).handle := .inl live
  cases i with
  | arrayGet dst array index =>
    cases uses
    exact usable.harmless_get (Prod.ext (onArrays_eq_error.1 failed) rfl)
  | arraySet array index value =>
    cases uses
    exact usable.harmless_set (Prod.ext (onArrays_eq_error.1 failed) rfl)
  | _ => cases uses

section
variable (executes : Executes env task s frames out)
include executes

/-- In a run that starts without arrays, those are there that were created before and not destroyed since. -/
theorem Executes.live_iff (empty : s.arrays = .empty)
    (member : m ∈ frames.flatten) (handle : UInt32) :
    m.state.arrays.Live handle ↔ CreatedBefore frames.flatten m.state.steps handle := by
  have recounts := executes.recounts (empty ▸ consistent_empty)
  refine (recounts.live_iff m member handle).trans (or_iff_right ?_)
  rintro ⟨⟨array, found⟩, -⟩
  rw [empty, array?_eq_ok] at found
  cases found.2

/-- An array that is used was created before and not destroyed since, or the run fails because of it. -/
theorem Executes.createdBefore_or_fault (empty : s.arrays = .empty)
    (member : m ∈ frames.flatten) (uses : m.instruction.array? = some r) :
    CreatedBefore frames.flatten m.state.steps (m.state.reg r).handle ∨
      ∃ fault, m.state.arrays.array? (m.state.reg r).handle = .error fault ∧ out.1 = .error fault := by
  cases found : m.state.arrays.array? (m.state.reg r).handle with
  | ok array => exact .inl ((executes.live_iff empty member _).1 ⟨array, found⟩)
  | error fault => exact .inr ⟨fault, rfl, (executes.culprit member (step_of_missing uses found)).1⟩

/-- The instruction that a run is said to fail in was executed, and fails in the same way. -/
theorem Executes.exists_culprit (culprit : (task.ending env s).2 = some i) :
    ∃ m ∈ frames.flatten, m.instruction = i ∧ ∃ fault, out.1 = .error fault ∧
      (step env m.frame m.offset (m.offset + m.instruction.length) m.instruction m.state).1 = .error fault := by
  induction executes with
  | fellOff past =>
    rw [Task.ending, runAt_of_past past] at culprit
    cases culprit
  | limited inside exceeded =>
    rw [Task.ending, runAt_of_limited inside exceeded] at culprit
    cases culprit
  | invalid inside allowed failed =>
    rw [Task.ending, runAt_of_invalid inside allowed failed] at culprit
    cases culprit
  | missing absent =>
    rw [Task.ending, callEnding, absent] at culprit
    cases culprit
  | native found =>
    rw [Task.ending, callEnding, found] at culprit
    cases culprit
  | tooDeep found deep =>
    rw [Task.ending, Nat.sub_eq_zero_of_le deep, callEnding, found] at culprit
    cases culprit
  | underflow found room failed =>
    rw [ending_of_underflow found room failed] at culprit
    cases culprit
  | fault fetches stepped =>
    rw [ending_of_fetches fetches stepped] at culprit
    cases culprit
    exact ⟨_, mem_cons_self, rfl, _, rfl, congrArg Prod.fst stepped⟩
  | ret fetches stepped =>
    rw [ending_of_fetches fetches stepped] at culprit
    cases culprit
  | next fetches stepped rest ih | skip fetches stepped rest ih =>
    rw [ending_of_fetches fetches stepped] at culprit
    obtain ⟨m, member, fails⟩ := ih culprit
    exact ⟨m, mem_cons_of_mem _ member, fails⟩
  | callFails fetches stepped called ih =>
    rw [ending_of_fails fetches stepped called.fst_ending] at culprit
    obtain ⟨m, member, fails⟩ := ih culprit
    exact ⟨m, mem_cons_of_mem _ member, fails⟩
  | callReturns fetches stepped called rest ih_call ih =>
    rw [ending_of_returns fetches stepped called.fst_ending] at culprit
    obtain ⟨m, member, fails⟩ := ih culprit
    refine ⟨m, ?_, fails⟩
    rw [flatten_cons, mem_append] at member
    rw [flatten_cons, flatten_append, mem_append, mem_append]
    exact member.imp (mem_cons_of_mem _) .inr
  | @body _ _ _ _ _ _ _ frame _ out found room entered ran ih =>
    rw [ending_of_enter found room entered] at culprit
    obtain ⟨m, member, same, fault, ended, failed⟩ := ih culprit
    refine ⟨m, member, same, fault, ?_, failed⟩
    rcases out with ⟨_ | v, s⟩
    · exact ended
    · cases ended

end

/-- A run that ends in an instruction that uses an array that is not there. -/
def Ending.misuses : Ending σ → Bool
  | ((.error fault, _), some i) =>
    i.array?.isSome && (fault.trap? = some .staleArray || fault.trap? = some .nullArray)
  | _ => false

theorem Executes.exists_misuse (executes : Executes env task s frames out) (empty : s.arrays = .empty)
    (misuses : (task.ending env s).misuses = true) : ∃ m ∈ frames.flatten, ∃ r, m.instruction.array? = some r ∧
      ¬ CreatedBefore frames.flatten m.state.steps (m.state.reg r).handle := by
  have ended := executes.fst_ending
  generalize ending : task.ending env s = e at misuses ended
  obtain ⟨⟨fault | v, t⟩, i | i⟩ := e
  · cases misuses
  · obtain ⟨m, member, rfl, fault', failed, stepped⟩ := executes.exists_culprit (congrArg Prod.snd ending)
    rw [← ended] at failed
    cases failed
    simp only [Ending.misuses, Bool.and_eq_true, Bool.or_eq_true, decide_eq_true_eq,
      Option.isSome_iff_exists] at misuses
    obtain ⟨⟨r, uses⟩, kind⟩ := misuses
    refine ⟨m, member, r, uses, fun created => ?_⟩
    have harmless := harmless_of_live uses ((executes.live_iff empty member _).2 created) stepped
    exact kind.elim harmless.1 harmless.2
  · cases misuses
  · cases misuses

end Machine

/-! ## Programs that keep arrays apart -/

/-- The types that an item declares something with. -/
def Item.types : Item → List Ty
  | .function decl => decl.types
  | .var decl => [decl.ty]
  | .const decl => [decl.ty]

namespace Program

/-- Nothing is declared with the type `Any`. -/
def NoAny (program : Program) : Prop :=
  ∀ item ∈ program.items, ∀ ty ∈ item.types, ty.primitive ≠ .any

/-- A program without arrays as constants, with functions that keep arrays apart from other values. -/
structure ArraysApart (program : Program) : Prop where
  const : ∀ decl ∈ program.consts, decl.ty.isArray = false
  function : ∀ decl ∈ program.callable, decl.ArraysApart

/-- Some function of a program declares an array inside of a conditional. -/
def DeclaresArrayInBranch (program : Program) : Prop :=
  ∃ decl ∈ program.callable, ∃ var ∈ decl.branchVars, var.ty.isArray = true

instance (program : Program) : Decidable program.NoAny :=
  inferInstanceAs (Decidable (∀ item ∈ program.items, ∀ ty ∈ item.types, ty.primitive ≠ .any))

instance (program : Program) : Decidable program.ArraysApart :=
  decidable_of_iff ((∀ decl ∈ program.consts, decl.ty.isArray = false) ∧ ∀ decl ∈ program.callable, decl.ArraysApart)
    ⟨fun ⟨const, function⟩ => ⟨const, function⟩, fun ⟨const, function⟩ => ⟨const, function⟩⟩

instance (program : Program) : Decidable program.DeclaresArrayInBranch :=
  inferInstanceAs (Decidable (∃ decl ∈ program.callable, ∃ var ∈ decl.branchVars, var.ty.isArray = true))

variable {program : Program}

theorem mem_items_of_mem_callable {decl : FunctionDecl} (member : decl ∈ program.callable) :
    Item.function decl ∈ program.items := by
  obtain ⟨item, listed, same⟩ := mem_filterMap.1 (mem_filter.1 member).1
  cases item with
  | function decl' =>
    cases same
    exact listed
  | var | const => cases same

theorem mem_items_of_mem_globals {var : VarDecl} (member : var ∈ program.globals) :
    Item.var var ∈ program.items := by
  obtain ⟨item, listed, same⟩ := mem_filterMap.1 member
  cases item with
  | var var' =>
    cases same
    exact listed
  | function | const => cases same

end Program

namespace Emission

open Declared

variable {c : ConstValue}

/-- A constant that is known after an item was known before, or it is the item. -/
theorem const_of_declareItem {d : Declared} {item : Item} {x : String}
    (found : (d.declareItem item).decls.consts.lookup? x = some c) :
    d.decls.consts.lookup? x = some c ∨ ∃ const, item = .const const ∧ const.ty = c.ty := by
  cases item with
  | function decl => exact .inl found
  | var var =>
    rw [declareItem, declareGlobal] at found
    dsimp only at found
    split at found
    · exact .inl found
    split at found
    · exact .inl found
    split at found
    · exact .inl found
    cases init : var.init with
    | none =>
      rw [init] at found
      exact .inl found
    | some e =>
      rw [init] at found
      rw [decls_literalValue] at found
      exact .inl found
  | const const =>
    have same := decls_literalValue d const.value const.ty const.name.name true
    rw [declareItem, declareConst] at found
    split at found
    · exact .inl found
    split at found
    · next result =>
      rw [result] at same
      exact .inl (same ▸ found)
    · next result =>
      rw [result] at same
      rw [SymbolTable.lookup?_add] at found
      split at found
      · cases found
        exact .inr ⟨const, rfl, rfl⟩
      · exact .inl (same ▸ found)

theorem const_of_declareItems {items : List Item} {d : Declared} {x : String}
    (found : (items.foldl declareItem d).decls.consts.lookup? x = some c) :
    d.decls.consts.lookup? x = some c ∨ ∃ const, Item.const const ∈ items ∧ const.ty = c.ty := by
  induction items generalizing d with
  | nil => exact .inl found
  | cons item items ih =>
    rcases ih found with known | ⟨const, member, same⟩
    · rcases const_of_declareItem known with known | ⟨const, same, ty⟩
      · exact .inl known
      · exact .inr ⟨const, same ▸ mem_cons_self, ty⟩
    · exact .inr ⟨const, mem_cons_of_mem _ member, same⟩

variable {source : SourceText} {settings : EmitSettings} {program : Program} {p : ProgramDecls}
  {table : Array String} {bodies : Array (Option FinishedBody)} {image : Image}
  {natives : Array (Option (NativeFn σ))} {env : Machine.Env σ}

theorem arraysApart_hosted (built : Built source settings program p table bodies)
    (beside : Beside settings program p table env (hosted source program settings.optLevel image natives) id true)
    (executable : settings.fileType = .executable) (noAny : program.NoAny) (apart : program.ArraysApart) :
    (hosted source program settings.optLevel image natives).ArraysApart program.DeclaresArrayInBranch where
  orderly := beside.orderly built
  checked := beside.ordered_and_typed built
  main := beside.main_params built executable
  global var member := ⟨built.faithful.scalar var member,
    noAny _ (Program.mem_items_of_mem_globals member) _ mem_cons_self⟩
  const x c found := by
    rcases const_of_declareItems found with known | ⟨const, member, same⟩
    · cases known
    · rw [← same]
      exact ⟨apart.const const (mem_filterMap.2 ⟨_, member, rfl⟩), noAny _ member _ mem_cons_self⟩
  types decl member := noAny _ (Program.mem_items_of_mem_callable member)
  function := apart.function
  nested decl member var declared array := ⟨decl, member, var, declared, array⟩
  unassigned ty v := by
    unfold hosted
    dsimp only
    split
    · next free =>
      refine .keeping (fun _ _ => rfl) (fun _ _ _ impossible => nomatch impossible) fun _ _ _ _ _ array => ?_
      exact absurd array (ne_true_of_eq_false free.2)
    · refine .keeping (fun _ _ => rfl) (fun _ _ _ impossible => nomatch impossible) fun _ _ _ same _ _ => ?_
      cases same
      rfl
  native i args v := by
    refine .keeping (beside.still i args) (fun store choices reason failed => ?_) fun _ _ _ _ _ => trivial
    simp only [hosted] at failed
    split at failed
    · cases failed
    · cases failed
      exact Stop.harmless_stuck

/-- A run of a program without mistakes that keeps arrays apart uses arrays that were created before and not destroyed
since. It can use null only where the program declares an array inside of a conditional. -/
theorem createdBefore_of_runsMain (built : Built source settings program p table bodies)
    (numbered : (codefileOf settings p table bodies).Numbered)
    (loaded : Image.ofCodefile (codefileOf settings p table bodies) = .ok image) (noAny : program.NoAny)
    (apart : program.ArraysApart) {vm : Vm σ} {loader : Loader σ} {world : σ} (installed : vm.image = some image)
    {frames : List (List (Machine.Moment σ))} {out : Machine.Outcome σ Value}
    (runs : vm.RunsMain loader world frames out) {m : Machine.Moment σ} (member : m ∈ frames.flatten)
    (uses : m.instruction.array? = some r) :
    Machine.CreatedBefore frames.flatten m.state.steps (m.state.reg r).handle ∨
      (m.state.reg r).handle = 0 ∧ program.DeclaresArrayInBranch := by
  obtain ⟨installed', executable, linked, executes⟩ := runs
  cases installed.symm.trans installed'
  rcases executes.createdBefore_or_fault rfl member uses with created | ⟨fault, missing, failed⟩
  · exact .inl created
  right
  -- The evaluation of the program fails as the run does, but not because of an array that it destroyed or never had.
  have beside := beside_hosted built loaded vm.settings linked
  have executable := (fileType_of_loaded loaded).trans executable
  have follows := follows_run built beside numbered loaded executable vm.settings.maxCallDepth world
  have ended := executes.fst_ending
  change (Machine.callEnding _ (vm.settings.maxCallDepth - 0) _ _).1 = out at ended
  rw [Nat.sub_zero, Machine.fst_callEnding] at ended
  rw [ended] at follows
  obtain ⟨result, s⟩ := out
  subst failed
  cases follows with
  | limited => rcases array?_eq_error missing with ⟨-, impossible⟩ | impossible <;> cases impossible
  | @trap t _ _ used may kind yields =>
    have ran := yields []
    have stops := congrArg Prod.fst ran
    have harmless := (arraysApart_hosted built beside executable noAny apart).harmless_run vm.settings.maxCallDepth
      consistent_empty (used ++ []) stops
    rcases array?_eq_error missing with ⟨null, rfl⟩ | rfl
    · cases kind
      exact ⟨null, harmless.2 rfl⟩
    · cases kind
      exact absurd rfl harmless.1

end Emission

open Emission Machine in
/-- The code of a program can be loaded when the program has no mistakes, declares nothing as `Any` and keeps arrays
apart from other values. On every level, with any native functions and any limits, each instruction of a run that reads
from an array or writes to one uses a handle that an earlier instruction of the run got for a new array, and that no
instruction between the two has destroyed. The handle can be null instead only if some function of the program declares
an array inside of a conditional. -/
theorem executeMain_accesses {source : SourceText} {settings : EmitSettings} {program : Program}
    {output : EmitOutput} (emitted : emit program source settings = .ok output)
    (clean : output.report.hasErrors = false) (numbered : output.codefile.Numbered) (noAny : program.NoAny)
    (apart : program.ArraysApart) : ∃ image, Image.ofCodefile output.codefile = .ok image ∧
      ∀ (vm : Vm σ) (loader : Loader σ) (world : σ), vm.image = some image →
        ∀ frames out, vm.RunsMain loader world frames out → (vm.executeMain loader world).1 = out.1 ∧
          ∀ m ∈ frames.flatten, ∀ r, m.instruction.array? = some r →
            CreatedBefore frames.flatten m.state.steps (m.state.reg r).handle ∨
              (m.state.reg r).handle = 0 ∧ program.DeclaresArrayInBranch := by
  obtain ⟨table, bodies, built, codefile⟩ := built_of_clean emitted clean
  rw [codefile] at numbered ⊢
  obtain ⟨image, loaded⟩ := built.exists_image
  refine ⟨image, loaded, fun vm loader world installed frames out runs => ⟨?_, fun m member r uses => ?_⟩⟩
  · exact (exists_destroy_of_runsMain built numbered loaded installed runs).1
  · exact createdBefore_of_runsMain built numbered loaded noAny apart installed runs member uses

/-- A program that passes an array on to calls, which copy to it from an array of their own and return it. -/
def passingText : SourceText where
  name := "pass"
  text := "fn Fill(a: Int[2], n: Int): Int[2] \x7b var t: Int[1] = [n]; a[1] = t[0]; return a; \x7d " ++
    "fn Main(): Int \x7b var a: Int[2]; \x7b var b: Int[1] = [6]; Fill(a, b[0]); \x7d " ++
    "return Fill(Fill(a, a[1]), a[1] + 1)[1]; \x7d"

/-- The image of `passingText`. -/
def passingImage : Image where
  fileType := .executable
  entry := 1
  functions := #[
    .bytecode 1 0 [2, 65, 112, 52, 2, 64, 114, 52, 32, 83, 48, 0, 0, 82, 48, 0, 0, 2, 64, 113, 83, 64, 2, 49, 114, 19,
      80, 1, 1, 82, 48, 0, 0, 115, 48, 98],
    .bytecode 2 0 [2, 34, 112, 18, 83, 16, 0, 0, 2, 33, 112, 18, 2, 38, 2, 48, 114, 19, 32, 83, 16, 1, 0, 82, 16, 1,
      0, 2, 32, 113, 49, 32, 80, 48, 81, 32, 82, 16, 0, 0, 97, 0, 1, 16, 82, 16, 0, 0, 2, 33, 113, 49, 32, 34, 48, 80,
      48, 82, 16, 0, 0, 2, 33, 113, 49, 32, 80, 48, 81, 32, 82, 16, 0, 0, 97, 0, 1, 16, 80, 16, 81, 16, 81, 32, 97, 0,
      1, 16, 2, 33, 113, 49, 32, 1, 3, 82, 16, 0, 0, 115, 16, 82, 16, 1, 0, 115, 16, 98]]
  globals := #[]
  strings := #[]

/-- A function of the host that returns its first argument. -/
def echo : NativeFn Unit :=
  fun _ args world => (args.toList.headD 0, world)

/-- A machine whose host offers `echo`, about to run an image. -/
def echoing (image : Image) : Vm Unit :=
  { Vm.new {} with host := HostFunctions.empty.register "host" "echo" echo }.setImage image

theorem executeMain_accesses_passing : (parse passingText).1.NoAny ∧ (parse passingText).1.ArraysApart ∧
      ∃ frames out, (echoing passingImage).RunsMain .none () frames out ∧ out.1.toOption = some 7 ∧
        ∀ m ∈ frames.flatten, ∀ r, m.instruction.array? = some r →
          Machine.CreatedBefore frames.flatten m.state.steps (m.state.reg r).handle := by
  obtain ⟨emits, noAny, apart, plain⟩ : emitsTo passingText {} passingImage = true ∧ (parse passingText).1.NoAny ∧
      (parse passingText).1.ArraysApart ∧ ¬ (parse passingText).1.DeclaresArrayInBranch := by
    decide +kernel
  obtain ⟨output, emitted, clean, numbered, loaded⟩ := of_emitsTo emits
  have result : ((echoing passingImage).executeMain .none ()).1.toOption = some 7 := by decide +kernel
  generalize (parse passingText).1 = program at emitted noAny apart plain ⊢
  obtain ⟨image, loaded', all⟩ := executeMain_accesses (σ := Unit) emitted clean numbered noAny apart
  cases loaded.symm.trans loaded'
  obtain ⟨frames, out, executes⟩ := Machine.exists_executes_call ⟨passingImage, #[none, none],
    (echoing passingImage).settings⟩ 0 passingImage.entry (.initial passingImage.globals ())
  have runs : (echoing passingImage).RunsMain .none () frames out := .mk rfl rfl rfl executes
  obtain ⟨same, uses⟩ := all _ .none () rfl frames out runs
  rw [same] at result
  exact ⟨noAny, apart, frames, out, runs, result, fun m member r used =>
    (uses m member r used).resolve_right fun null => plain null.2⟩

/-! ## Programs that do not -/

/-- A text without mistakes that declares nothing as `Any`, with an image of it that is run and uses an array that was
not created or is destroyed. -/
def Misuses (source : SourceText) (image : Image) : Prop :=
  emitsTo source {} image = true ∧ (parse source).1.NoAny ∧
    ∃ frames out, (echoing image).RunsMain .none () frames out ∧
      ∃ m ∈ frames.flatten, ∃ r, m.instruction.array? = some r ∧
        ¬ Machine.CreatedBefore frames.flatten m.state.steps (m.state.reg r).handle

theorem misuses_of_ending {source : SourceText} {image : Image} (natives : Array (Option (NativeFn Unit)))
    (emits : emitsTo source {} image = true ∧ (parse source).1.NoAny) (executable : image.fileType = .executable)
    (linked : (echoing image).linker.linkAll .none (echoing image).host image.functions.toList #[] =
      (.ok natives, (echoing image).linker))
    (misuses : (Machine.callEnding ⟨image, natives, (echoing image).settings⟩ (echoing image).settings.maxCallDepth
      image.entry (.initial image.globals ())).misuses = true) : Misuses source image := by
  obtain ⟨frames, out, executes⟩ := Machine.exists_executes_call ⟨image, natives, (echoing image).settings⟩ 0
    image.entry (.initial image.globals ())
  exact ⟨emits.1, emits.2, frames, out, .mk rfl executable linked executes, executes.exists_misuse rfl misuses⟩

/-- A function that returns its own array. -/
def givingText : SourceText where
  name := "give"
  text := "fn Give(): Int[2] \x7b var a: Int[2] = [5, 6]; return a; \x7d fn Main(): Int \x7b return Give()[1]; \x7d"

def givingImage : Image where
  fileType := .executable
  entry := 1
  functions := #[
    .bytecode 1 0 [2, 34, 112, 18, 2, 37, 2, 48, 114, 19, 32, 2, 38, 2, 49, 114, 19, 32, 83, 16, 0, 0, 82, 0, 0, 0, 82,
      16, 0, 0, 115, 16, 98],
    .bytecode 0 0 [97, 0, 1, 16, 2, 33, 113, 49, 32, 1, 3, 98]]
  globals := #[]
  strings := #[]

/-- A function that takes a text for an array. -/
def spellingText : SourceText where
  name := "spell"
  text := "fn First(s: const Byte[3]): Byte \x7b return s[0]; \x7d " ++
    "fn Main(): Byte \x7b return First(\"abc\"); \x7d"

def spellingImage : Image where
  fileType := .executable
  entry := 1
  functions := #[
    .bytecode 0 0 [2, 32, 113, 49, 32, 1, 3, 98],
    .bytecode 0 0 [8, 16, 0, 0, 0, 0, 97, 0, 1, 16, 1, 1, 98]]
  globals := #[]
  strings := #[[97, 98, 99, 0]]

/-- A native function that returns a number for an array. -/
def guessingText : SourceText where
  name := "guess"
  text := "@extern(\"host\", \"echo\") fn Echo(n: Int): Int[2]; fn Main(): Int \x7b return Echo(7)[1]; \x7d"

def guessingImage : Image where
  fileType := .executable
  entry := 1
  functions := #[
    .native "host" "echo",
    .bytecode 0 0 [2, 23, 97, 0, 1, 16, 2, 33, 113, 49, 32, 1, 3, 98]]
  globals := #[]
  strings := #[[104, 111, 115, 116, 0], [101, 99, 104, 111, 0]]

/-- An array whose declaration is passed over. -/
def skippingText : SourceText where
  name := "skip"
  text := "fn Main(): Int \x7b if 0 \x7b var a: Int[2] = [5, 6]; \x7d return a[1]; \x7d"

def skippingImage : Image where
  fileType := .executable
  entry := 0
  functions := #[
    .bytecode 1 0 [2, 16, 51, 16, 66, 22, 2, 34, 112, 18, 2, 37, 2, 48, 114, 19, 32, 2, 38, 2, 49, 114, 19, 32, 83, 16,
      0, 0, 82, 16, 0, 0, 2, 33, 113, 49, 32, 1, 3, 82, 16, 0, 0, 115, 16, 98]]
  globals := #[]
  strings := #[]

/-- A program without mistakes can use an array that is not there: one that was destroyed when it was returned, a text,
a number that a native function returns, or one whose declaration was passed over. -/
theorem exists_misuses :
    Misuses givingText givingImage ∧ Misuses spellingText spellingImage ∧ Misuses guessingText guessingImage ∧
      Misuses skippingText skippingImage := by
  refine ⟨?_, ?_, ?_, ?_⟩
  · exact misuses_of_ending #[none, none] (by decide +kernel) rfl rfl (by decide +kernel)
  · exact misuses_of_ending #[none, none] (by decide +kernel) rfl rfl (by decide +kernel)
  · exact misuses_of_ending #[some echo, none] (by decide +kernel) rfl rfl (by decide +kernel)
  · exact misuses_of_ending #[none] (by decide +kernel) rfl rfl (by decide +kernel)

end RegisterLang
