import RegisterLang.Proofs.Stepwise

/-! # Limits and records do not disturb a run

A run with a step limit does what a run without one does, as far as it gets. Recording jumps changes nothing but the
record, which lists the jumps that were taken. Main statement: `main_undisturbed`.
-/

namespace RegisterLang

/-- The condition under which an instruction jumps, if it is a jump. -/
def Instruction.condition? : Instruction → Option Condition
  | .jump8 cond _ => some cond
  | .jump16 cond _ => some cond
  | _ => none

namespace Machine

open Config

variable {σ : Type} {env : Env σ} {world : σ} {n : Nat}

namespace Env

/-- The same machine with another step limit, or none. -/
def withMaxSteps (env : Env σ) (limit : Option Nat) : Env σ :=
  { env with settings := { env.settings with maxSteps := limit } }

/-- The same machine with jumps recorded or not. -/
def withTraceJumps (env : Env σ) (traced : Bool) : Env σ :=
  { env with settings := { env.settings with traceJumps := traced } }

/-- Run the function that the image starts with. -/
def main (env : Env σ) (world : σ) : Outcome σ Value :=
  call env env.settings.maxCallDepth env.image.entry (.initial env.image.globals world)

/-- The run of the function that the image starts with, after so many instructions. -/
def after (env : Env σ) (world : σ) (n : Nat) : Config σ :=
  (next env)^[n] (start env env.image.entry [] (.initial env.image.globals world))

end Env

theorem after_succ (env : Env σ) (world : σ) (n : Nat) : env.after world (n + 1) = next env (env.after world n) :=
  Function.iterate_succ_apply' _ _ _

theorem steps_after_zero (env : Env σ) (world : σ) : (env.after world 0).state.steps = 0 :=
  congrArg Prod.fst (tally_start env env.image.entry [] _)

theorem exists_after_eq_ended (env : Env σ) (world : σ) : ∃ n, env.after world n = .ended (env.main world) :=
  iterate_next_eq_ended env _ _

theorem main_eq_of_after {out : Outcome σ Value} (ended : env.after world n = .ended out) : env.main world = out :=
  call_eq_of_iterate_next ended

theorem steps_after_le (env : Env σ) (world : σ) (n : Nat) : (env.after world n).state.steps ≤ n := by
  have few := steps_iterate_le env (env.after world 0) n
  rw [steps_after_zero, Nat.zero_add] at few
  exact few

theorem steps_after_le_main (env : Env σ) (world : σ) (n : Nat) :
    (env.after world n).state.steps ≤ (env.main world).2.steps := by
  obtain ⟨m, ended⟩ := exists_after_eq_ended env world
  calc
    (env.after world n).state.steps ≤ (env.after world (n + m)).state.steps :=
      steps_iterate_mono env _ (Nat.le_add_right n m)
    _ = (env.main world).2.steps := by
      rw [Env.after, Function.iterate_add_apply, ← Env.after, ended, iterate_next_ended]
      rfl

theorem next_of_past (env : Env σ) {top : OpenCall} (past : top.code.length ≤ top.offset) (below : List OpenCall)
    (s : State σ) :
    ∃ stack, next env (.running top below s) = .ended (.error (.fellOffEnd top.frame.function), { s with stack }) := by
  rw [next, if_pos past]
  exact close_error top below _ s

theorem steps_of_running {top : OpenCall} {below : List OpenCall} {s : State σ}
    (running : env.after world n = .running top below s) : s.steps = n := by
  induction n generalizing top below s with
  | zero =>
    have counted := steps_after_zero env world
    rw [running] at counted
    exact counted
  | succ n ih =>
    rw [after_succ] at running
    cases before : env.after world n with
    | ended out =>
      rw [before] at running
      cases running
    | running top' below' s' =>
      have counted := steps_next env top' below' s'
      rw [← before, running, ih before] at counted
      -- The code was not at its end, or the run would not go on.
      by_cases inside : top'.offset < top'.code.length
      · rw [if_pos inside] at counted
        exact counted
      · obtain ⟨stack, ended⟩ := next_of_past env (Nat.le_of_not_lt inside) below' s'
        rw [before, ended] at running
        cases running

/-- After fewer instructions than a run executes, it goes on with another one. -/
theorem running_of_lt (more : n < (env.main world).2.steps) :
    ∃ top below s, env.after world n = .running top below s ∧ s.steps = n ∧ top.offset < top.code.length := by
  cases here : env.after world n with
  | ended out =>
    have few := steps_after_le env world n
    rw [here, ← main_eq_of_after here] at few
    exact absurd few (Nat.not_le_of_lt more)
  | running top below s =>
    refine ⟨top, below, s, rfl, steps_of_running here, ?_⟩
    by_contra past
    obtain ⟨stack, ended⟩ := next_of_past env (Nat.le_of_not_lt past) below s
    rw [← here, ← after_succ] at ended
    have same : (env.main world).2.steps = s.steps := by rw [main_eq_of_after ended]
    have counted := steps_of_running here
    omega

/-! ## The step limit -/

theorem next_limited {c : Config σ} (few : (next (env.withMaxSteps none) c).state.steps ≤ n) :
    next (env.withMaxSteps (some n)) c = next (env.withMaxSteps none) c := by
  cases c with
  | ended out => rfl
  | running top below s =>
    rw [steps_next] at few
    rw [next, next]
    by_cases inside : top.offset < top.code.length
    · rw [if_pos inside] at few
      rw [if_neg (Nat.not_le_of_lt inside), if_neg (Nat.not_le_of_lt inside)]
      have allowed : ¬ (some n).any (· < s.tick.steps) = true := by
        intro exceeded
        exact Nat.not_lt_of_le few (of_decide_eq_true exceeded)
      exact if_neg allowed
    · rw [if_pos (Nat.le_of_not_lt inside), if_pos (Nat.le_of_not_lt inside)]

theorem after_limited {k : Nat} (few : ((env.withMaxSteps none).after world k).state.steps ≤ n) :
    (env.withMaxSteps (some n)).after world k = (env.withMaxSteps none).after world k := by
  induction k with
  | zero => rfl
  | succ k ih =>
    rw [after_succ] at few
    have before := Nat.le_trans (steps_le_next _ _) few
    rw [after_succ, after_succ, ih before, next_limited few]

theorem main_of_le (few : ((env.withMaxSteps none).main world).2.steps ≤ n) :
    (env.withMaxSteps (some n)).main world = (env.withMaxSteps none).main world := by
  obtain ⟨k, ended⟩ := exists_after_eq_ended (env.withMaxSteps none) world
  apply main_eq_of_after (n := k)
  rw [after_limited, ended]
  rw [ended]
  exact few

/-- A limit that is passed ends the run where it is passed. Only the stack is taken down. -/
theorem main_of_lt (more : n < ((env.withMaxSteps none).main world).2.steps) :
    ∃ stack, (env.withMaxSteps (some n)).main world = (.error (.stepLimitExceeded n),
      { ((env.withMaxSteps none).after world n).state with steps := n + 1, stack }) := by
  obtain ⟨top, below, s, here, counted, inside⟩ := running_of_lt more
  have here' : (env.withMaxSteps (some n)).after world n = .running top below s := by
    rw [after_limited, here]
    rw [here]
    exact Nat.le_of_eq counted
  have exceeded : (some n).any (· < s.tick.steps) = true := by
    apply decide_eq_true
    change n < s.steps + 1
    omega
  obtain ⟨stack, closed⟩ := close_error top below (.stepLimitExceeded n) s.tick
  refine ⟨stack, ?_⟩
  apply main_eq_of_after (n := n + 1)
  rw [after_succ, here', here, next, if_neg (Nat.not_le_of_lt inside)]
  refine (if_pos exceeded).trans (closed.trans ?_)
  rw [← counted]
  rfl

/-! ## The record of jumps -/

/-- The jump that leads from one configuration to the next: the instruction of the first one is a jump whose condition
holds, and the second one says where execution went on. -/
def taken? : Config σ → Config σ → Option JumpRecord
  | .running top _ s, .running top' _ _ =>
    match Instruction.decodeAt top.code top.offset with
    | .ok (i, _) =>
      if i.condition?.any s.flags.holds then some ⟨top.frame.function, top.offset, top'.offset⟩ else none
    | .error _ => none
  | _, _ => none

theorem taken?_ended (c : Config σ) (out : Outcome σ Value) : taken? c (.ended out) = none := by
  cases c with
  | running _ _ _ | ended _ => rfl

theorem taken?_running {top : OpenCall} {i : Instruction} {length : Nat}
    (decoded : Instruction.decodeAt top.code top.offset = .ok (i, length)) (below : List OpenCall) (s : State σ)
    (top' : OpenCall) (below' : List OpenCall) (s' : State σ) :
    taken? (.running top below s) (.running top' below' s') =
      if i.condition?.any s.flags.holds then some ⟨top.frame.function, top.offset, top'.offset⟩ else none := by
  rw [taken?, decoded]

/-- The jumps that are taken in the first instructions of a run, in order. -/
def Env.jumpsTaken (env : Env σ) (world : σ) (n : Nat) : List JumpRecord :=
  (List.range n).filterMap fun k => taken? (env.after world k) (env.after world (k + 1))

theorem jumps_step {i : Instruction} (other : i.condition? = none) (frame : Frame) (offset next : Nat) (s : State σ) :
    (step env frame offset next i s).2.jumps = s.jumps := by
  cases i with
  | jump8 cond distance | jump16 cond distance => cases other
  | _ =>
    simp only [step, advance, onArrays]
    repeat' split
    all_goals rfl

theorem jumps_proceed (top : OpenCall) (below : List OpenCall) (next : Nat) (out : Outcome σ Effect) :
    (proceed env top below next out).state.jumps = out.2.jumps :=
  congrArg Prod.snd (tally_proceed env top below next out)

section
variable (traced : env.settings.traceJumps = true)
include traced

theorem jumps_execute (top : OpenCall) (below : List OpenCall) (s : State σ) :
    (execute env top below s.tick).state.jumps.toList =
      s.jumps.toList ++ (taken? (.running top below s) (execute env top below s.tick)).toList := by
  rw [execute]
  cases decoded : Instruction.decodeAt top.code top.offset with
  | error e =>
    obtain ⟨stack, closed⟩ := close_error top below (.invalidInstruction top.frame.function e) s.tick
    simp only [closed, taken?_ended]
    exact (List.append_nil _).symm
  | ok found =>
    obtain ⟨i, length⟩ := found
    dsimp only
    cases condition : i.condition? with
    | none =>
      have none : ∀ c : Config σ, taken? (.running top below s) c = none := by
        intro c
        cases c with
        | ended out => rfl
        | running top' below' s' =>
          rw [taken?_running decoded, condition]
          rfl
      rw [none, jumps_proceed, jumps_step condition]
      exact (List.append_nil _).symm
    | some cond =>
      obtain ⟨distance, stepped⟩ : ∃ distance, step env top.frame top.offset (top.offset + i.length) i s.tick =
          jump env top.frame.function top.offset (top.offset + i.length) cond distance s.tick := by
        cases i with
        | jump8 cond' distance | jump16 cond' distance =>
          cases condition
          exact ⟨distance.toNat, rfl⟩
        | _ => cases condition
      rw [stepped, jump_eq, traced]
      change (proceed env top below _ (if s.flags.holds cond then _ else _)).state.jumps.toList =
        _ ++ (taken? _ (proceed env top below _ (if s.flags.holds cond then _ else _))).toList
      by_cases holds : s.flags.holds cond = true
      · rw [if_pos holds, proceed, taken?_running decoded, condition, Option.any_some, if_pos holds]
        exact Array.toList_push
      · rw [if_neg holds, advance, proceed, taken?_running decoded, condition, Option.any_some, if_neg holds]
        exact (List.append_nil _).symm

theorem jumps_next (c : Config σ) :
    (next env c).state.jumps.toList = c.state.jumps.toList ++ (taken? c (next env c)).toList := by
  cases c with
  | ended out => exact (List.append_nil _).symm
  | running top below s =>
    rw [next]
    split
    · obtain ⟨stack, closed⟩ := close_error top below (.fellOffEnd top.frame.function) s
      rw [closed]
      exact (List.append_nil _).symm
    · split
      · obtain ⟨stack, closed⟩ :=
          close_error top below (.stepLimitExceeded (env.settings.maxSteps.getD 0)) s.tick
        rw [closed]
        exact (List.append_nil _).symm
      · exact jumps_execute traced top below s

theorem jumps_after (world : σ) (n : Nat) :
    (env.after world n).state.jumps.toList = env.jumpsTaken world n := by
  induction n with
  | zero => exact congrArg (fun tally => tally.2.toList) (tally_start env env.image.entry [] _)
  | succ n ih =>
    rw [after_succ, jumps_next traced, ih, ← after_succ, Env.jumpsTaken, Env.jumpsTaken, List.range_succ]
    cases taken : taken? (env.after world n) (env.after world (n + 1)) with
    | none | some _ => simp [taken]

end

theorem taken?_of_le (done : (env.main world).2.steps ≤ n) :
    taken? (env.after world n) (env.after world (n + 1)) = none := by
  cases here : env.after world n with
  | ended out =>
    rfl
  | running top below s =>
    have counted := steps_of_running here
    have bounded := steps_after_le_main env world (n + 1)
    rw [after_succ, here, steps_next] at bounded
    by_cases inside : top.offset < top.code.length
    · rw [if_pos inside] at bounded
      omega
    · obtain ⟨stack, ended⟩ := next_of_past env (Nat.le_of_not_lt inside) below s
      rw [after_succ, here, ended]
      exact taken?_ended _ _

/-- A machine that records jumps has recorded those that it took, in order. -/
theorem jumps_main (traced : env.settings.traceJumps = true) (world : σ) :
    (env.main world).2.jumps.toList = env.jumpsTaken world (env.main world).2.steps := by
  obtain ⟨n, ended⟩ := exists_after_eq_ended env world
  have all : ∀ more, env.jumpsTaken world ((env.main world).2.steps + more) =
      env.jumpsTaken world (env.main world).2.steps := by
    intro more
    induction more with
    | zero => rfl
    | succ more ih =>
      rw [← ih, Env.jumpsTaken, ← Nat.add_assoc, List.range_succ, List.filterMap_append, List.filterMap_cons,
        taken?_of_le (Nat.le_add_right _ more)]
      exact List.append_nil _
  have enough : (env.main world).2.steps ≤ n := by
    have few := steps_after_le env world n
    rw [ended] at few
    exact few
  have recorded := jumps_after traced world n
  rw [ended, ← Nat.add_sub_cancel' enough, all] at recorded
  exact recorded

/-- Apart from the record, a machine that records jumps does what one does that does not. -/
theorem mirrors_untraced (env : Env σ) (traced : Bool) :
    (env.withTraceJumps traced).Mirrors (env.withTraceJumps false) (fun _ => #[]) id where
  image := rfl
  maxCallDepth := rfl
  maxSteps := rfl
  records _ _ := rfl
  natives index s := by
    simp only [callNative, Env.withTraceJumps]
    cases env.natives[index.toNat]?.join with
    | none | some _ => rfl

/-- A run is not disturbed by what is watched in it. Suppose that it executes so many instructions without a step limit.
With a limit of no less it ends as before, in the same state. With a lower limit it ends right when the limit is passed,
which counts one instruction more; apart from that and from the stack, which is taken down, the state is the one after
as many instructions as were allowed. Recording jumps changes nothing but the record, which lists the jumps that were
taken, in order. -/
theorem main_undisturbed (env : Env σ) (world : σ) : (∀ n, ((env.withMaxSteps none).main world).2.steps ≤ n →
      (env.withMaxSteps (some n)).main world = (env.withMaxSteps none).main world) ∧
    (∀ n, n < ((env.withMaxSteps none).main world).2.steps → ((env.withMaxSteps none).after world n).state.steps = n ∧
      ∃ stack, (env.withMaxSteps (some n)).main world = (.error (.stepLimitExceeded n),
        { ((env.withMaxSteps none).after world n).state with steps := n + 1, stack })) ∧
    ((env.withTraceJumps true).main world).1 = ((env.withTraceJumps false).main world).1 ∧
    { ((env.withTraceJumps true).main world).2 with jumps := #[] } = ((env.withTraceJumps false).main world).2 ∧
    ((env.withTraceJumps true).main world).2.jumps.toList =
      (env.withTraceJumps true).jumpsTaken world ((env.withTraceJumps true).main world).2.steps := by
  have same := (mirrors_untraced env true).call env.image.entry (.initial env.image.globals world)
  refine ⟨fun n few => main_of_le few, fun n more => ⟨?_, main_of_lt more⟩, ?_, ?_, jumps_main rfl world⟩
  · obtain ⟨top, below, s, here, counted, -⟩ := running_of_lt more
    rw [here]
    exact counted
  · exact (congrArg Prod.fst same).symm
  · exact (congrArg Prod.snd same).symm

/-- A machine that jumps over an instruction and calls a function; both store to a global. -/
def hopping : Env Unit where
  image :=
    { fileType := .executable
      entry := 0
      functions := #[
        .bytecode 0 0 ([.ldi8 1 5, .globalSet 1 0, .testz 1, .jump8 .ne 2, .inc 1, .call8 1, .ret].flatMap
          Instruction.encode),
        .bytecode 0 0 ([.ldi8 2 9, .globalSet 2 0, .retVoid].flatMap Instruction.encode)]
      globals := #[0]
      strings := #[] }
  natives := #[none, none]
  settings := { traceJumps := true }

theorem main_undisturbed_hopping : ((hopping.withMaxSteps none).main ()).2.steps = 9 ∧
    ((hopping.withMaxSteps (some 9)).main ()).1 = .ok 0 ∧
    (∃ s, (hopping.withMaxSteps (some 6)).main () = (.error (.stepLimitExceeded 6), s) ∧ s.steps = 7 ∧
      s.globals = #[5]) ∧ (hopping.withTraceJumps true).jumpsTaken () 9 = [⟨0, 11, 15⟩] := by
  obtain ⟨enough, less, -, -, recorded⟩ := main_undisturbed hopping ()
  have counted : ((hopping.withMaxSteps none).main ()).2.steps = 9 := by decide +kernel
  refine ⟨counted, ?_, ?_, ?_⟩
  · rw [enough 9 (Nat.le_of_eq counted)]
    decide +kernel
  · obtain ⟨-, stack, stopped⟩ := less 6 (by rw [counted]; decide)
    refine ⟨_, stopped, rfl, ?_⟩
    change ((hopping.withMaxSteps none).after () 6).state.globals = #[5]
    decide +kernel
  · refine Eq.trans ?_ (recorded.symm.trans ?_)
    · exact congrArg _ counted.symm
    · decide +kernel

end Machine

end RegisterLang
