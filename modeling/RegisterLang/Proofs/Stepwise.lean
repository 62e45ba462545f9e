import Mathlib.Logic.Function.Iterate
import RegisterLang.Machine.Vm
import RegisterLang.Proofs.Termination

/-! # Runs instruction by instruction

A run goes through configurations, one for each instruction that it executes. Calls that have not returned wait below
the one that is executing. Main statements: `iterate_next_eq_ended`, the run of a function gets to the end that `call`
gives; and `Env.Mirrors.call`, a machine that does the same with each instruction, apart from the jumps that it records
and from the world that it sees, does the same with every call.
-/

namespace RegisterLang.Machine

open Function

variable {σ τ : Type} {env : Env σ} {s : State σ} {out : Outcome σ Value}

/-- A call that has not returned: its frame, its code and where the code goes on. -/
structure OpenCall where
  frame : Frame
  code : List UInt8
  offset : Nat

/-- The machine between two instructions. -/
inductive Config (σ : Type) where
  /-- The code of `top` goes on, then that of the calls below. -/
  | running (top : OpenCall) (below : List OpenCall) (s : State σ)
  | ended (out : Outcome σ Value)

namespace Config

def state : Config σ → State σ
  | running _ _ s => s
  | ended out => out.2

/-- Go on after a call that was made above open calls. A fault closes all of them. -/
def finish : List OpenCall → Outcome σ Value → Config σ
  | opened, (.error fault, s) => .ended (opened.foldl (fun out a => leave a.frame out) (.error fault, s))
  | [], (.ok v, s) => .ended (.ok v, s)
  | top :: below, (.ok _, s) => .running top below s

/-- Go on after the code of a call has come to its end. -/
def close (top : OpenCall) (below : List OpenCall) (out : Outcome σ Value) : Config σ :=
  finish below (returned (leave top.frame out))

/-- Call a function above open calls. -/
def start (env : Env σ) (index : UInt32) (opened : List OpenCall) (s : State σ) : Config σ :=
  match env.image.functions[index.toNat]? with
  | none => finish opened (.error (.badFunction index), s)
  | some (.native _ _) => finish opened (callNative env index s)
  | some (.bytecode localReserve stackArgs code) =>
    if env.settings.maxCallDepth ≤ opened.length then
      finish opened (.error (.callDepthExceeded env.settings.maxCallDepth), s)
    else
      match enter index localReserve stackArgs s with
      | none => finish opened (.error (.stackUnderflow index 0), s)
      | some (frame, s) => .running ⟨frame, code, 0⟩ opened s

/-- Go on after an instruction that is followed by the one at `next`. -/
def proceed (env : Env σ) (top : OpenCall) (below : List OpenCall) (next : Nat) : Outcome σ Effect → Config σ
  | (.error fault, s) => close top below (.error fault, s)
  | (.ok .next, s) => .running { top with offset := next } below s
  | (.ok (.skip distance), s) => .running { top with offset := next + distance } below s
  | (.ok (.call function), s) => start env function ({ top with offset := next } :: below) s
  | (.ok (.ret v), s) => close top below (.ok v, s)

/-- Read an instruction and execute it. -/
def execute (env : Env σ) (top : OpenCall) (below : List OpenCall) (s : State σ) : Config σ :=
  match Instruction.decodeAt top.code top.offset with
  | .error e => close top below (.error (.invalidInstruction top.frame.function e), s)
  | .ok (i, _) =>
    proceed env top below (top.offset + i.length) (step env top.frame top.offset (top.offset + i.length) i s)

/-- The configuration after the next instruction. -/
def next (env : Env σ) : Config σ → Config σ
  | .running top below s =>
    if top.code.length ≤ top.offset then close top below (.error (.fellOffEnd top.frame.function), s)
    else if env.settings.maxSteps.any (· < s.tick.steps) then
      close top below (.error (.stepLimitExceeded (env.settings.maxSteps.getD 0)), s.tick)
    else execute env top below s.tick
  | .ended out => .ended out

/-! ## Ends -/

theorem iterate_next_ended (env : Env σ) (out : Outcome σ Value) (n : Nat) : (next env)^[n] (.ended out) = .ended out :=
  iterate_fixed rfl n

theorem eq_of_iterate_next {c : Config σ} {m n : Nat} {out' : Outcome σ Value}
    (first : (next env)^[m] c = .ended out) (second : (next env)^[n] c = .ended out') : out = out' := by
  have after : (next env)^[n + m] c = .ended out := by rw [iterate_add_apply, first, iterate_next_ended]
  have after' : (next env)^[m + n] c = .ended out' := by rw [iterate_add_apply, second, iterate_next_ended]
  rw [Nat.add_comm, after'] at after
  cases after
  rfl

theorem next_of_fetches {frame : Frame} {code : List UInt8} {offset : Nat} {i : Instruction}
    (fetches : Fetches env code offset s i) (below : List OpenCall) :
    next env (.running ⟨frame, code, offset⟩ below s) = proceed env ⟨frame, code, offset⟩ below (offset + i.length)
      (step env frame offset (offset + i.length) i s.tick) := by
  have inside := fetches.inside
  rw [next, if_neg (Nat.not_le_of_lt inside), fetches.allowed, if_neg Bool.false_ne_true, execute, fetches.decoded]

end Config

open Config

/-- From any configuration in which a task is to be done, the machine gets to the one after it. -/
def Task.Reaches (env : Env σ) (s : State σ) (out : Outcome σ Value) : Task → Prop
  | .call depth index => ∀ opened : List OpenCall, opened.length = depth →
    ∃ n, (next env)^[n] (start env index opened s) = finish opened out
  | .run depth frame code offset => ∀ below : List OpenCall, below.length + 1 = depth →
    ∃ n, (next env)^[n] (.running ⟨frame, code, offset⟩ below s) = close ⟨frame, code, offset⟩ below out

theorem Executes.reaches {task : Task} {frames : List (List (Moment σ))} (executes : Executes env task s frames out) :
    task.Reaches env s out := by
  induction executes with
  | fellOff past =>
    intro below depth
    exact ⟨1, if_pos past⟩
  | limited inside exceeded =>
    intro below depth
    refine ⟨1, ?_⟩
    rw [iterate_one, Config.next, if_neg (Nat.not_le_of_lt inside), if_pos exceeded]
  | invalid inside allowed failed =>
    intro below depth
    refine ⟨1, ?_⟩
    rw [iterate_one, Config.next, if_neg (Nat.not_le_of_lt inside), allowed, if_neg Bool.false_ne_true,
      execute, failed]
  | fault fetches stepped | ret fetches stepped =>
    intro below depth
    refine ⟨1, ?_⟩
    rw [iterate_one, next_of_fetches fetches, stepped]
    rfl
  | next fetches stepped rest ih | skip fetches stepped rest ih =>
    intro below depth
    obtain ⟨n, reached⟩ := ih below depth
    refine ⟨n + 1, ?_⟩
    rw [iterate_succ_apply, next_of_fetches fetches, stepped]
    exact reached
  | callFails fetches stepped called ih =>
    intro below depth
    obtain ⟨n, reached⟩ := ih (_ :: below) depth
    refine ⟨n + 1, ?_⟩
    rw [iterate_succ_apply, next_of_fetches fetches, stepped]
    exact reached
  | callReturns fetches stepped called rest ih_call ih =>
    intro below depth
    obtain ⟨m, returned⟩ := ih_call (_ :: below) depth
    obtain ⟨n, reached⟩ := ih below depth
    refine ⟨n + m + 1, ?_⟩
    rw [iterate_succ_apply, next_of_fetches fetches, stepped, iterate_add_apply]
    exact (congrArg _ returned).trans reached
  | missing absent =>
    intro opened depth
    refine ⟨0, ?_⟩
    rw [iterate_zero_apply, start, absent]
  | native found =>
    intro opened depth
    refine ⟨0, ?_⟩
    rw [iterate_zero_apply, start, found]
  | tooDeep found deep =>
    intro opened depth
    refine ⟨0, ?_⟩
    rw [start, found]
    exact if_pos (depth ▸ deep)
  | underflow found room failed =>
    intro opened depth
    refine ⟨0, ?_⟩
    rw [iterate_zero_apply, start, found]
    dsimp only
    rw [if_neg (by omega), failed]
  | body found room entered ran ih =>
    intro opened depth
    obtain ⟨n, reached⟩ := ih opened (by omega)
    refine ⟨n, ?_⟩
    rw [start, found]
    dsimp only
    rw [if_neg (by omega), entered]
    exact reached

theorem iterate_next_eq_ended (env : Env σ) (index : UInt32) (s : State σ) :
    ∃ n, (next env)^[n] (start env index [] s) = .ended (call env env.settings.maxCallDepth index s) := by
  obtain ⟨frames, out, executes⟩ := exists_executes_call env 0 index s
  obtain ⟨n, reached⟩ := executes.reaches [] rfl
  refine ⟨n, ?_⟩
  rw [reached, executes.eq_call]
  generalize call env env.settings.maxCallDepth index s = out
  rcases out with ⟨fault | v, t⟩
  · rfl
  · rfl

theorem call_eq_of_iterate_next {index : UInt32} {n : Nat}
    (ended : (next env)^[n] (start env index [] s) = .ended out) :
    call env env.settings.maxCallDepth index s = out := by
  obtain ⟨m, reached⟩ := iterate_next_eq_ended env index s
  exact eq_of_iterate_next reached ended

/-! ## Steps are counted -/

/-- What a state tells of the run so far: how many instructions were counted and which jumps were recorded. -/
def State.tally (s : State σ) : Nat × Array JumpRecord :=
  (s.steps, s.jumps)

theorem tally_returned (out : Outcome σ Value) : (returned out).2.tally = out.2.tally := by
  rcases out with ⟨fault | v, s⟩
  · rfl
  · rfl

theorem tally_callNative (env : Env σ) (index : UInt32) (s : State σ) : (callNative env index s).2.tally = s.tally := by
  rw [callNative]
  split
  · rfl
  · exact tally_returned _

theorem tally_enter {index : UInt32} {reserve stackArgs : Nat} {s' : State σ} {frame : Frame}
    (entered : enter index reserve stackArgs s = some (frame, s')) : s'.tally = s.tally := by
  rw [enter] at entered
  split at entered
  · cases entered
  · cases entered
    rfl

namespace Config

theorem finish_error (opened : List OpenCall) (fault : Fault) (s : State σ) :
    ∃ stack, finish opened (.error fault, s) = .ended (.error fault, { s with stack }) := by
  suffices unwound : ∀ stack, ∃ stack', opened.foldl (fun out a => leave a.frame out)
      ((.error fault, { s with stack }) : Outcome σ Value) = (.error fault, { s with stack := stack' }) by
    obtain ⟨stack, same⟩ := unwound s.stack
    refine ⟨stack, ?_⟩
    exact congrArg _ same
  induction opened with
  | nil =>
    intro stack
    exact ⟨stack, rfl⟩
  | cons top below ih =>
    intro stack
    exact ih _

theorem close_error (top : OpenCall) (below : List OpenCall) (fault : Fault) (s : State σ) :
    ∃ stack, close top below (.error fault, s) = .ended (.error fault, { s with stack }) :=
  finish_error below fault _

theorem tally_finish (opened : List OpenCall) (out : Outcome σ Value) :
    (finish opened out).state.tally = out.2.tally := by
  rcases out with ⟨fault | v, s⟩
  · obtain ⟨stack, same⟩ := finish_error opened fault s
    rw [same]
    rfl
  · cases opened with
    | nil | cons _ _ => rfl

theorem tally_close (top : OpenCall) (below : List OpenCall) (out : Outcome σ Value) :
    (close top below out).state.tally = out.2.tally := by
  rw [close, tally_finish, tally_returned]
  rfl

section
variable (env : Env σ)

theorem tally_start (index : UInt32) (opened : List OpenCall) (s : State σ) :
    (start env index opened s).state.tally = s.tally := by
  rw [start]
  split
  · exact tally_finish _ _
  · rw [tally_finish, tally_callNative]
  · split
    · exact tally_finish _ _
    · split
      · exact tally_finish _ _
      · next entered => exact tally_enter entered

theorem tally_proceed (top : OpenCall) (below : List OpenCall) (next : Nat) (out : Outcome σ Effect) :
    (proceed env top below next out).state.tally = out.2.tally := by
  rcases out with ⟨fault | effect, s⟩
  · exact tally_close _ _ _
  · cases effect with
    | next | skip => rfl
    | call function => exact tally_start _ _ _ _
    | ret v => exact tally_close _ _ _

theorem steps_execute (top : OpenCall) (below : List OpenCall) (s : State σ) :
    (execute env top below s).state.steps = s.steps := by
  rw [execute]
  split
  · exact congrArg Prod.fst (tally_close _ _ _)
  · exact (congrArg Prod.fst (tally_proceed _ _ _ _ _)).trans (steps_step _ _ _ _ _ _)

theorem steps_next (top : OpenCall) (below : List OpenCall) (s : State σ) :
    (next env (.running top below s)).state.steps = s.steps + if top.offset < top.code.length then 1 else 0 := by
  rw [next]
  by_cases inside : top.offset < top.code.length
  · rw [if_neg (Nat.not_le_of_lt inside)]
    split
    · exact congrArg Prod.fst (tally_close _ _ _)
    · exact steps_execute _ _ _ _
  · rw [if_neg inside, if_pos (Nat.le_of_not_lt inside)]
    exact congrArg Prod.fst (tally_close _ _ _)

theorem steps_le_next (c : Config σ) : c.state.steps ≤ (next env c).state.steps := by
  cases c with
  | running top below s =>
    rw [steps_next]
    exact Nat.le_add_right _ _
  | ended out => exact Nat.le_refl _

theorem steps_next_le (c : Config σ) : (next env c).state.steps ≤ c.state.steps + 1 := by
  cases c with
  | running top below s =>
    rw [steps_next, state]
    split <;> omega
  | ended out => exact Nat.le_succ _

theorem steps_iterate_mono (c : Config σ) {m n : Nat} (earlier : m ≤ n) :
    ((next env)^[m] c).state.steps ≤ ((next env)^[n] c).state.steps := by
  induction earlier with
  | refl => exact Nat.le_refl _
  | step _ ih =>
    rw [iterate_succ_apply']
    exact Nat.le_trans ih (steps_le_next env _)

theorem steps_iterate_le (c : Config σ) (n : Nat) :
    ((next env)^[n] c).state.steps ≤ c.state.steps + n := by
  induction n with
  | zero => exact Nat.le_refl _
  | succ n ih =>
    rw [iterate_succ_apply']
    exact Nat.le_trans (steps_next_le env _) (Nat.add_le_add_right ih 1)

end

end Config

/-! ## Machines that do the same -/

/-- A jump that is taken changes the state only in that it may be recorded. -/
theorem jump_eq (env : Env σ) (function : UInt32) (start next : Nat) (cond : Condition) (distance : Nat)
    (s : State σ) : jump env function start next cond distance s =
      if s.flags.holds cond then
        (.ok (.skip distance), { s with
          jumps := if env.settings.traceJumps then s.jumps.push ⟨function, start, next + distance⟩ else s.jumps })
      else advance s := by
  rw [jump]
  cases env.settings.traceJumps with
  | false | true => rfl

/-- A state as it looks with other records of jumps and another world. -/
def State.view (jumps : Array JumpRecord → Array JumpRecord) (world : σ → τ) (s : State σ) : State τ :=
  { regs := s.regs
    flags := s.flags
    stack := s.stack
    arrays := s.arrays
    globals := s.globals
    steps := s.steps
    jumps := jumps s.jumps
    world := world s.world }

/-- A machine mirrors another when it has the same limits, and records the jumps and serves the calls of native
functions that it sees as the other does. -/
structure Env.Mirrors (env : Env σ) (env' : Env τ) (jumps : Array JumpRecord → Array JumpRecord) (world : σ → τ) :
    Prop where
  image : env'.image = env.image
  maxCallDepth : env'.settings.maxCallDepth = env.settings.maxCallDepth
  maxSteps : env'.settings.maxSteps = env.settings.maxSteps
  records : ∀ records r, (if env'.settings.traceJumps then (jumps records).push r else jumps records) =
    jumps (if env.settings.traceJumps then records.push r else records)
  natives : ∀ index s, callNative env' index (s.view jumps world) =
    ((callNative env index s).1, (callNative env index s).2.view jumps world)

namespace Env.Mirrors

variable {env : Env σ} {env' : Env τ} {jumps : Array JumpRecord → Array JumpRecord} {world : σ → τ}

/-- A configuration as the machine that mirrors it has it. -/
def view (jumps : Array JumpRecord → Array JumpRecord) (world : σ → τ) : Config σ → Config τ
  | .running top below s => .running top below (s.view jumps world)
  | .ended out => .ended (out.1, out.2.view jumps world)

theorem enter_view (index : UInt32) (reserve stackArgs : Nat) (s : State σ) :
    enter index reserve stackArgs (s.view jumps world) =
      (enter index reserve stackArgs s).map fun entered => (entered.1, entered.2.view jumps world) := by
  rw [enter, enter, State.view]
  by_cases few : s.stack.size < stackArgs
  · rw [if_pos few, if_pos few]
    rfl
  · rw [if_neg few, if_neg few]
    rfl

theorem finish (opened : List OpenCall) (out : Outcome σ Value) :
    Config.finish opened (out.1, out.2.view jumps world) = view jumps world (Config.finish opened out) := by
  rcases out with ⟨fault | v, s⟩
  · induction opened generalizing s with
    | nil => rfl
    | cons top below ih => exact ih { s with stack := s.stack.shrink top.frame.base }
  · cases opened with
    | nil | cons _ _ => rfl

theorem close (top : OpenCall) (below : List OpenCall) (out : Outcome σ Value) :
    Config.close top below (out.1, out.2.view jumps world) = view jumps world (Config.close top below out) := by
  rw [Config.close, Config.close, ← finish]
  rcases out with ⟨fault | v, s⟩
  · rfl
  · rfl

section
variable (mirrors : env.Mirrors env' jumps world)
include mirrors

theorem start (index : UInt32) (opened : List OpenCall) (s : State σ) :
    Config.start env' index opened (s.view jumps world) = view jumps world (Config.start env index opened s) := by
  rw [Config.start, Config.start, mirrors.image, mirrors.maxCallDepth]
  cases env.image.functions[index.toNat]? with
  | none => exact finish opened (.error (.badFunction index), s)
  | some function =>
    cases function with
    | native library symbol =>
      rw [mirrors.natives]
      exact finish opened (callNative env index s)
    | bytecode reserve stackArgs code =>
      dsimp only
      split
      · exact finish opened (.error (.callDepthExceeded env.settings.maxCallDepth), s)
      · rw [enter_view]
        cases enter index reserve stackArgs s with
        | none => exact finish opened (.error (.stackUnderflow index 0), s)
        | some entered => rfl

theorem step (frame : Frame) (offset next : Nat) (i : Instruction) (s : State σ) :
    Machine.step env' frame offset next i (s.view jumps world) =
      ((Machine.step env frame offset next i s).1, (Machine.step env frame offset next i s).2.view jumps world) := by
  cases i with
  | jump8 cond distance | jump16 cond distance =>
    rw [Machine.step, Machine.step, jump_eq, jump_eq]
    change (if s.flags.holds cond then _ else _) = _
    by_cases holds : s.flags.holds cond = true
    · rw [if_pos holds, if_pos holds]
      simp only [State.view, mirrors.records]
    · rw [if_neg holds, if_neg holds]
      rfl
  | ldstr dst index =>
    simp only [Machine.step, mirrors.image]
    split
    · rfl
    · rfl
  | pop reg =>
    simp only [Machine.step]
    by_cases low : s.stack.size ≤ frame.localsEnd
    · rw [if_pos low]
      exact if_pos low
    · rw [if_neg low]
      exact if_neg low
  | localSet reg slot =>
    simp only [Machine.step]
    by_cases inside : frame.base + slot.toNat < s.stack.size
    · rw [if_pos inside]
      exact if_pos inside
    · rw [if_neg inside]
      exact if_neg inside
  | globalSet reg index =>
    simp only [Machine.step]
    by_cases inside : index.toNat < s.globals.size
    · rw [if_pos inside]
      exact if_pos inside
    · rw [if_neg inside]
      exact if_neg inside
  | _ =>
    simp only [Machine.step, advance, onArrays, State.view, State.reg]
    repeat' split
    all_goals rfl

theorem next (c : Config σ) :
    Config.next env' (view jumps world c) = view jumps world (Config.next env c) := by
  cases c with
  | ended out => rfl
  | running top below s =>
    rw [view, Config.next, Config.next, mirrors.maxSteps]
    by_cases past : top.code.length ≤ top.offset
    · rw [if_pos past, if_pos past]
      exact close top below (.error (.fellOffEnd top.frame.function), s)
    rw [if_neg past, if_neg past]
    by_cases exceeded : env.settings.maxSteps.any (· < s.tick.steps) = true
    · rw [if_pos exceeded]
      refine (if_pos exceeded).trans ?_
      exact close top below (.error (.stepLimitExceeded (env.settings.maxSteps.getD 0)), s.tick)
    rw [if_neg exceeded]
    refine (if_neg exceeded).trans ?_
    rw [execute, execute]
    cases Instruction.decodeAt top.code top.offset with
    | error e => exact close top below (.error (.invalidInstruction top.frame.function e), s.tick)
    | ok found =>
      dsimp only
      have same := mirrors.step top.frame top.offset (top.offset + found.1.length) found.1 s.tick
      refine (congrArg _ same).trans ?_
      generalize Machine.step env top.frame top.offset (top.offset + found.1.length) found.1 s.tick = out
      rcases out with ⟨fault | effect, s'⟩
      · exact close top below (.error fault, s')
      · cases effect with
        | next | skip _ => rfl
        | call function => exact mirrors.start function _ s'
        | ret v => exact close top below (.ok v, s')

theorem call (index : UInt32) (s : State σ) :
    Machine.call env' env'.settings.maxCallDepth index (s.view jumps world) =
      ((Machine.call env env.settings.maxCallDepth index s).1,
        (Machine.call env env.settings.maxCallDepth index s).2.view jumps world) := by
  obtain ⟨n, ended⟩ := iterate_next_eq_ended env index s
  apply call_eq_of_iterate_next
  have follows : Function.Semiconj (view jumps world) (Config.next env) (Config.next env') :=
    fun c => (mirrors.next c).symm
  rw [mirrors.start, ← follows.iterate_right n, ended]
  rfl

end

end Env.Mirrors

end RegisterLang.Machine
