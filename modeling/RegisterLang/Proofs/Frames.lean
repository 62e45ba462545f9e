import RegisterLang.Proofs.Termination

/-! # Frames on the stack

All frames lie on one stack, and a call takes its arguments from the top of it, whoever pushed them. Main statement:
`call_isolated`, a call that finds its arguments above the locals of the frame that it stands in gives this frame back
as it was, if the calls that are made in it find theirs as well; and a call that does not find them takes locals of the
frame away.
-/

namespace RegisterLang

open List

/-- How many arguments a function takes from the stack. -/
def ImageFunction.stackArgs : ImageFunction → Nat
  | .bytecode _ stackArgs _ => stackArgs
  | .native _ _ => 0

/-- The function that an instruction calls. -/
def Instruction.callee? : Instruction → Option UInt32
  | .call function => some function
  | .call8 function => some function.toUInt32
  | _ => none

namespace Machine

variable {σ : Type} {env : Env σ} {s s1 s' : State σ} {frame : Frame} {index : UInt32} {offset : Nat}

/-- If this is a call, its arguments were pushed in the frame that it stands in. -/
def Moment.Supplied (env : Env σ) (m : Moment σ) : Prop :=
  ∀ index ∈ m.instruction.callee?, ∀ function ∈ env.image.functions[index.toNat]?,
    m.frame.localsEnd + function.stackArgs ≤ m.state.stack.size

theorem Moment.Supplied.of_callee? {m : Moment σ} (none : m.instruction.callee? = none) : m.Supplied env := by
  intro index called
  rw [none] at called
  cases called

/-- The locals of the frame are on the stack. -/
def Moment.Whole (m : Moment σ) : Prop :=
  m.frame.localsEnd ≤ m.state.stack.size

/-! ## Within a frame -/

/-- Between two states of a run, the locals of a frame stay on the stack, and nothing changes below the frame. -/
structure KeepsBelow (frame : Frame) (s s' : State σ) : Prop where
  whole : frame.localsEnd ≤ s'.stack.size
  below : ∀ cell < frame.base, s'.stack[cell]? = s.stack[cell]?

theorem KeepsBelow.of_eq (whole : frame.localsEnd ≤ s.stack.size) (same : s'.stack = s.stack) :
    KeepsBelow frame s s' where
  whole := same ▸ whole
  below := fun _ _ => same ▸ rfl

theorem KeepsBelow.of_tick (keeps : KeepsBelow frame s.tick s') : KeepsBelow frame s s' :=
  ⟨keeps.whole, keeps.below⟩

theorem KeepsBelow.trans (first : KeepsBelow frame s s1) (second : KeepsBelow frame s1 s') : KeepsBelow frame s s' where
  whole := second.whole
  below := fun cell lower => (second.below cell lower).trans (first.below cell lower)

variable {i : Instruction} {reserve stackArgs : Nat}

/-- An instruction moves the stack only above the locals, and writes only into its frame. -/
theorem KeepsBelow.step {next : Nat} {effect : Effect} (base : frame.base ≤ frame.localsEnd)
    (whole : frame.localsEnd ≤ s.stack.size) (stepped : step env frame offset next i s.tick = (.ok effect, s')) :
    KeepsBelow frame s s' := by
  cases i with
  | push reg =>
    cases stepped
    constructor
    · change _ ≤ (s.stack.push _).size
      rw [Array.size_push]
      omega
    · intro cell lower
      change (s.stack.push _)[cell]? = _
      rw [Array.getElem?_push, if_neg (by omega)]
  | pop reg =>
    rw [Machine.step] at stepped
    split at stepped
    · cases stepped
    · next high =>
      cases stepped
      change ¬ s.stack.size ≤ frame.localsEnd at high
      constructor
      · change _ ≤ s.stack.pop.size
        rw [Array.size_pop]
        omega
      · intro cell lower
        change s.stack.pop[cell]? = _
        rw [Array.getElem?_pop, if_pos (by omega)]
  | localSet reg slot =>
    simp only [Machine.step] at stepped
    split at stepped
    · cases stepped
      constructor
      · change _ ≤ (s.stack.setIfInBounds _ _).size
        rw [Array.size_setIfInBounds]
        exact whole
      · intro cell lower
        change (s.stack.setIfInBounds _ _)[cell]? = _
        rw [Array.getElem?_setIfInBounds, if_neg (by omega)]
    · cases stepped
  | _ =>
    apply KeepsBelow.of_eq whole
    rw [← congrArg (fun out => out.2.stack) stepped]
    simp only [Machine.step, jump, advance, onArrays]
    repeat' split
    all_goals rfl

theorem callee_of_step {next : Nat} {function : UInt32}
    (stepped : step env frame offset next i s = (.ok (.call function), s')) : i.callee? = some function ∧ s' = s := by
  cases i with
  | call _ | call8 _ =>
    cases stepped
    exact ⟨rfl, rfl⟩
  | _ =>
    simp only [step, jump, advance, onArrays] at stepped
    repeat' split at stepped
    all_goals cases stepped

/-! ## From frame to frame -/

theorem getElem?_shrink (stack : Array Value) (height cell : Nat) :
    (stack.shrink height)[cell]? = if cell < height then stack[cell]? else none := by
  rw [Array.shrink_eq_take, Array.getElem?_extract, Nat.zero_add, Nat.sub_zero]
  by_cases inside : cell < stack.size
  · simp only [Nat.lt_min, inside, and_true]
  · rw [Array.getElem?_eq_none (Nat.le_of_not_lt inside), ite_self, ite_self]

/-- A call leaves the stack without its arguments. -/
def Consumes (env : Env σ) (index : UInt32) (s s' : State σ) : Prop :=
  ∃ function, env.image.functions[index.toNat]? = some function ∧ function.stackArgs ≤ s.stack.size ∧
    s'.stack = s.stack.shrink (s.stack.size - function.stackArgs)

theorem Consumes.keeps (consumes : Consumes env index s s') (base : frame.base ≤ frame.localsEnd)
    (calls : i.callee? = some index) (supplied : Moment.Supplied env ⟨frame, offset, i, s⟩) :
    KeepsBelow frame s s' := by
  obtain ⟨function, found, -, stack⟩ := consumes
  have above : frame.localsEnd + function.stackArgs ≤ s.stack.size := supplied index calls function found
  constructor
  · rw [stack, Array.size_shrink]
    omega
  · intro cell lower
    rw [stack, getElem?_shrink, if_pos (by omega)]

theorem stack_returned (out : Outcome σ Value) : (returned out).2.stack = out.2.stack := by
  rcases out with ⟨fault | v, s⟩
  · rfl
  · rfl

theorem stack_callNative (env : Env σ) (index : UInt32) (s : State σ) : (callNative env index s).2.stack = s.stack := by
  rw [callNative]
  split
  · rfl
  · exact stack_returned _

theorem consumes_native {library symbol : String}
    (found : env.image.functions[index.toNat]? = some (.native library symbol)) :
    Consumes env index s (callNative env index s).2 := by
  refine ⟨_, found, Nat.zero_le _, ?_⟩
  rw [stack_callNative, ImageFunction.stackArgs, Nat.sub_zero]
  rw [Array.shrink_eq_take, Array.take_eq_extract, Array.extract_size]

theorem enter_eq_some (entered : enter index reserve stackArgs s = some (frame, s')) :
    stackArgs ≤ s.stack.size ∧ frame.base = s.stack.size - stackArgs ∧
      frame.localsEnd = s.stack.size + reserve ∧ s'.stack = s.stack ++ Array.replicate reserve 0 := by
  rw [enter] at entered
  split at entered
  · cases entered
  · next enough =>
    cases entered
    exact ⟨Nat.le_of_not_lt enough, rfl, rfl, rfl⟩

variable {out : Outcome σ Value} {code : List UInt8}

theorem consumes_body
    (found : env.image.functions[index.toNat]? = some (.bytecode reserve stackArgs code))
    (entered : enter index reserve stackArgs s = some (frame, s1)) (keeps : KeepsBelow frame s1 out.2) :
    Consumes env index s (returned (leave frame out)).2 := by
  obtain ⟨enough, base, locals, stack⟩ := enter_eq_some entered
  refine ⟨_, found, enough, ?_⟩
  rw [stack_returned]
  change out.2.stack.shrink frame.base = _
  rw [ImageFunction.stackArgs, ← base]
  apply Array.ext_getElem?
  intro cell
  rw [getElem?_shrink, getElem?_shrink]
  by_cases lower : cell < frame.base
  · rw [if_pos lower, if_pos lower, keeps.below cell lower, stack, Array.getElem?_append_left (by omega)]
  · rw [if_neg lower, if_neg lower]

/-- What a task asks of the stack. -/
def Task.Ready (s : State σ) : Task → Prop
  | .call _ _ => True
  | .run _ frame _ _ => frame.base ≤ frame.localsEnd ∧ frame.localsEnd ≤ s.stack.size

theorem ready_of_enter {depth : Nat}
    (entered : enter index reserve stackArgs s = some (frame, s')) : Task.Ready s' (.run depth frame code offset) := by
  obtain ⟨-, base, locals, stack⟩ := enter_eq_some entered
  have size : s'.stack.size = s.stack.size + reserve := by
    rw [stack, Array.size_append, Array.size_replicate]
  exact ⟨by omega, by omega⟩

/-- What a task leaves of the stack. -/
def Task.Restores (env : Env σ) (s s' : State σ) : Task → Prop
  | .call _ index => Consumes env index s s'
  | .run _ frame _ _ => KeepsBelow frame s s'

/-- If every call is supplied, every frame is whole at each of its instructions, and each task that comes to its end
gives the stack back. -/
theorem Executes.restores {task : Task} {frames : List (List (Moment σ))}
    (executes : Executes env task s frames out) (ready : task.Ready s)
    (supplied : ∀ m ∈ frames.flatten, m.Supplied env) :
    (∀ m ∈ frames.flatten, m.Whole) ∧ ∀ v, out.1 = .ok v → task.Restores env s out.2 := by
  induction executes with
  | fellOff | limited | invalid | missing | tooDeep | underflow =>
    exact ⟨fun _ member => absurd member not_mem_nil, fun _ impossible => nomatch impossible⟩
  | native found => exact ⟨fun _ member => absurd member not_mem_nil, fun _ _ => consumes_native found⟩
  | fault fetches stepped =>
    exact ⟨forall_mem_singleton.2 ready.2, fun _ impossible => nomatch impossible⟩
  | ret fetches stepped => exact ⟨forall_mem_singleton.2 ready.2, fun _ _ => .step ready.1 ready.2 stepped⟩
  | next fetches stepped rest ih | skip fetches stepped rest ih =>
    have first := KeepsBelow.step ready.1 ready.2 stepped
    obtain ⟨here, later⟩ := forall_mem_cons.1 supplied
    obtain ⟨whole, restores⟩ := ih ⟨ready.1, first.whole⟩ later
    exact ⟨forall_mem_cons.2 ⟨ready.2, whole⟩, fun v ended => first.trans (restores v ended)⟩
  | callFails fetches stepped called ih =>
    obtain ⟨here, later⟩ := forall_mem_cons.1 supplied
    obtain ⟨whole, -⟩ := ih trivial later
    exact ⟨forall_mem_cons.2 ⟨ready.2, whole⟩, fun _ impossible => nomatch impossible⟩
  | callReturns fetches stepped called rest ih_call ih =>
    obtain ⟨calls, rfl⟩ := callee_of_step stepped
    rw [flatten_cons, cons_append, flatten_append] at supplied ⊢
    obtain ⟨here, later⟩ := forall_mem_cons.1 supplied
    rw [forall_mem_append, forall_mem_append] at later
    obtain ⟨wholeCalled, restoresCalled⟩ := ih_call trivial later.2.1
    have first := ((restoresCalled _ rfl).keeps ready.1 calls here).of_tick
    obtain ⟨whole, restores⟩ := ih ⟨ready.1, first.whole⟩ (forall_mem_append.2 ⟨later.1, later.2.2⟩)
    have whole := forall_mem_append.1 whole
    refine ⟨forall_mem_cons.2 ⟨ready.2, ?_⟩, fun v ended => first.trans (restores v ended)⟩
    exact forall_mem_append.2 ⟨whole.1, forall_mem_append.2 ⟨wholeCalled, whole.2⟩⟩
  | @body _ _ _ _ _ _ _ frame _ out found room entered ran ih =>
    obtain ⟨whole, restores⟩ := ih (ready_of_enter entered) supplied
    refine ⟨whole, fun v ended => ?_⟩
    rcases out with ⟨fault | w, t⟩
    · cases ended
    · exact consumes_body found entered (restores w rfl)

/-- A frame is as it was when its locals are on the stack and nothing up to their end has changed. -/
def Intact (frame : Frame) (s s' : State σ) : Prop :=
  frame.localsEnd ≤ s'.stack.size ∧ ∀ cell < frame.localsEnd, s'.stack[cell]? = s.stack[cell]?

/-- A call gives a frame back as it was just if it finds its arguments above the locals of the frame. -/
theorem Consumes.intact_iff (consumes : Consumes env index s s') {function : ImageFunction}
    (found : env.image.functions[index.toNat]? = some function) (caller : Frame) :
    Intact caller s s' ↔ caller.localsEnd + function.stackArgs ≤ s.stack.size := by
  obtain ⟨function', found', enough, stack⟩ := consumes
  cases found.symm.trans found'
  unfold Intact
  rw [stack, Array.size_shrink]
  constructor
  · intro intact
    omega
  · intro above
    refine ⟨by omega, fun cell lower => ?_⟩
    rw [getElem?_shrink, if_pos (by omega)]

/-- Every call ends. Suppose that each call that is made in it finds its arguments above the locals of the frame that
makes it. Then no frame of the call is ever without one of its locals. If the call returns, it leaves the stack without
its own arguments, and whichever frame it was made in is as it was just if that frame had pushed them. -/
theorem call_isolated (env : Env σ) (depth : Nat) (index : UInt32) (s : State σ) :
    (∃ frames out, Executes env (.call depth index) s frames out) ∧
    ∀ frames out, Executes env (.call depth index) s frames out →
      out = call env (env.settings.maxCallDepth - depth) index s ∧ ((∀ m ∈ frames.flatten, m.Supplied env) →
        (∀ m ∈ frames.flatten, m.Whole) ∧
        ∀ v s', out = (.ok v, s') → ∃ function, env.image.functions[index.toNat]? = some function ∧
          function.stackArgs ≤ s.stack.size ∧ s'.stack = s.stack.shrink (s.stack.size - function.stackArgs) ∧
          ∀ caller : Frame, Intact caller s s' ↔ caller.localsEnd + function.stackArgs ≤ s.stack.size) := by
  refine ⟨exists_executes_call env depth index s, fun frames out executes => ⟨?_, fun supplied => ?_⟩⟩
  · exact executes.eq_call
  · obtain ⟨whole, restores⟩ := executes.restores trivial supplied
    refine ⟨whole, fun v s' returns => ?_⟩
    subst returns
    have consumes : Consumes env index s s' := restores v rfl
    have ⟨function, found, enough, stack⟩ := consumes
    exact ⟨function, found, enough, stack, consumes.intact_iff found⟩

/-- A function with an argument and a local, which passes its argument on. -/
def relaying : Env Unit where
  image :=
    { fileType := .executable
      entry := 0
      functions := #[.bytecode 1 1 [82, 16, 0, 0, 80, 16, 97, 1, 98], .bytecode 0 1 [100, 0, 0]]
      globals := #[]
      strings := #[] }
  natives := #[none, none]
  settings := {}

/-- A frame with one local has pushed an argument. -/
def relayed : State Unit :=
  { State.initial #[] () with stack := #[7, 5] }

theorem call_isolated_relaying : ∃ frames s', Executes relaying (.call 0 0) relayed frames (.ok 5, s') ∧
      (∀ m ∈ frames.flatten, m.Supplied relaying) ∧ Intact ⟨0, 0, 1⟩ relayed s' := by
  have executes : ∃ frames s', Executes relaying (.call 0 0) relayed frames (.ok 5, s') ∧
      ∀ m ∈ frames.flatten, m.Supplied relaying := by
    refine ⟨_, _, .body rfl (by decide) rfl (.next ⟨rfl, rfl⟩ rfl (.next ⟨rfl, rfl⟩ rfl
      (.callReturns ⟨rfl, rfl⟩ rfl (.body rfl (by decide) rfl (.ret ⟨rfl, rfl⟩ rfl)) (.ret ⟨rfl, rfl⟩ rfl)))), ?_⟩
    refine List.forall_mem_cons.2 ⟨.of_callee? rfl, List.forall_mem_cons.2 ⟨.of_callee? rfl, List.forall_mem_cons.2 ⟨?_,
      List.forall_mem_cons.2 ⟨.of_callee? rfl, List.forall_mem_cons.2 ⟨.of_callee? rfl, List.forall_mem_nil _⟩⟩⟩⟩⟩
    intro index called function found
    cases called
    cases found
    decide
  obtain ⟨frames, s', executes, supplied⟩ := executes
  obtain ⟨function, found, -, -, intact⟩ :=
    (((call_isolated relaying 0 0 relayed).2 frames _ executes).2 supplied).2 _ s' rfl
  cases found
  exact ⟨frames, s', executes, supplied, (intact ⟨0, 0, 1⟩).2 (by decide)⟩

/-- A function that stores seven in its local, pushes nothing and calls a function with an argument. Then it pushes a
five and returns its local. -/
def borrowing : Env Unit where
  image :=
    { fileType := .executable
      entry := 0
      functions := #[
        .bytecode 1 0 [3, 16, 7, 83, 16, 0, 0, 97, 1, 3, 32, 5, 80, 32, 82, 0, 0, 0, 98],
        .bytecode 0 1 [99]]
      globals := #[]
      strings := #[] }
  natives := #[none, none]
  settings := {}

/-- A call can take a local of the frame that it stands in, and return. -/
theorem exists_call_not_intact : ∃ frames s', Executes borrowing (.call 0 0) (.initial #[] ()) frames (.ok 5, s') ∧
      ∃ m ∈ frames.flatten, m.instruction = .call8 1 ∧
        ∃ called, call borrowing 1023 1 m.state = (.ok 0, called) ∧ ¬ Intact m.frame m.state called := by
  refine ⟨_, _, .body rfl (by decide) rfl (.next ⟨rfl, rfl⟩ rfl (.next ⟨rfl, rfl⟩ rfl
    (.callReturns ⟨rfl, rfl⟩ rfl (.body rfl (by decide) rfl (.ret ⟨rfl, rfl⟩ rfl)) (.next ⟨rfl, rfl⟩ rfl
      (.next ⟨rfl, rfl⟩ rfl (.next ⟨rfl, rfl⟩ rfl (.ret ⟨rfl, rfl⟩ rfl))))))), ?_⟩
  refine ⟨_, .tail _ (.tail _ (.head _)), rfl, _, rfl, ?_⟩
  intro intact
  exact absurd intact.1 (by decide)

end Machine

end RegisterLang
