import RegisterLang.Proofs.Decoding
import RegisterLang.Proofs.Endings

/-! # Every run ends

`Executes` describes the loop of the machine as it stands, without anything that bounds it: a frame goes on
from instruction to instruction until one of them ends it, and a call goes on in a frame of its own. Main
statement: `call_ends`, every call of any function of any image ends, in the way that `call` computes; the
instruction pointer of each of its frames only grows, and the length of the code and the depth of calls bound
how many instructions it executes.
-/

namespace RegisterLang

open Instruction List

variable {offset : Nat} {i : Instruction} {code : List UInt8}

theorem Instruction.drop_of_decode {rest : List UInt8} (decoded : decode offset code = .ok (i, rest)) :
    rest = code.drop i.length := by
  have reads := reads_decode offset code
  rw [decoded] at reads
  cases reads with
  | @instruction _ operands _ readFrom =>
    have pos := i.length_pos
    have length := readFrom.length
    have size : i.length = operands.length + 1 := by
      rw [length]
      exact (Nat.sub_add_cancel pos).symm
    rw [size, drop_succ_cons, drop_left]

theorem Instruction.length_of_decodeAt {length : Nat} (decoded : decodeAt code offset = .ok (i, length)) :
    length = i.length := by
  rw [decodeAt] at decoded
  cases found : decode offset (code.drop offset) with
  | error e =>
    rw [found] at decoded
    cases decoded
  | ok pair =>
    rw [found] at decoded
    cases decoded
    rfl

namespace Machine

open Instruction

variable {σ : Type}

/-! ## The loop of the machine -/

/-- An instruction that is about to be executed. -/
structure Moment (σ : Type) where
  frame : Frame
  offset : Nat
  instruction : Instruction
  state : State σ

/-- What the machine has to do while so many frames are open: call a function, or run the code of the frame
that was opened last from an offset on. -/
inductive Task where
  | call (depth : Nat) (index : UInt32)
  | run (depth : Nat) (frame : Frame) (code : List UInt8) (offset : Nat)

variable {env : Env σ} {s : State σ} {out : Outcome σ Value} {frames : List (List (Moment σ))} {task : Task}
  {frame : Frame}

/-- The machine finds an instruction, and the step limit lets it be executed. -/
structure Fetches (env : Env σ) (code : List UInt8) (offset : Nat) (s : State σ) (i : Instruction) :
    Prop where
  allowed : env.settings.maxSteps.any (· < s.tick.steps) = false
  decoded : decodeAt code offset = .ok (i, i.length)

/-- What the machine does for a task, up to its end. Each frame is listed with the instructions that were
executed in it, one that was opened before another comes first; for code that runs, the first frame is
the one that it runs in. -/
inductive Executes (env : Env σ) : Task → State σ → List (List (Moment σ)) → Outcome σ Value → Prop where
  | fellOff {depth : Nat} {frame : Frame} {code : List UInt8} {offset : Nat} {s : State σ}
      (past : code.length ≤ offset) :
      Executes env (.run depth frame code offset) s [[]] (.error (.fellOffEnd frame.function), s)
  | limited {depth : Nat} {frame : Frame} {code : List UInt8} {offset : Nat} {s : State σ}
      (inside : offset < code.length)
      (exceeded : env.settings.maxSteps.any (· < s.tick.steps) = true) :
      Executes env (.run depth frame code offset) s [[]]
        (.error (.stepLimitExceeded (env.settings.maxSteps.getD 0)), s.tick)
  | invalid {depth : Nat} {frame : Frame} {code : List UInt8} {offset : Nat} {s : State σ}
      {e : DecodeError} (inside : offset < code.length)
      (allowed : env.settings.maxSteps.any (· < s.tick.steps) = false)
      (failed : decodeAt code offset = .error e) :
      Executes env (.run depth frame code offset) s [[]] (.error (.invalidInstruction frame.function e), s.tick)
  | fault {depth : Nat} {frame : Frame} {code : List UInt8} {offset : Nat} {s s' : State σ}
      {i : Instruction} {fault : Fault} (fetches : Fetches env code offset s i)
      (stepped : step env frame offset (offset + i.length) i s.tick = (.error fault, s')) :
      Executes env (.run depth frame code offset) s [[⟨frame, offset, i, s.tick⟩]] (.error fault, s')
  | ret {depth : Nat} {frame : Frame} {code : List UInt8} {offset : Nat} {s s' : State σ}
      {i : Instruction} {v : Value} (fetches : Fetches env code offset s i)
      (stepped : step env frame offset (offset + i.length) i s.tick = (.ok (.ret v), s')) :
      Executes env (.run depth frame code offset) s [[⟨frame, offset, i, s.tick⟩]] (.ok v, s')
  | next {depth : Nat} {frame : Frame} {code : List UInt8} {offset : Nat} {s s' : State σ}
      {i : Instruction} {moments : List (Moment σ)} {inner : List (List (Moment σ))}
      {out : Outcome σ Value} (fetches : Fetches env code offset s i)
      (stepped : step env frame offset (offset + i.length) i s.tick = (.ok .next, s'))
      (rest : Executes env (.run depth frame code (offset + i.length)) s' (moments :: inner) out) :
      Executes env (.run depth frame code offset) s ((⟨frame, offset, i, s.tick⟩ :: moments) :: inner) out
  | skip {depth : Nat} {frame : Frame} {code : List UInt8} {offset distance : Nat} {s s' : State σ}
      {i : Instruction} {moments : List (Moment σ)} {inner : List (List (Moment σ))}
      {out : Outcome σ Value} (fetches : Fetches env code offset s i)
      (stepped : step env frame offset (offset + i.length) i s.tick = (.ok (.skip distance), s'))
      (rest : Executes env (.run depth frame code (offset + i.length + distance)) s' (moments :: inner) out) :
      Executes env (.run depth frame code offset) s ((⟨frame, offset, i, s.tick⟩ :: moments) :: inner) out
  | callFails {depth : Nat} {frame : Frame} {code : List UInt8} {offset : Nat} {s s' s'' : State σ}
      {i : Instruction} {function : UInt32} {called : List (List (Moment σ))} {fault : Fault}
      (fetches : Fetches env code offset s i)
      (stepped : step env frame offset (offset + i.length) i s.tick = (.ok (.call function), s'))
      (call : Executes env (.call depth function) s' called (.error fault, s'')) :
      Executes env (.run depth frame code offset) s ([⟨frame, offset, i, s.tick⟩] :: called) (.error fault, s'')
  | callReturns {depth : Nat} {frame : Frame} {code : List UInt8} {offset : Nat} {s s' s'' : State σ}
      {i : Instruction} {function : UInt32} {called : List (List (Moment σ))} {v : Value}
      {moments : List (Moment σ)} {inner : List (List (Moment σ))} {out : Outcome σ Value}
      (fetches : Fetches env code offset s i)
      (stepped : step env frame offset (offset + i.length) i s.tick = (.ok (.call function), s'))
      (call : Executes env (.call depth function) s' called (.ok v, s''))
      (rest : Executes env (.run depth frame code (offset + i.length)) s'' (moments :: inner) out) :
      Executes env (.run depth frame code offset) s ((⟨frame, offset, i, s.tick⟩ :: moments) :: (called ++ inner)) out
  | missing {depth : Nat} {index : UInt32} {s : State σ}
      (absent : env.image.functions[index.toNat]? = none) :
      Executes env (.call depth index) s [] (.error (.badFunction index), s)
  | native {depth : Nat} {index : UInt32} {s : State σ} {library symbol : String}
      (found : env.image.functions[index.toNat]? = some (.native library symbol)) :
      Executes env (.call depth index) s [] (callNative env index s)
  | tooDeep {depth : Nat} {index : UInt32} {s : State σ} {reserve stackArgs : Nat} {code : List UInt8}
      (found : env.image.functions[index.toNat]? = some (.bytecode reserve stackArgs code))
      (deep : env.settings.maxCallDepth ≤ depth) :
      Executes env (.call depth index) s [] (.error (.callDepthExceeded env.settings.maxCallDepth), s)
  | underflow {depth : Nat} {index : UInt32} {s : State σ} {reserve stackArgs : Nat}
      {code : List UInt8}
      (found : env.image.functions[index.toNat]? = some (.bytecode reserve stackArgs code))
      (room : depth < env.settings.maxCallDepth) (failed : enter index reserve stackArgs s = none) :
      Executes env (.call depth index) s [] (.error (.stackUnderflow index 0), s)
  | body {depth : Nat} {index : UInt32} {s s' : State σ} {reserve stackArgs : Nat} {code : List UInt8}
      {frame : Frame} {frames : List (List (Moment σ))} {out : Outcome σ Value}
      (found : env.image.functions[index.toNat]? = some (.bytecode reserve stackArgs code))
      (room : depth < env.settings.maxCallDepth)
      (entered : enter index reserve stackArgs s = some (frame, s'))
      (ran : Executes env (.run (depth + 1) frame code 0) s' frames out) :
      Executes env (.call depth index) s frames (returned (leave frame out))

theorem Fetches.inside (fetches : Fetches env code offset s i) : offset < code.length := by
  by_contra past
  have decoded := fetches.decoded
  rw [decodeAt, drop_eq_nil_of_le (Nat.le_of_not_lt past)] at decoded
  cases decoded

/-! ## The loop and its bounded form -/

/-- Run code from an offset on, bounded by what is left of it. -/
def runAt (env : Env σ) (callee : UInt32 → State σ → Ending σ) (frame : Frame) (code : List UInt8)
    (offset : Nat) (s : State σ) : Ending σ :=
  runEnding env callee frame (code.drop offset) offset (code.drop offset) s

/-- How code goes on after an instruction that is followed by the one at `next`. -/
def resume (env : Env σ) (callee : UInt32 → State σ → Ending σ) (frame : Frame) (code : List UInt8)
    (i : Instruction) (next : Nat) : Outcome σ Effect → Ending σ
  | (.error fault, s) => ((.error fault, s), some i)
  | (.ok .next, s) => runAt env callee frame code next s
  | (.ok (.skip distance), s) => runAt env callee frame code (next + distance) s
  | (.ok (.call function), s) =>
    match callee function s with
    | ((.error fault, s), culprit) => ((.error fault, s), culprit)
    | ((.ok _, s), _) => runAt env callee frame code next s
  | (.ok (.ret v), s) => ((.ok v, s), none)

section Loop

variable {env : Env σ} {callee : UInt32 → State σ → Ending σ} {frame : Frame} {code : List UInt8}
  {offset : Nat} {s : State σ}

theorem runAt_of_past (past : code.length ≤ offset) :
    runAt env callee frame code offset s = ((.error (.fellOffEnd frame.function), s), none) := by
  rw [runAt, drop_eq_nil_of_le past]
  rfl

theorem runAt_of_limited (inside : offset < code.length)
    (exceeded : env.settings.maxSteps.any (· < s.tick.steps) = true) : runAt env callee frame code offset s =
      ((.error (.stepLimitExceeded (env.settings.maxSteps.getD 0)), s.tick), none) := by
  rw [runAt, drop_eq_getElem_cons inside]
  exact if_pos exceeded

theorem runAt_of_invalid {e : DecodeError} (inside : offset < code.length)
    (allowed : env.settings.maxSteps.any (· < s.tick.steps) = false)
    (failed : decodeAt code offset = .error e) : runAt env callee frame code offset s =
      ((.error (.invalidInstruction frame.function e), s.tick), none) := by
  rw [decodeAt, drop_eq_getElem_cons inside] at failed
  rw [runAt, drop_eq_getElem_cons inside]
  refine (if_neg (ne_true_of_eq_false allowed)).trans ?_
  cases decoded : decode offset (code[offset] :: code.drop (offset + 1)) with
  | error e' =>
    rw [decoded] at failed
    cases failed
    rfl
  | ok found =>
    rw [decoded] at failed
    cases failed

theorem runAt_of_fetches (fetches : Fetches env code offset s i) :
    runAt env callee frame code offset s = resume env callee frame code i (offset + i.length)
      (step env frame offset (offset + i.length) i s.tick) := by
  have inside := fetches.inside
  have allowed := fetches.allowed
  have found := fetches.decoded
  rw [decodeAt, drop_eq_getElem_cons inside] at found
  rw [runAt, drop_eq_getElem_cons inside]
  refine (if_neg (ne_true_of_eq_false allowed)).trans ?_
  cases decoded : decode offset (code[offset] :: code.drop (offset + 1)) with
  | error e =>
    rw [decoded] at found
    cases found
  | ok pair =>
    obtain ⟨i', rest⟩ := pair
    rw [decoded] at found
    cases found
    have left := drop_of_decode decoded
    have short := length_le_of_decode decoded
    rw [← drop_eq_getElem_cons inside, drop_drop] at left
    subst left
    -- What bounds the run may be longer than the code that is left.
    have bounded : ∀ (n next : Nat) (t : State σ),
        runEnding env callee frame (code.drop (offset + 1)) next ((code.drop (offset + i.length)).drop n) t =
        runEnding env callee frame (code.drop (offset + i.length + n)) next
          (code.drop (offset + i.length + n)) t := by
      intro n next t
      rw [drop_drop]
      exact runEnding_bound _ _ _ (by simp only [length_drop] at short ⊢; omega) (Nat.le_refl _)
        next t
    dsimp only
    generalize step env frame offset (offset + i.length) i s.tick = out
    obtain ⟨fault | effect, s'⟩ := out
    · rfl
    · cases effect with
      | next => exact bounded 0 _ s'
      | skip n => exact bounded n _ s'
      | call function =>
        simp only [resume]
        generalize callee function s' = called
        obtain ⟨⟨fault | v, t⟩, culprit⟩ := called
        · rfl
        · exact bounded 0 _ t
      | ret v => rfl

end Loop

/-- How a task ends. -/
def Task.ending (env : Env σ) : Task → State σ → Ending σ
  | .call depth index, s => callEnding env (env.settings.maxCallDepth - depth) index s
  | .run depth frame code offset, s =>
    runAt env (callEnding env (env.settings.maxCallDepth - depth)) frame code offset s

section Runs

variable {env : Env σ} {depth : Nat} {frame : Frame} {code : List UInt8} {offset : Nat}
  {s s' s'' : State σ} {i : Instruction} {function : UInt32} (fetches : Fetches env code offset s i)
include fetches

theorem ending_of_fetches {out : Outcome σ Effect}
    (stepped : step env frame offset (offset + i.length) i s.tick = out) :
    (Task.run depth frame code offset).ending env s =
      resume env (fun function => (Task.call depth function).ending env) frame code i (offset + i.length) out :=
  stepped ▸ runAt_of_fetches fetches

theorem ending_of_fails {fault : Fault}
    (stepped : step env frame offset (offset + i.length) i s.tick = (.ok (.call function), s'))
    (ended : ((Task.call depth function).ending env s').1 = (.error fault, s'')) :
    (Task.run depth frame code offset).ending env s = (Task.call depth function).ending env s' := by
  rw [ending_of_fetches fetches stepped]
  simp only [resume]
  generalize (Task.call depth function).ending env s' = called at ended
  obtain ⟨out, culprit⟩ := called
  cases ended
  rfl

theorem ending_of_returns {v : Value}
    (stepped : step env frame offset (offset + i.length) i s.tick = (.ok (.call function), s'))
    (ended : ((Task.call depth function).ending env s').1 = (.ok v, s'')) :
    (Task.run depth frame code offset).ending env s =
      (Task.run depth frame code (offset + i.length)).ending env s'' := by
  rw [ending_of_fetches fetches stepped]
  simp only [resume]
  generalize (Task.call depth function).ending env s' = called at ended
  obtain ⟨out, culprit⟩ := called
  cases ended
  rfl

end Runs

variable {s' : State σ}

section Calls

variable {env : Env σ} {depth : Nat} {index : UInt32} {s : State σ} {reserve stackArgs : Nat}
  {code : List UInt8}

theorem sub_of_room (room : depth < env.settings.maxCallDepth) :
    env.settings.maxCallDepth - depth = env.settings.maxCallDepth - (depth + 1) + 1 := by
  omega

theorem ending_of_underflow (found : env.image.functions[index.toNat]? = some (.bytecode reserve stackArgs code))
    (room : depth < env.settings.maxCallDepth) (failed : enter index reserve stackArgs s = none) :
    (Task.call depth index).ending env s = ((.error (.stackUnderflow index 0), s), none) := by
  rw [Task.ending, sub_of_room room, callEnding, found]
  simp only [failed]

theorem ending_of_enter
    (found : env.image.functions[index.toNat]? = some (.bytecode reserve stackArgs code))
    (room : depth < env.settings.maxCallDepth) (entered : enter index reserve stackArgs s = some (frame, s')) :
    (Task.call depth index).ending env s =
      (returned (leave frame ((Task.run (depth + 1) frame code 0).ending env s').1),
        ((Task.run (depth + 1) frame code 0).ending env s').2) := by
  rw [Task.ending, sub_of_room room, callEnding, found]
  simp only [entered]
  rfl

end Calls

theorem Executes.fst_ending (executes : Executes env task s frames out) : (task.ending env s).1 = out := by
  induction executes with
  | fellOff past => rw [Task.ending, runAt_of_past past]
  | limited inside exceeded => rw [Task.ending, runAt_of_limited inside exceeded]
  | invalid inside allowed failed => rw [Task.ending, runAt_of_invalid inside allowed failed]
  | fault fetches stepped | ret fetches stepped =>
    rw [ending_of_fetches fetches stepped]
    rfl
  | next fetches stepped rest ih | skip fetches stepped rest ih =>
    rw [ending_of_fetches fetches stepped]
    exact ih
  | callFails fetches stepped called ih =>
    rw [ending_of_fails fetches stepped ih]
    exact ih
  | callReturns fetches stepped called rest ih_call ih =>
    rw [ending_of_returns fetches stepped ih_call]
    exact ih
  | missing absent => rw [Task.ending, callEnding, absent]
  | native found => rw [Task.ending, callEnding, found]
  | tooDeep found deep => rw [Task.ending, Nat.sub_eq_zero_of_le deep, callEnding, found]
  | underflow found room failed => rw [ending_of_underflow found room failed]
  | body found room entered ran ih => rw [ending_of_enter found room entered, ← ih]

theorem Executes.culprit (executes : Executes env task s frames out) {m : Moment σ} (member : m ∈ frames.flatten)
    {fault : Fault} {t : State σ}
    (failed : step env m.frame m.offset (m.offset + m.instruction.length) m.instruction m.state = (.error fault, t)) :
    out.1 = .error fault ∧ (task.ending env s).2 = some m.instruction := by
  induction executes with
  | fellOff | limited | invalid | missing | native | tooDeep | underflow => cases member
  | fault fetches stepped =>
    cases mem_singleton.1 member
    cases stepped.symm.trans failed
    rw [ending_of_fetches fetches stepped]
    exact ⟨rfl, rfl⟩
  | ret fetches stepped =>
    cases mem_singleton.1 member
    cases stepped.symm.trans failed
  | next fetches stepped rest ih | skip fetches stepped rest ih =>
    rw [ending_of_fetches fetches stepped]
    rcases mem_cons.1 member with here | member
    · cases here
      cases stepped.symm.trans failed
    · exact ih member
  | callFails fetches stepped called ih =>
    rcases mem_cons.1 member with here | member
    · cases here
      cases stepped.symm.trans failed
    · rw [ending_of_fails fetches stepped called.fst_ending]
      exact ih member
  | callReturns fetches stepped called rest ih_call ih =>
    rw [ending_of_returns fetches stepped called.fst_ending]
    rw [flatten_cons, cons_append, mem_cons, flatten_append, mem_append,
      mem_append] at member
    rcases member with here | member | member | member
    · cases here
      cases stepped.symm.trans failed
    · exact ih (mem_append_left _ member)
    · obtain ⟨⟨⟩, -⟩ := ih_call member
    · exact ih (mem_append_right _ member)
  | @body _ _ _ _ _ _ _ frame _ out found room entered ran ih =>
    obtain ⟨fails, culprit⟩ := ih member
    rw [ending_of_enter found room entered]
    refine ⟨?_, culprit⟩
    rcases out with ⟨_ | v, s⟩
    · exact fails
    · cases fails

/-! ## Ends -/

variable {depth : Nat}

/-- Code ends when the calls in it do: whatever an instruction does, less code is left after it. -/
theorem exists_executes_run (calls : ∀ index s, ∃ frames out, Executes env (.call depth index) s frames out)
    (frame : Frame) (code : List UInt8) (offset : Nat) (s : State σ) :
    ∃ moments inner out, Executes env (.run depth frame code offset) s (moments :: inner) out := by
  induction left : code.length - offset using Nat.strong_induction_on generalizing offset s with
  | _ n ih =>
  by_cases inside : offset < code.length
  case neg => exact ⟨_, _, _, .fellOff (Nat.le_of_not_lt inside)⟩
  cases limit : env.settings.maxSteps.any (· < s.tick.steps) with
  | true => exact ⟨_, _, _, .limited inside limit⟩
  | false =>
  cases decoded : decodeAt code offset with
  | error e => exact ⟨_, _, _, .invalid inside limit decoded⟩
  | ok found =>
  obtain ⟨i, length⟩ := found
  have fetches : Fetches env code offset s i := ⟨limit, by rw [decoded, length_of_decodeAt decoded]⟩
  have pos := i.length_pos
  cases stepped : step env frame offset (offset + i.length) i s.tick with
  | mk result s' =>
  cases result with
  | error fault => exact ⟨_, _, _, .fault fetches stepped⟩
  | ok effect =>
  cases effect with
  | ret v => exact ⟨_, _, _, .ret fetches stepped⟩
  | next =>
    obtain ⟨moments, inner, out, rest⟩ := ih _ (by omega) (offset + i.length) s' rfl
    exact ⟨_, _, _, .next fetches stepped rest⟩
  | skip distance =>
    obtain ⟨moments, inner, out, rest⟩ := ih _ (by omega) (offset + i.length + distance) s' rfl
    exact ⟨_, _, _, .skip fetches stepped rest⟩
  | call function =>
    obtain ⟨called, ⟨result, s''⟩, call⟩ := calls function s'
    cases result with
    | error fault => exact ⟨_, _, _, .callFails fetches stepped call⟩
    | ok v =>
      obtain ⟨moments, inner, out, rest⟩ := ih _ (by omega) (offset + i.length) s'' rfl
      exact ⟨_, _, _, .callReturns fetches stepped call rest⟩

theorem exists_executes_call (env : Env σ) (depth : Nat) (index : UInt32) (s : State σ) :
    ∃ frames out, Executes env (.call depth index) s frames out := by
  induction left : env.settings.maxCallDepth - depth generalizing depth index s with
  | zero =>
    cases found : env.image.functions[index.toNat]? with
    | none => exact ⟨_, _, .missing found⟩
    | some function =>
      cases function with
      | native library symbol => exact ⟨_, _, .native found⟩
      | bytecode reserve stackArgs code => exact ⟨_, _, .tooDeep found (Nat.le_of_sub_eq_zero left)⟩
  | succ room ih =>
    cases found : env.image.functions[index.toNat]? with
    | none => exact ⟨_, _, .missing found⟩
    | some function =>
      cases function with
      | native library symbol => exact ⟨_, _, .native found⟩
      | bytecode reserve stackArgs code =>
        have more : depth < env.settings.maxCallDepth := by omega
        cases entered : enter index reserve stackArgs s with
        | none => exact ⟨_, _, .underflow found more entered⟩
        | some opened =>
          obtain ⟨frame, s'⟩ := opened
          have calls : ∀ index s, ∃ frames out,
              Executes env (.call (depth + 1) index) s frames out :=
            fun index s => ih (depth + 1) index s (by omega)
          obtain ⟨moments, inner, out, ran⟩ := exists_executes_run calls frame code 0 s'
          exact ⟨_, _, .body found more entered ran⟩

/-! ## Instruction pointers -/

/-- One instruction is executed before another in the same frame, and stands before it. -/
def Moment.Before (m m' : Moment σ) : Prop :=
  m.frame = m'.frame ∧ m.offset < m'.offset

/-- The first frame of a task that runs code holds what stands behind the place where it starts. -/
def Task.Leads : Task → List (List (Moment σ)) → Prop
  | .call _ _, _ => True
  | .run _ frame _ offset, frames => ∀ m ∈ frames.headD [], m.frame = frame ∧ offset ≤ m.offset

theorem Executes.leads (executes : Executes env task s frames out) : task.Leads frames := by
  induction executes with
  | fellOff | limited | invalid => exact fun m member => absurd member not_mem_nil
  | missing | native | tooDeep | underflow | body => trivial
  | fault fetches stepped | ret fetches stepped | callFails fetches stepped called ih =>
    intro m member
    cases mem_singleton.1 member
    exact ⟨rfl, Nat.le_refl _⟩
  | next fetches stepped rest ih | callReturns fetches stepped called rest ih_call ih =>
    intro m member
    rcases mem_cons.1 member with here | member
    · cases here
      exact ⟨rfl, Nat.le_refl _⟩
    · have later := ih m member
      exact ⟨later.1, by omega⟩
  | skip fetches stepped rest ih =>
    intro m member
    rcases mem_cons.1 member with here | member
    · cases here
      exact ⟨rfl, Nat.le_refl _⟩
    · have later := ih m member
      exact ⟨later.1, by omega⟩

/-- An instruction stands before those that are executed after it in the same frame. -/
theorem Executes.pairwise_cons {next : Nat} {moments : List (Moment σ)} {inner : List (List (Moment σ))}
    (rest : Executes env (.run depth frame code next) s (moments :: inner) out)
    (ordered : moments.Pairwise Moment.Before) (later : offset < next) (i : Instruction) (t : State σ) :
    List.Pairwise Moment.Before (⟨frame, offset, i, t⟩ :: moments) := by
  rw [List.pairwise_cons]
  refine ⟨fun m member => ?_, ordered⟩
  obtain ⟨same, behind⟩ := rest.leads m member
  exact ⟨same.symm, Nat.lt_of_lt_of_le later behind⟩

/-- The instructions of each frame are executed in the order in which they stand. -/
theorem Executes.pairwise_before (executes : Executes env task s frames out) :
    ∀ moments ∈ frames, moments.Pairwise Moment.Before := by
  induction executes with
  | fellOff | limited | invalid => simp
  | missing | native | tooDeep | underflow => simp
  | fault fetches stepped | ret fetches stepped => simp
  | @next _ _ _ _ _ _ i _ _ _ fetches stepped rest ih =>
    have pos := i.length_pos
    rw [forall_mem_cons] at ih ⊢
    exact ⟨rest.pairwise_cons ih.1 (by omega) _ _, ih.2⟩
  | @skip _ _ _ _ _ _ _ i _ _ _ fetches stepped rest ih =>
    have pos := i.length_pos
    rw [forall_mem_cons] at ih ⊢
    exact ⟨rest.pairwise_cons ih.1 (by omega) _ _, ih.2⟩
  | callFails fetches stepped called ih =>
    rw [forall_mem_cons]
    exact ⟨pairwise_singleton _ _, ih⟩
  | @callReturns _ _ _ _ _ _ _ i _ _ _ _ _ _ fetches stepped called rest ih_call ih =>
    have pos := i.length_pos
    rw [forall_mem_cons] at ih ⊢
    rw [forall_mem_append]
    exact ⟨rest.pairwise_cons ih.1 (by omega) _ _, ih_call, ih.2⟩
  | body found room entered ran ih => exact ih

/-! ## How many instructions are executed -/

/-- The most instructions that a call executes when no code is longer than `longest` and so many more frames
may be opened: each byte of code starts one instruction at most, which calls one function at most. -/
def instructionBound (longest : Nat) : Nat → Nat
  | 0 => 0
  | room + 1 => longest * (instructionBound longest room + 1)

/-- The most instructions that are executed for a task. -/
def Task.bound (longest maxDepth : Nat) : Task → Nat
  | .call depth _ => instructionBound longest (maxDepth - depth)
  | .run depth _ code offset =>
    (code.length - offset) * (instructionBound longest (maxDepth - depth) + 1)

theorem add_le_mul_of_lt {left rest each called more : Nat} (less : rest < left)
    (few : more ≤ rest * each) (call : called < each) : 1 + called + more ≤ left * each :=
  calc
    1 + called + more ≤ each + rest * each := by omega
    _ = (rest + 1) * each := by rw [Nat.add_mul, Nat.one_mul, Nat.add_comm]
    _ ≤ left * each := Nat.mul_le_mul_right each less

/-- Each instruction uses up some of the code of its frame, each call some of the depth. -/
theorem Executes.length_le (executes : Executes env task s frames out) {longest : Nat}
    (short : ∀ (index : Nat) reserve stackArgs code,
      env.image.functions[index]? = some (.bytecode reserve stackArgs code) → code.length ≤ longest) :
    frames.flatten.length ≤ task.bound longest env.settings.maxCallDepth := by
  induction executes with
  | fellOff | limited | invalid => exact Nat.zero_le _
  | missing | native | tooDeep | underflow => exact Nat.zero_le _
  | fault fetches stepped | ret fetches stepped =>
    have inside := fetches.inside
    exact Nat.mul_pos (by omega) (Nat.succ_pos _)
  | @next _ _ code offset _ _ i _ _ _ fetches stepped rest ih =>
    have inside := fetches.inside
    have pos := i.length_pos
    have less : code.length - (offset + i.length) < code.length - offset := by omega
    have total := add_le_mul_of_lt less ih (Nat.succ_pos _)
    simp only [flatten_cons, cons_append, length_cons, length_append] at total ⊢
    exact Nat.le_trans (by omega) total
  | @skip _ _ code offset distance _ _ i _ _ _ fetches stepped rest ih =>
    have inside := fetches.inside
    have pos := i.length_pos
    have less : code.length - (offset + i.length + distance) < code.length - offset := by omega
    have total := add_le_mul_of_lt less ih (Nat.succ_pos _)
    simp only [flatten_cons, cons_append, length_cons, length_append] at total ⊢
    exact Nat.le_trans (by omega) total
  | callFails fetches stepped called ih =>
    have inside := fetches.inside
    have total := add_le_mul_of_lt (Nat.sub_pos_of_lt inside) (Nat.zero_le _) (Nat.lt_succ_of_le ih)
    simp only [flatten_cons, cons_append, nil_append, length_cons]
    exact Nat.le_trans (by omega) total
  | @callReturns _ _ code offset _ _ _ i _ _ _ _ _ _ fetches stepped called rest ih_call ih =>
    have inside := fetches.inside
    have pos := i.length_pos
    have less : code.length - (offset + i.length) < code.length - offset := by omega
    have total := add_le_mul_of_lt less ih (Nat.lt_succ_of_le ih_call)
    simp only [flatten_cons, cons_append, length_cons, length_append,
      flatten_append] at total ⊢
    exact Nat.le_trans (by omega) total
  | @body _ _ _ _ _ _ code _ frames _ found room entered ran ih =>
    rw [Task.bound, sub_of_room room]
    exact Nat.le_trans ih (Nat.mul_le_mul_right _ (short _ _ _ _ found))

theorem steps_step (env : Env σ) (frame : Frame) (offset next : Nat) (i : Instruction) (s : State σ) :
    (step env frame offset next i s).2.steps = s.steps := by
  cases i <;> simp only [step, jump, advance, onArrays] <;> repeat' split
  all_goals rfl

theorem steps_of_step {next : Nat} {r : Except Fault Effect}
    (stepped : step env frame offset next i s.tick = (r, s')) : s'.steps = s.steps + 1 := by
  have same := steps_step env frame offset next i s.tick
  rwa [stepped] at same

theorem steps_returned (out : Outcome σ Value) : (returned out).2.steps = out.2.steps := by
  rcases out with ⟨fault | v, s⟩ <;> rfl

theorem steps_callNative (env : Env σ) (index : UInt32) (s : State σ) :
    (callNative env index s).2.steps = s.steps := by
  rw [callNative]
  split
  · rfl
  · exact steps_returned _

variable {index : UInt32}

theorem steps_enter {reserve stackArgs : Nat}
    (entered : enter index reserve stackArgs s = some (frame, s')) : s'.steps = s.steps := by
  rw [enter] at entered
  split at entered
  · cases entered
  · cases entered
    rfl

/-- The machine counts the instructions that it executes. It also counts one that the step limit cut off
or that could not be read, which ends the run. -/
theorem Executes.steps (executes : Executes env task s frames out) : out.2.steps = s.steps + frames.flatten.length ∨
      out.2.steps = s.steps + frames.flatten.length + 1 ∧ ∃ fault, out.1 = .error fault := by
  induction executes with
  | fellOff => exact .inl rfl
  | limited | invalid => exact .inr ⟨rfl, _, rfl⟩
  | missing | tooDeep | underflow => exact .inl rfl
  | native found => exact .inl (steps_callNative _ _ _)
  | fault fetches stepped | ret fetches stepped => exact .inl (steps_of_step stepped)
  | next fetches stepped rest ih | skip fetches stepped rest ih =>
    have first := steps_of_step stepped
    simp only [flatten_cons, cons_append, length_cons, length_append] at ih ⊢
    rcases ih with ih | ⟨ih, failed⟩
    · exact .inl (by omega)
    · exact .inr ⟨by omega, failed⟩
  | callFails fetches stepped called ih =>
    have first := steps_of_step stepped
    simp only [flatten_cons, cons_append, nil_append, length_cons] at ih ⊢
    rcases ih with ih | ⟨ih, failed⟩
    · exact .inl (by omega)
    · exact .inr ⟨by omega, failed⟩
  | callReturns fetches stepped called rest ih_call ih =>
    have first := steps_of_step stepped
    simp only [flatten_cons, cons_append, length_cons, length_append,
      flatten_append] at ih_call ih ⊢
    rcases ih_call with ih_call | ⟨-, fault, failed⟩
    · rcases ih with ih | ⟨ih, failed⟩
      · exact .inl (by omega)
      · exact .inr ⟨by omega, failed⟩
    · cases failed
  | @body _ _ _ _ _ _ _ frame _ out found room entered ran ih =>
    have first := steps_enter entered
    have last : (returned (leave frame out)).2.steps = out.2.steps := steps_returned _
    rcases ih with ih | ⟨ih, fault, failed⟩
    · exact .inl (by omega)
    · refine .inr ⟨by omega, fault, ?_⟩
      rcases out with ⟨_ | v, s⟩
      · exact failed
      · cases failed

theorem Executes.eq_call (executes : Executes env (.call depth index) s frames out) :
    out = call env (env.settings.maxCallDepth - depth) index s := by
  rw [← fst_callEnding]
  exact executes.fst_ending.symm

/-- Every call of a function ends, whatever the image and the arguments are and whether or not steps are
limited. It ends as `call` says. In each frame that it opens, the instructions are executed in the order in
which they stand, and the code and the depth that is left bound how many there are. -/
theorem call_ends (env : Env σ) (depth : Nat) (index : UInt32) (s : State σ) :
    (∃ frames out, Executes env (.call depth index) s frames out) ∧
    ∀ frames out, Executes env (.call depth index) s frames out →
      out = call env (env.settings.maxCallDepth - depth) index s ∧
      (∀ moments ∈ frames, moments.Pairwise Moment.Before) ∧ (out.2.steps = s.steps + frames.flatten.length ∨
        out.2.steps = s.steps + frames.flatten.length + 1 ∧ ∃ fault, out.1 = .error fault) ∧ ∀ longest,
        (∀ (i : Nat) reserve stackArgs code,
          env.image.functions[i]? = some (.bytecode reserve stackArgs code) → code.length ≤ longest) →
        frames.flatten.length ≤ instructionBound longest (env.settings.maxCallDepth - depth) := by
  refine ⟨exists_executes_call env depth index s, fun frames out executes => ?_⟩
  exact ⟨executes.eq_call, executes.pairwise_before, executes.steps,
    fun longest short => executes.length_le short⟩

/-- A machine without a step limit whose only function calls itself, and does so again when the call has
returned. -/
def recursing : Env Unit where
  image := { (default : Image) with
    functions := #[.bytecode 0 0 ([.call8 0, .call8 0, .ret].flatMap encode)] }
  natives := #[]
  settings := { maxCallDepth := 3, maxSteps := none }

theorem call_ends_recursing : ∃ frames, Executes recursing (.call 0 0) (.initial #[] ()) frames
        (call recursing 3 0 (.initial #[] ())) ∧
      (call recursing 3 0 (.initial #[] ())).1 = .error (.callDepthExceeded 3) ∧
      (∀ moments ∈ frames, moments.Pairwise Moment.Before) ∧ frames.flatten.length ≤ 155 := by
  obtain ⟨⟨frames, out, executes⟩, all⟩ := call_ends recursing 0 0 (.initial #[] ())
  obtain ⟨same, ordered, -, bounded⟩ := all frames out executes
  refine ⟨frames, same ▸ executes, by decide +kernel, ordered, bounded 5 ?_⟩
  intro i reserve stackArgs code found
  rcases i with _ | i
  · cases found
    decide
  · cases found

end Machine

end RegisterLang
