import RegisterLang.Machine.State

/-! # Running code

`step` executes one instruction, `run` a function body, `call` a function. Jumps only go forward, so the
code that is left bounds a run of a body, and the depth of calls that is left bounds the calls: every run
ends.
-/

namespace RegisterLang.Machine

variable {σ : Type}

inductive Effect where
  | next
  | skip (distance : Nat)
  | call (function : UInt32)
  | ret (value : Value)
  deriving DecidableEq, Repr, Inhabited

def advance (s : State σ) : Outcome σ Effect :=
  (.ok .next, s)

def jump (env : Env σ) (function : UInt32) (start next : Nat) (cond : Condition) (distance : Nat)
    (s : State σ) : Outcome σ Effect :=
  if s.flags.holds cond then
    let s :=
      if env.settings.traceJumps then
        { s with jumps := s.jumps.push ⟨function, start, next + distance⟩ }
      else s
    (.ok (.skip distance), s)
  else advance s

/-- Go on with what an operation on the arrays gives. -/
def onArrays {α : Type} (result : Except Fault α × ArrayHeap) (go : α → State σ → State σ) (s : State σ) :
    Outcome σ Effect :=
  match result with
  | (.ok a, arrays) => advance (go a { s with arrays })
  | (.error fault, arrays) => (.error fault, { s with arrays })

theorem arrays_onArrays {α : Type} {result : Except Fault α × ArrayHeap} {go : α → State σ → State σ}
    (still : ∀ a s, (go a s).arrays = s.arrays) (s : State σ) : (onArrays result go s).2.arrays = result.2 := by
  rcases result with ⟨fault | a, arrays⟩
  · rfl
  · exact still a { s with arrays }

theorem onArrays_eq_error {α : Type} {result : Except Fault α × ArrayHeap} {go : α → State σ → State σ} {s : State σ}
    {fault : Fault} : (onArrays result go s).1 = .error fault ↔ result.1 = .error fault := by
  rcases result with ⟨fault' | a, arrays⟩ <;> simp [onArrays, advance]

/-- Execute one instruction, which stands at `offset` and is followed by the one at `next`. -/
def step (env : Env σ) (frame : Frame) (offset next : Nat) (i : Instruction) (s : State σ) :
    Outcome σ Effect :=
  let load (dst : UInt8) (v : Value) : Outcome σ Effect := advance (s.setReg dst v)
  let fault (f : Fault) : Outcome σ Effect := (.error f, s)
  match i with
  | .nop => advance s
  | .mov dst src => load dst (s.reg src)
  | .ldi4 dst value | .ldi8 dst value => load dst value.toUInt64
  | .ldi16 dst value => load dst value.toUInt64
  | .ldi32 dst value => load dst value.toUInt64
  | .ldi64 dst value | .ldf dst value => load dst value
  | .ldstr dst index =>
    if index.toNat < env.image.strings.size then load dst (env.image.address index.toNat)
    else fault (.badString frame.function offset index)
  | .arith op kind dst a b =>
    match Value.arith? op kind (s.reg a) (s.reg b) with
    | some v => load dst v
    | none => fault (.divisionByZero frame.function offset)
  | .arithImm8 op dst src imm => load dst (Value.arithImm op (s.reg src) imm.toUInt64)
  | .arithImm16 op dst src imm => load dst (Value.arithImm op (s.reg src) imm.toUInt64)
  | .inc reg => load reg (s.reg reg + 1)
  | .dec reg => load reg (s.reg reg - 1)
  | .neg dst src => load dst (-(s.reg src))
  | .fneg dst src => load dst (Binary64.negate (s.reg src))
  | .compare kind a b => advance { s with flags := .compare kind (s.reg a) (s.reg b) }
  | .testz reg => advance { s with flags := .compare .signed (s.reg reg) 0 }
  | .jump8 cond distance => jump env frame.function offset next cond distance.toNat s
  | .jump16 cond distance => jump env frame.function offset next cond distance.toNat s
  | .push reg =>
    let v := s.reg reg
    advance { s with stack := s.stack.push v }
  | .pop reg =>
    if s.stack.size ≤ frame.localsEnd then fault (.stackUnderflow frame.function offset)
    else
      let v := s.stack.back?.getD 0
      advance ({ s with stack := s.stack.pop }.setReg reg v)
  | .localGet reg slot =>
    match s.stack[frame.base + slot.toNat]? with
    | some v => load reg v
    | none => fault (.badSlot frame.function offset slot)
  | .localSet reg slot =>
    let cell := frame.base + slot.toNat
    if cell < s.stack.size then
      let v := s.reg reg
      advance { s with stack := s.stack.setIfInBounds cell v }
    else fault (.badSlot frame.function offset slot)
  | .globalGet reg index =>
    match s.globals[index.toNat]? with
    | some v => load reg v
    | none => fault (.badGlobal frame.function offset index)
  | .globalSet reg index =>
    if index.toNat < s.globals.size then
      let v := s.reg reg
      advance { s with globals := s.globals.setIfInBounds index.toNat v }
    else fault (.badGlobal frame.function offset index)
  | .call func => (.ok (.call func), s)
  | .call8 func => (.ok (.call func.toUInt32), s)
  | .ret => (.ok (.ret (s.reg returnReg)), s)
  | .retVoid => (.ok (.ret 0), s)
  | .retLocal slot =>
    match s.stack[frame.base + slot.toNat]? with
    | some v => (.ok (.ret v), s)
    | none => fault (.badSlot frame.function offset slot)
  | .retGlobal index =>
    match s.globals[index.toNat]? with
    | some v => (.ok (.ret v), s)
    | none => fault (.badGlobal frame.function offset index)
  | .arrayNew dst len =>
    s |> onArrays (s.arrays.create (s.reg len)) fun handle s => s.setReg dst (Value.ofHandle handle)
  | .arrayGet dst array index =>
    s |> onArrays (s.arrays.get (s.reg array).handle (s.reg index)) fun v s => s.setReg dst v
  | .arraySet array index value =>
    s |> onArrays (s.arrays.set (s.reg array).handle (s.reg index) (s.reg value)) fun _ => id
  | .arrayDestroy reg => s |> onArrays (s.arrays.destroy (s.reg reg).handle) fun _ => id

/-- Run the code of a body that stands at `offset`, calling functions by `callee`. The first list bounds
the number of instructions. -/
def run (env : Env σ) (callee : UInt32 → State σ → Outcome σ Value) (frame : Frame) :
    List UInt8 → Nat → List UInt8 → State σ → Outcome σ Value
  | _ :: bound, offset, code@(_ :: _), s =>
    let s := { s with steps := s.steps + 1 }
    if env.settings.maxSteps.any (· < s.steps) then
      (.error (.stepLimitExceeded (env.settings.maxSteps.getD 0)), s)
    else
      match Instruction.decode offset code with
      | .error e => (.error (.invalidInstruction frame.function e), s)
      | .ok (i, rest) =>
        let next := offset + i.length
        match step env frame offset next i s with
        | (.error fault, s) => (.error fault, s)
        | (.ok .next, s) => run env callee frame bound next rest s
        | (.ok (.skip n), s) => run env callee frame bound (next + n) (rest.drop n) s
        | (.ok (.call function), s) =>
          match callee function s with
          | (.error fault, s) => (.error fault, s)
          | (.ok _, s) => run env callee frame bound next rest s
        | (.ok (.ret v), s) => (.ok v, s)
  | _, _, _, s => (.error (.fellOffEnd frame.function), s)

def returned (result : Outcome σ Value) : Outcome σ Value :=
  match result with
  | (.ok v, s) => (.ok v, s.setReg returnReg v)
  | (.error fault, s) => (.error fault, s)

def callNative (env : Env σ) (index : UInt32) (s : State σ) : Outcome σ Value :=
  match env.natives[index.toNat]?.join with
  | none => (.error (.badFunction index), s)
  | some f =>
    let (v, world) := f env.image s.nativeArgs s.world
    returned (.ok v, { s with world })

/-- Open a frame for a function: its arguments are on the stack, and its locals start as zeros. -/
def enter (index : UInt32) (localReserve stackArgs : Nat) (s : State σ) :
    Option (Frame × State σ) :=
  if s.stack.size < stackArgs then none
  else
    let stack := s.stack ++ Array.replicate localReserve (0 : Value)
    some (⟨index, s.stack.size - stackArgs, s.stack.size + localReserve⟩, { s with stack })

/-- Close a frame: its arguments and locals leave the stack. -/
def leave (frame : Frame) (result : Outcome σ Value) : Outcome σ Value :=
  (result.1, { result.2 with stack := result.2.stack.shrink frame.base })

/-- Call a function, with `room` more frames to open at most. -/
def call (env : Env σ) : Nat → UInt32 → State σ → Outcome σ Value
  | room, index, s =>
    match env.image.functions[index.toNat]? with
    | none => (.error (.badFunction index), s)
    | some (.native _ _) => callNative env index s
    | some (.bytecode localReserve stackArgs code) =>
      match room with
      | 0 => (.error (.callDepthExceeded env.settings.maxCallDepth), s)
      | room + 1 =>
        match enter index localReserve stackArgs s with
        | none => (.error (.stackUnderflow index 0), s)
        | some (frame, s) => returned (leave frame (run env (call env room) frame code 0 code s))

end RegisterLang.Machine
