import RegisterLang.Machine.Run
import RegisterLang.Proofs.Heap

/-! # How runs end

Beside its outcome, a run that fails in an instruction is told by that instruction. Main statements:
`fst_callEnding`, the outcome is the one that `call` gives, and `consistent_step`, no instruction spoils the
heap of arrays.
-/

namespace RegisterLang.Machine

variable {σ : Type}

/-- The state after an instruction was counted. -/
def State.tick (s : State σ) : State σ :=
  { s with steps := s.steps + 1 }

/-- The outcome of a run, with the instruction that it fails in, if it fails in one. -/
abbrev Ending (σ : Type) : Type := Outcome σ Value × Option Instruction

/-- Run the code of a body that stands at `offset`, as `run` does. -/
def runEnding (env : Env σ) (callee : UInt32 → State σ → Ending σ) (frame : Frame) :
    List UInt8 → Nat → List UInt8 → State σ → Ending σ
  | _ :: bound, offset, code@(_ :: _), s =>
    if env.settings.maxSteps.any (· < s.tick.steps) then
      ((.error (.stepLimitExceeded (env.settings.maxSteps.getD 0)), s.tick), none)
    else
      match Instruction.decode offset code with
      | .error e => ((.error (.invalidInstruction frame.function e), s.tick), none)
      | .ok (i, rest) =>
        let next := offset + i.length
        match step env frame offset next i s.tick with
        | (.error fault, s) => ((.error fault, s), some i)
        | (.ok .next, s) => runEnding env callee frame bound next rest s
        | (.ok (.skip n), s) => runEnding env callee frame bound (next + n) (rest.drop n) s
        | (.ok (.call function), s) =>
          match callee function s with
          | ((.error fault, s), culprit) => ((.error fault, s), culprit)
          | ((.ok _, s), _) => runEnding env callee frame bound next rest s
        | (.ok (.ret v), s) => ((.ok v, s), none)
  | _, _, _, s => ((.error (.fellOffEnd frame.function), s), none)

/-- Call a function, with `room` more frames to open at most, as `call` does. -/
def callEnding (env : Env σ) : Nat → UInt32 → State σ → Ending σ
  | room, index, s =>
    match env.image.functions[index.toNat]? with
    | none => ((.error (.badFunction index), s), none)
    | some (.native _ _) => (callNative env index s, none)
    | some (.bytecode localReserve stackArgs code) =>
      match room with
      | 0 => ((.error (.callDepthExceeded env.settings.maxCallDepth), s), none)
      | room + 1 =>
        match enter index localReserve stackArgs s with
        | none => ((.error (.stackUnderflow index 0), s), none)
        | some (frame, s) =>
          let ending := runEnding env (callEnding env room) frame code 0 code s
          (returned (leave frame ending.1), ending.2)

theorem fst_runEnding (env : Env σ) {callee : UInt32 → State σ → Ending σ}
    {callee' : UInt32 → State σ → Outcome σ Value} (same : ∀ index s, (callee index s).1 = callee' index s)
    (frame : Frame) (bound : List UInt8) (offset : Nat) (code : List UInt8) (s : State σ) :
    (runEnding env callee frame bound offset code s).1 = run env callee' frame bound offset code s := by
  induction bound generalizing offset code s with
  | nil => cases code <;> rfl
  | cons x bound ih =>
    cases code with
    | nil => rfl
    | cons c code =>
      simp only [runEnding, run]
      by_cases exceeded : env.settings.maxSteps.any (· < s.tick.steps) = true
      · rw [if_pos exceeded]
        exact (if_pos exceeded).symm
      rw [if_neg exceeded]
      refine Eq.trans ?_ (if_neg exceeded).symm
      cases Instruction.decode offset (c :: code) with
      | error e => rfl
      | ok found =>
        obtain ⟨i, rest⟩ := found
        dsimp only [State.tick]
        generalize step env frame offset (offset + i.length) i _ = out
        obtain ⟨fault | effect, s'⟩ := out
        · rfl
        · cases effect with
          | next | skip _ => exact ih _ _ s'
          | call function =>
            dsimp only
            rw [← same function s']
            obtain ⟨⟨fault | v, t⟩, culprit⟩ := callee function s'
            · rfl
            · exact ih _ _ t
          | ret v => rfl

theorem fst_callEnding (env : Env σ) (room : Nat) (index : UInt32) (s : State σ) :
    (callEnding env room index s).1 = call env room index s := by
  induction room generalizing index s with
  | zero =>
    rw [callEnding, call]
    cases env.image.functions[index.toNat]? with
    | none => rfl
    | some function => cases function <;> rfl
  | succ room ih =>
    rw [callEnding, call]
    cases env.image.functions[index.toNat]? with
    | none => rfl
    | some function =>
      cases function with
      | native library symbol => rfl
      | bytecode reserve stackArgs code =>
        dsimp only
        cases enter index reserve stackArgs s with
        | none => rfl
        | some opened =>
          dsimp only
          rw [fst_runEnding env ih]

/-! ## The bound on a run -/

theorem length_le_of_decode {offset : Nat} {b : UInt8} {code rest : List UInt8} {i : Instruction}
    (decoded : Instruction.decode offset (b :: code) = .ok (i, rest)) : rest.length ≤ code.length := by
  rw [Instruction.decode] at decoded
  split at decoded
  · cases decoded
  · dsimp only at decoded
    split at decoded
    · cases decoded
    · cases decoded
      simp

theorem runEnding_bound (env : Env σ) (callee : UInt32 → State σ → Ending σ) (frame : Frame)
    {bound bound' : List UInt8} {code : List UInt8} (long : code.length ≤ bound.length)
    (long' : code.length ≤ bound'.length) (offset : Nat) (s : State σ) :
    runEnding env callee frame bound offset code s = runEnding env callee frame bound' offset code s := by
  induction bound generalizing bound' code offset s with
  | nil =>
    cases code with
    | nil => cases bound' <;> rfl
    | cons c code => cases long
  | cons x bound ih =>
    cases code with
    | nil => cases bound' <;> rfl
    | cons c code =>
      cases bound' with
      | nil => cases long'
      | cons x' bound' =>
        simp only [List.length_cons, Nat.add_le_add_iff_right] at long long'
        simp only [runEnding]
        split
        · rfl
        · split
          · rfl
          · next i rest decoded =>
              have short := length_le_of_decode decoded
              split
              · rfl
              · exact ih (by omega) (by omega) _ _
              · next n s' stepped =>
                  have shorter : (rest.drop n).length ≤ rest.length := by simp
                  exact ih (by omega) (by omega) _ _
              · split
                · rfl
                · exact ih (by omega) (by omega) _ _
              · rfl

/-! ## Instructions and the heap -/

theorem consistent_step {s : State σ} (consistent : s.arrays.Consistent) (env : Env σ) (frame : Frame)
    (offset next : Nat) (i : Instruction) : (step env frame offset next i s).2.arrays.Consistent := by
  cases i with
  | arrayNew dst len =>
    rw [step, arrays_onArrays]
    · exact consistent.create_snd _
    · exact fun _ _ => rfl
  | arrayGet dst array index =>
    rw [step, arrays_onArrays, ArrayHeap.get_snd]
    · exact consistent
    · exact fun _ _ => rfl
  | arraySet array index value =>
    rw [step, arrays_onArrays]
    · exact consistent.set_snd _ _ _
    · exact fun _ _ => rfl
  | arrayDestroy reg =>
    rw [step, arrays_onArrays]
    · exact consistent.destroy_snd _
    · exact fun _ _ => rfl
  | _ =>
    simp only [step, jump, advance]
    repeat' split
    all_goals exact consistent

end RegisterLang.Machine
