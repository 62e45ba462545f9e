import RegisterLang.Proofs.Assignments

/-! # Statements

Main statement: `emits_emitStmts`, the code of statements does what their evaluation does. A `return` gets
to the end of the function, or returns right there when nothing is left to do.
-/

namespace RegisterLang

open Machine Evaluation List

namespace Emission

open Instruction CodeBuffer

variable {σ ω : Type}

namespace Setting

variable {b b' b1 : Body} {tail : Tail} {label : Label} {vars : List VarDecl} {targets : List String} {v : Lowered}
  {c : Core σ} {x y : Locals → Eval ω (Locals × Flow)} {returns : Bool}

/-! ## What the code of statements does -/

section Definitions

variable (w : Setting σ ω)

/-- A statement after which only labels are bound. -/
structure Closes (b : Body) : Prop where
  pos : b.pos = w.last.pos
  locals : w.last.locals = b.locals
  isFinished : w.last.isFinished = b.isFinished

/-- The function has its result: it is at its end, or returns without freeing arrays since it has none. -/
def Ended (locals : Locals) (v : Value) (k : Nat) (c : Core σ) : Prop :=
  w.Slots w.last locals c ∧
    ((k = w.last.pos ∧ w.last.isFinished = false ∧
        (if w.scope.ret.isVoid then v = 0 else c.reg returnReg = v)) ∨
      (w.link.code.Returns k c v c ∧ ∀ x l, (x, l) ∈ w.last.locals.toList → l.isOwnedArray = false))

/-- The run has got where the flow of evaluation goes. -/
def Leaves (b' : Body) (result : Locals × Flow) (k : Nat) (c : Core σ) : Prop :=
  match result.2 with
  | .next => w.Behind b' result.1 k c ∧ b'.isFinished = false
  | .ret v => w.Ended result.1 v k c

/-- The code of statements that end at `tail` does what evaluation does. The names that they assign to are
not those of arrays. -/
structure Performs (tail : Tail) (vars : List VarDecl) (targets : List String)
    (x : Locals → Eval ω (Locals × Flow)) (b b' : Body) : Prop extends Declares w.scope vars b b' where
  scalars : ∀ name ∈ targets, Scalar w.scope b' name
  grows : b.code.Grows b'.code
  unfinished : tail ≠ .body → b'.isFinished = b.isFinished
  finished : b.isFinished = false → b'.isFinished = true → b'.endJumps = 0
  sim : w.Sound → Extends w.scope b' w.last → (tail ≠ .no → w.Closes b') → b.isFinished = false →
    ∀ locals c, w.Matches b locals c → w.link.Sim b.pos c (x locals) (w.Leaves b')

end Definitions

variable {w : Setting σ ω}

theorem Acts.performs {x : Locals → Eval ω Locals} (acts : w.Acts vars x b b')
    (scalars : ∀ name ∈ targets, Scalar w.scope b name) :
    w.Performs tail vars targets (fun locals => do let locals ← x locals; return (locals, .next)) b b' where
  toDeclares := acts.toDeclares
  scalars name member := (scalars name member).mono acts.grown.toPrecedes
  grows := acts.grows
  unfinished _ := acts.isFinished
  finished unfinished finished := by
    rw [acts.isFinished, unfinished] at finished
    cases finished
  sim sound rest _ unfinished locals c same := by
    refine (acts.sim sound rest.toPrecedes locals c same).bind fun locals' k c' behind => ?_
    exact .pure ⟨behind, acts.isFinished.trans unfinished⟩

theorem Matches.slots_last {locals : Locals} (same : w.Matches b locals c) (sound : w.Sound)
    (rest : Extends w.scope b w.last) : w.Slots w.last locals c :=
  same.toSlots.skip sound rest sound.tidy (Extends.refl _ _).toPrecedes

/-! ## Returns -/

theorem emits_ownsArrays : Emits ownsArrays fun b owns b' =>
      b' = b ∧ (owns = false → ∀ x l, (x, l) ∈ b.locals.toList → l.isOwnedArray = false) := by
  refine .mono (.bind .of_get fun _ => .of_pure _) ?_
  rintro b owns b' ⟨_, _, ⟨rfl, rfl⟩, rfl, rfl⟩
  refine ⟨rfl, fun none x l member => ?_⟩
  simpa using any_eq_false.1 none (x, l) member

/-- The value of a `return` is in the result register, or is returned from its slot. -/
inductive ResultReady (w : Setting σ ω) (e : Expr) (tail : Tail) (b : Body) :
    Bool → Body → Prop where
  | register {v : Lowered} {b₁ b' : Body} (computes : w.Computes e b v b₁)
      (accepts : w.scope.ret.accepts v.ty v.isLiteral = true) (fills : Fills returnReg v b₁ b') :
      ResultReady w e tail b false b'
  | slot {v : Lowered} {b₁ : Body} {slot : UInt16} (computes : w.Computes e b v b₁)
      (accepts : w.scope.ret.accepts v.ty v.isLiteral = true)
      (place : v.place = .slot slot) (whole : tail = .body) (jumps : b₁.endJumps = 0)
      (unowned : ∀ x l, (x, l) ∈ b₁.locals.toList → l.isOwnedArray = false) :
      ResultReady w e tail b true { b₁ with code := b₁.code.emit (.retLocal slot), isFinished := true }

theorem emits_emitReturnValue (regular : Regular w.scope) (e : Expr) (tail : Tail) :
    Emits (emitReturnValue w.scope e tail) fun b ended b' => Tidy w.scope b → w.ResultReady e tail b ended b' := by
  have fills : ∀ v : Lowered, Emits (do loadInto returnReg v; return false)
      fun b ended b' => Placed b v → ended = false ∧ Fills returnReg v b b' := by
    intro v
    refine .mono (.bind (emits_loadInto returnReg v) fun _ => .of_pure false) ?_
    rintro b ended b' ⟨_, _, fills, rfl, rfl⟩ placed
    exact ⟨rfl, fills (by decide) placed⟩
  refine .mono (.bind (emits_lowerValue regular e) fun v => .ite (.of_pure false) (.ite
    (.bind (emits_complain w.scope _ _ e.span) fun _ => .bind (emits_drop v) fun _ => .of_pure false)
    (.bind .of_get fun b0 => .bind emits_ownsArrays fun owns => (?_ : Emits _ fun b ended b' =>
      Placed b v → ended = false ∧ Fills returnReg v b b' ∨ ∃ slot, ended = true ∧
        (tail = .body && b0.endJumps = 0 && !owns) = true ∧ v.place = .slot slot ∧
          b' = { b with code := b.code.emit (.retLocal slot), isFinished := true })))) ?_
  · split
    · next slot place =>
      refine .of_ite (fun here => ?_) fun _ =>
        .mono (fills v) fun _ _ _ done placed => .inl (done placed)
      refine .mono (.bind (emits_emitInsn _) fun _ => .bind (.of_modify fun _ => rfl) fun _ =>
        .of_pure true) ?_
      rintro b ended b' ⟨_, _, rfl, _, _, rfl, rfl, rfl⟩ -
      exact .inr ⟨slot, rfl, here, place, rfl⟩
    · exact .mono (fills v) fun _ _ _ done placed => .inl (done placed)
  · rintro b ended b' ⟨v, b1, computes, ended_now⟩ tidy
    have computes := computes tidy
    obtain ⟨failed, -⟩ | ⟨-, ⟨-, _, _, impossible, -⟩ | ⟨accepts, _, _, ⟨rfl, rfl⟩, owns, _,
      ⟨rfl, unowned⟩, ready⟩⟩ := ended_now
    · simp [Lowered.isFailed, computes.delivers.found] at failed
    · exact impossible.elim
    · have accepts : w.scope.ret.accepts v.ty v.isLiteral = true := by simpa using accepts
      obtain ⟨rfl, fills⟩ | ⟨slot, rfl, direct, place, rfl⟩ := ready computes.delivers.placed
      · exact .register computes accepts fills
      · simp only [Bool.and_eq_true, decide_eq_true_eq, Bool.not_eq_true'] at direct
        exact .slot computes accepts place direct.1.1 direct.1.2 (unowned direct.2)

theorem ResultReady.legible {e : Expr} {ended : Bool} (ready : w.ResultReady e tail b ended b') :
    b'.locals = b.locals ∧
      Legible w.scope w.meaning e.names (w.meaning.Typed e ∧ w.meaning.Accepted w.scope.ret e) b.locals := by
  have legible {v : Lowered} (reads : Reads w.scope w.meaning e v b.locals)
      (accepts : w.scope.ret.accepts v.ty v.isLiteral = true) :
      Legible w.scope w.meaning e.names (w.meaning.Typed e ∧ w.meaning.Accepted w.scope.ret e) b.locals :=
    ⟨reads.known, fun sees => ⟨reads.typed sees, by rw [Meaning.Accepted, reads.described sees]; exact accepts⟩⟩
  cases ready with
  | register computes accepts fills =>
    exact ⟨(computes.delivers.steady.trans fills.steady).locals, legible computes.reads accepts⟩
  | slot computes accepts _ _ _ _ => exact ⟨computes.delivers.steady.locals, legible computes.reads accepts⟩

/-- The end of a `return` that has not ended the function: a jump to the end, where it is not there. -/
inductive GoesToEnd (scope : Scope) (tail : Tail) (b : Body) : Body → Prop where
  | jumps (tail_eq : tail = .no) : GoesToEnd scope tail b
      { b with code := b.code.jump .always scope.endLabel, endJumps := b.endJumps + 1 }
  | stays (tail_ne : tail ≠ .no) : GoesToEnd scope tail b b

namespace GoesToEnd

variable {tail : Tail} {b b' : Body}

section
variable (goes : GoesToEnd w.scope tail b b')
include goes

theorem grows : b.code.Grows b'.code := by
  cases goes with
  | jumps _ => exact .jump _ _ _
  | stays _ => exact .refl _

theorem locals : b'.locals = b.locals := by
  cases goes <;> rfl

theorem isFinished : b'.isFinished = b.isFinished := by
  cases goes <;> rfl

theorem declares (tidy : Tidy w.scope b) : Declares w.scope [] b b' := by
  cases goes with
  | jumps _ => exact .leave tidy (Grows.jump _ _ _).within (Nat.le_succ _) b.isFinished
  | stays _ => exact .of_steady tidy (.refl b) le_rfl

theorem goes_end (sound : w.Sound)
    (rest : Extends w.scope b' w.last) (closes : tail ≠ .no → w.Closes b')
    (unfinished : b.isFinished = false) (c : Core σ) :
    w.link.code.Goes b.pos c w.last.pos c ∧ w.last.isFinished = false := by
  cases goes with
  | jumps _ =>
    have within := rest.code.trans sound.code
    refine ⟨Activation.goes_jump_taken within.jumped sound.stop rfl, ?_⟩
    cases ended : w.last.isFinished with
    | false => rfl
    | true =>
      -- A function that has ended by itself has no jumps to its end.
      have none := sound.finished ended
      have some := rest.jumps
      change b.endJumps + 1 ≤ _ at some
      omega
  | stays tail_ne =>
    have closes := closes tail_ne
    exact ⟨closes.pos ▸ .refl _ c, closes.isFinished.trans unfinished⟩

end

end GoesToEnd

theorem emits_goToEnd (ended : Bool) (tail : Tail) : Emits (if (!ended && decide (tail = .no)) = true then do
        onCode (·.jump .always w.scope.endLabel)
        modify fun b => { b with endJumps := b.endJumps + 1 }
      else pure ())
      fun b _ b' => ended = false ∧ GoesToEnd w.scope tail b b' ∨ ended = true ∧ b' = b := by
  refine .mono (.ite (.bind (emits_onCode _) fun _ => .of_modify fun _ => rfl) (.of_pure ())) ?_
  rintro b _ b' (⟨jumps, _, _, rfl, rfl⟩ | ⟨stays, -, rfl⟩)
  · simp only [Bool.and_eq_true, Bool.not_eq_true', decide_eq_true_eq] at jumps
    exact .inl ⟨jumps.1, .jumps jumps.2⟩
  · cases ended with
    | true => exact .inr ⟨rfl, rfl⟩
    | false => exact .inl ⟨rfl, .stays (by simpa using stays)⟩

theorem Performs.returnNothing (tidy : Tidy w.scope b) (void : w.scope.ret.isVoid = true)
    (goes : GoesToEnd w.scope tail b b') : w.Performs tail [] [] (fun locals => pure (locals, .ret 0)) b b' where
  toDeclares := goes.declares tidy
  scalars := nofun
  grows := goes.grows
  unfinished _ := goes.isFinished
  finished unfinished finished := by
    rw [goes.isFinished, unfinished] at finished
    cases finished
  sim sound rest closes unfinished locals c same := by
    obtain ⟨went, not_ended⟩ := goes.goes_end sound rest closes unfinished c
    have slots := same.slots_last sound ((goes.declares tidy).grown.trans rest)
    exact .goes went rfl (.pure ⟨slots, .inl ⟨rfl, not_ended, by rw [if_pos void]⟩⟩)

variable {e cond : Expr} {b2 : Body}

theorem Performs.returnRegister (tidy : Tidy w.scope b) (valued : w.scope.ret.isVoid = false)
    (computes : w.Computes e b v b1) (fills : Fills returnReg v b1 b2) (goes : GoesToEnd w.scope tail b2 b') :
    w.Performs tail [] [] (fun locals => do
      let v ← w.meaning.value locals e
      return (locals, .ret v)) b b' := by
  have steady := computes.delivers.steady.trans fills.steady
  have pool := fills.pool b.pool computes.delivers.pool computes.delivers.spare
  have declares := (Declares.of_steady tidy steady pool).trans (goes.declares (tidy.steady steady pool))
  refine ⟨declares, nofun, steady.code.trans goes.grows, fun _ => goes.isFinished.trans steady.isFinished,
    fun unfinished finished => ?_, fun sound rest closes unfinished locals c same => ?_⟩
  · rw [goes.isFinished, steady.isFinished, unfinished] at finished
    cases finished
  · have rest2 := (goes.declares (tidy.steady steady pool)).grown.toPrecedes.trans rest.toPrecedes
    have rest1 := (Precedes.of_steady fills.steady).trans rest2
    refine (computes.sim sound rest1 locals c same).bind ?_
    rintro x k c1 ⟨rfl, holds, keeps⟩
    obtain ⟨c2, went, sets⟩ := fills.runs w.link.code c1 x (rest2.code.trans sound.code) holds
    obtain ⟨went', not_ended⟩ :=
      goes.goes_end sound rest closes (steady.isFinished.trans unfinished) c2
    have store : w.link.store c2 = w.link.store c1 := by
      rw [Link.store, Link.store, sets.arrays, sets.globals, sets.world]
    have slots := (same.keeps tidy keeps).slots_last sound (declares.grown.trans rest)
    refine .goes (went.trans went') store (.pure ⟨slots.of_stack sets.stack ?_, .inl ?_⟩)
    · rw [sets.globals]
    · exact ⟨rfl, not_ended, by rw [valued]; exact sets.value⟩

theorem encodable_retLocal (slot : UInt16) : (Instruction.retLocal slot).Encodable := by
  simp [Instruction.Encodable, nibbles]

theorem Performs.returnSlot {slot : UInt16} (tidy : Tidy w.scope b) (computes : w.Computes e b v b1)
    (place : v.place = .slot slot) (whole : tail = .body) (jumps : b1.endJumps = 0)
    (unowned : ∀ x l, (x, l) ∈ b1.locals.toList → l.isOwnedArray = false) : w.Performs tail [] [] (fun locals => do
      let v ← w.meaning.value locals e
      return (locals, .ret v)) b { b1 with code := b1.code.emit (.retLocal slot), isFinished := true } := by
  have steady := computes.delivers.steady
  have tidy1 := computes.tidy tidy
  have grows := Grows.emit b1.code (encodable_retLocal slot)
  have declares := (Declares.of_steady tidy steady computes.delivers.pool).trans
    (.leave tidy1 grows.within (Nat.le_refl _) true)
  refine ⟨declares, nofun, steady.code.trans grows, fun other => absurd whole other, fun _ _ => jumps, ?_⟩
  intro sound rest closes _ locals c same
  have closes := closes (by rw [whole]; exact nofun)
  have within := rest.code.trans sound.code
  have rest1 : Precedes w.scope b1 w.last :=
    (Declares.leave tidy1 grows.within (Nat.le_refl _) true).grown.toPrecedes.trans rest.toPrecedes
  refine (computes.sim sound rest1 locals c same).bind ?_
  rintro x k c1 ⟨rfl, holds, keeps⟩
  rw [Lowered.Holds, place] at holds
  refine .pure ⟨(same.keeps tidy keeps).slots_last sound (declares.grown.trans rest), .inr ?_⟩
  exact ⟨Activation.returns_retLocal within.emitted holds, by rw [closes.locals]; exact unowned⟩

theorem Performs.after (performs : w.Performs tail vars targets x b1 b') (tidy : Tidy w.scope b)
    (steady : Steady b b1) (pool : b.pool ≤ b1.pool) (pos : b1.pos = b.pos) : w.Performs tail vars targets x b b' where
  toDeclares := (Declares.of_steady tidy steady pool).trans performs.toDeclares
  scalars := performs.scalars
  grows := steady.code.trans performs.grows
  unfinished other := (performs.unfinished other).trans steady.isFinished
  finished unfinished := performs.finished (steady.isFinished.trans unfinished)
  sim sound rest closes unfinished locals c same :=
    pos ▸ performs.sim sound rest closes (steady.isFinished.trans unfinished) locals c (same.steady steady)

theorem emits_emitReturn (regular : Regular w.scope) (value : Option Expr) (span : Span) (tail : Tail) :
    Emits (emitReturn w.scope value span tail) fun b _ b' => Tidy w.scope b →
      w.Performs tail [] [] (fun locals => w.meaning.executor.stmt locals (.ret value span)) b b' ∧
      Walks w.scope w.meaning [] (AllStored w.meaning.owns · (Stmt.ret value span).reads)
        (w.meaning.StmtTyped w.scope.ret (.ret value span)) b.locals b'.locals := by
  have counted : ∀ b : Body, Steady b { b with returns := b.returns + 1 } :=
    fun b => ⟨rfl, rfl, rfl, rfl, .refl _, .refl _⟩
  have le : ∀ b : Body, b.pool ≤ { b with returns := b.returns + 1 }.pool :=
    fun b => le_refl _
  cases value with
  | none =>
    refine .mono (.bind (.of_modify fun _ => rfl) fun _ => .ite
      (.bind (emits_complain w.scope _ _ span) fun _ => .bind (.of_pure false) fun ended =>
        emits_goToEnd ended tail)
      (.bind (.of_pure false) fun ended => emits_goToEnd ended tail)) ?_
    rintro b _ b' ⟨_, _, rfl, ⟨-, _, _, impossible, -⟩ | ⟨void, _, _, ⟨rfl, rfl⟩, ended⟩⟩ tidy
    · exact impossible.elim
    · obtain ⟨-, goes⟩ | ⟨⟨⟩, -⟩ := ended
      have tidy0 := tidy.steady (counted b) (le b)
      have void : w.scope.ret.isVoid = true := by simpa using void
      exact ⟨.after (.returnNothing tidy0 void goes) tidy (counted b) (le b) rfl,
        .of_legible goes.locals ⟨forall_mem_nil _, fun _ => void⟩⟩
  | some e =>
    refine .mono (.bind (.of_modify fun _ => rfl) fun _ => .ite
      (.bind (emits_complain w.scope _ _ e.span) fun _ => .bind (.of_pure false) fun ended =>
        emits_goToEnd ended tail)
      (.bind (emits_emitReturnValue regular e tail) fun ended => emits_goToEnd ended tail)) ?_
    rintro b _ b' ⟨_, _, rfl, ⟨-, _, _, impossible, -⟩ | ⟨valued, ended, b1, ready, goes⟩⟩ tidy
    · exact impossible.elim
    · have tidy0 := tidy.steady (counted b) (le b)
      have ready := ready tidy0
      obtain ⟨same, legible⟩ := ready.legible
      have same' : b'.locals = b1.locals := by
        obtain ⟨-, goes⟩ | ⟨-, rfl⟩ := goes
        · exact goes.locals
        · rfl
      refine ⟨.after ?_ tidy (counted b) (le b) rfl, .of_legible (same'.trans same) legible⟩
      have valued : w.scope.ret.isVoid = false := by simpa using valued
      cases ready with
      | register computes _ fills =>
        obtain ⟨-, goes⟩ | ⟨⟨⟩, -⟩ := goes
        exact .returnRegister tidy0 valued computes fills goes
      | slot computes _ place whole jumps unowned =>
        obtain ⟨⟨⟩, -⟩ | ⟨-, rfl⟩ := goes
        exact .returnSlot tidy0 computes place whole jumps unowned

/-! ## Conditions -/

/-- Code that jumps away when a value does not take the first block. -/
inductive Tested (v : Lowered) (label : Label) (b : Body) : Body → Prop where
  | flags {op : BinOp} (place : v.place = .flags) (lastOp : v.lastOp = some op) :
      Tested v label b { b with code := b.code.jump (flagCondition op).negate label }
  | value {o : Operand} {b₁ : Body} (no_flags : v.place ≠ .flags) (something : v.place ≠ .nothing)
      (fetches : Fetches v b o b₁) :
      Tested v label b { b₁ with
        code := (b₁.code.emit (.testz o.reg)).jump .eq label
        pool := o.leave b₁.pool }

theorem Tested.steady (tested : Tested v label b b') : Steady b b' := by
  cases tested with
  | flags place lastOp => exact .setCode (.jump _ _ _)
  | value no_flags something fetches =>
    exact (fetches.steady.trans (.setCode ((Grows.emit _ (encodable_testz fetches.small)).trans
      (.jump _ _ _)))).trans (.setPool _ _)

theorem Tested.pool (tested : Tested v label b b') {p : RegisterPool} (le : p ≤ b.pool) (spare : Spare p v) :
    p ≤ b'.pool := by
  cases tested with
  | flags place lastOp => exact le
  | value no_flags something fetches =>
    exact (fetches.spare spare le).le_leave fetches.small (le_trans le fetches.pool)

theorem holds_eq_zero (x : Value) : (Flags.ofOrdering (order? .signed x 0)).holds .eq = !decide (x ≠ 0) := by
  have zero := compare_signed_eq (x := x)
  rw [order?]
  cases order : compare x.signed (Value.signed 0) with
  | eq =>
    rw [zero.1 order]
    rfl
  | lt | gt =>
    have apart : x ≠ 0 := fun equal => by rw [zero.2 equal] at order; cases order
    simp [apart, Flags.ofOrdering, Flags.holds]

theorem Tested.sim (tested : Tested v label b b') {k : Link σ ω} {answer : Answer} {target : Nat}
    (within : b'.code.Within k.code.buffer) (bound : k.code.buffer.target? label = some target)
    (answers : v.Answers k.code c answer) : k.Sim b.pos c (match answer with
      | .value x => pure (decide (x ≠ 0))
      | .comparison first => pure first
      | .nothing => Eval.stop .stuck : Eval ω Bool)
      fun first n c' => n = (if first then b'.pos else target) ∧ Keeps b.pool c c' := by
  cases tested with
  | @flags op place lastOp =>
    have jumped := Activation.goes_jump within.jumped bound c
    have pos : (b.code.jump (flagCondition op).negate label).ops.size = b.code.ops.size + 1 :=
      size_ops_jump ..
    cases answer with
    | value x =>
      rw [Lowered.Answers, Lowered.Holds, place] at answers
      exact answers.elim
    | nothing =>
      rw [Lowered.Answers, place] at answers
      cases answers
    | comparison first =>
      obtain ⟨-, op', lastOp', rfl⟩ := answers
      cases lastOp.symm.trans lastOp'
      refine .goes jumped rfl (.pure ⟨?_, .refl _ c⟩)
      rw [Body.pos, pos]
      cases c.flags.holds (flagCondition op).negate <;> rfl
  | @value o b1 no_flags something fetches =>
    cases answer with
    | nothing => exact absurd answers something
    | comparison first => exact absurd answers.1 no_flags
    | value x =>
      have within_test := (Grows.jump _ .eq label).within.trans within
      obtain ⟨c1, went, flags, still⟩ := fetches.goes_testz within_test answers
      have jumped := Activation.goes_jump within.jumped bound c1
      rw [flags, holds_eq_zero] at jumped
      refine .goes (went.trans jumped) still.store (.pure ⟨?_, still.keeps⟩)
      rw [Body.pos, size_ops_jump]
      cases decide (x ≠ 0) <;> rfl

theorem emits_tested (scope : Scope) (v : Lowered) (label : Label) (span : Span) : Emits (match v.place with
        | .flags =>
          match v.lastOp with
          | some op => onCode (·.jump (flagCondition op).negate label)
          | none => throw (.internal .flagsWithoutComparison)
        | .failed => return
        | .nothing => complain scope .typeMismatch "the condition does not produce a value" span
        | _ =>
          if !v.ty.isScalar || v.ty.isFloat then do
            complain scope .invalidOperand
              s!"a condition of type {v.ty.text} cannot be tested" span
            drop v
          else do
            let o ← operand scope v
            emitInsn (.testz o.reg)
            release o
            onCode (·.jump .eq label))
      fun b _ b' => v.place ≠ .failed → Placed b v → Tested v label b b' := by
  split
  · next place =>
    split
    · next op lastOp =>
      refine .mono (emits_onCode _) ?_
      rintro b _ b' rfl - -
      exact .flags place lastOp
    · exact .of_throw _
  · next place =>
    refine .mono (.of_pure ()) ?_
    intro b _ b' _ found
    exact absurd place found
  · exact .never (emits_complain scope _ _ span)
  · next no_flags no_failed something =>
    refine .of_ite (fun _ => .bind_never (emits_complain scope _ _ span) fun _ => emits_drop v)
      fun _ => .mono (.bind (emits_operand scope v) fun o => .bind (emits_emitInsn _) fun _ =>
        .bind (emits_release o) fun _ => emits_onCode _) ?_
    rintro b _ b' ⟨o, b1, fetches, _, _, rfl, _, _, rfl, rfl⟩ - placed
    have fetches := fetches placed
    exact .value no_flags something fetches

/-- The code of a condition jumps to a label unless what it computes takes the first block. -/
structure Tests {α : Type} (w : Setting σ ω) (x : Locals → Eval ω α) (taken : α → Bool) (label : Label)
    (b b' : Body) : Prop where
  steady : Steady b b'
  pool : b.pool ≤ b'.pool
  sim : w.Sound → Precedes w.scope b' w.last → ∀ target,
    w.link.code.buffer.target? label = some target → ∀ locals c, w.Matches b locals c →
    w.link.Sim b.pos c (x locals)
      fun a k c' => k = (if taken a then b'.pos else target) ∧ Keeps b.pool c c'

theorem emits_emitCondition (regular : Regular w.scope) (cond : Expr) (label : Label) :
    Emits (emitCondition w.scope cond label) fun b _ b' => Tidy w.scope b →
      w.Tests (w.meaning.condition · cond) id label b b' ∧
        Legible w.scope w.meaning cond.names (w.meaning.Typed cond) b.locals := by
  refine .mono (.bind (emits_lowerExpr regular cond) fun v =>
    emits_tested w.scope v label cond.span) ?_
  rintro b _ b' ⟨v, b1, lowers, tested⟩ tidy
  have lowers := lowers tidy
  have tested := tested lowers.delivers.found lowers.delivers.placed
  refine ⟨⟨lowers.delivers.steady.trans tested.steady,
    tested.pool lowers.delivers.pool lowers.delivers.spare, ?_⟩, lowers.reads.legible⟩
  intro sound rest target bound locals c same
  have rest1 := (Precedes.of_steady tested.steady).trans rest
  refine (lowers.sim sound rest1 locals c same).bind ?_
  rintro answer k c1 ⟨rfl, answers, keeps⟩
  have taken := (tested.sim (rest.code.trans sound.code) bound answers).mono
    fun first n c2 ⟨here, keeps'⟩ =>
      (⟨here, keeps.trans (keeps'.mono lowers.delivers.pool)⟩ :
        n = (if first then b'.pos else target) ∧ Keeps b.pool c c2)
  cases answer <;> exact taken

/-! ## Conditionals -/

theorem Declares.bound {scope : Scope} (tidy : Tidy scope b) (unbound : b.code.target? label = none) :
    Declares scope [] b { b with code := b.code.bind label } :=
  Declares.leave tidy (within_bind unbound) (Nat.le_refl _) b.isFinished

theorem target?_bound (sound : w.Sound) (made : label.index < b.code.labels.size)
    (rest : Precedes w.scope { b with code := b.code.bind label } w.last) :
    w.link.code.buffer.target? label = some b.pos :=
  sound.code.labels _ _ (rest.code.labels _ _ (target?_bind_self made))

theorem Leaves.bound {result : Locals × Flow} {k : Nat} (leaves : w.Leaves b result k c) (label : Label) :
    w.Leaves { b with code := b.code.bind label } result k c := by
  obtain ⟨locals, flow⟩ := result
  cases flow with
  | ret v => exact leaves
  | next =>
    obtain ⟨⟨rfl, same⟩, unfinished⟩ := leaves
    exact ⟨⟨rfl, same.toSlots.of_locals rfl rfl, same.home, same.assigned⟩, unfinished⟩

theorem Closes.unbound (closes : w.Closes { b with code := b.code.bind label }) : w.Closes b :=
  ⟨closes.pos, closes.locals, closes.isFinished⟩

theorem inside_ne_body (tail : Tail) : tail.inside ≠ .body := by
  cases tail <;> exact nofun

theorem ne_no_of_inside (inside : tail.inside ≠ .no) : tail ≠ .no := by
  rintro rfl
  exact inside rfl

theorem Performs.ifThen (tidy : Tidy w.scope b)
    (tests : w.Tests (w.meaning.condition · cond) id b.code.newLabel.1 { b with code := b.code.newLabel.2 } b1)
    (block : w.Performs tail.inside vars targets x b1 b2) :
    w.Performs tail vars targets (fun locals => do
      if ← w.meaning.condition locals cond then x locals else pure (locals, .next)) b
      { b2 with code := b2.code.bind b.code.newLabel.1 } := by
  have made : Steady b { b with code := b.code.newLabel.2 } := .setCode (.newLabel _)
  have tested := made.trans tests.steady
  obtain ⟨unbound, small, old⟩ := fresh_newLabel (tests.steady.code.trans block.grows)
  have bound : Declares w.scope [] b2 _ := Declares.bound block.tidy unbound
  have declares := block.toDeclares.trans bound
  rw [append_nil] at declares
  have unfinished : b2.isFinished = b.isFinished :=
    (block.unfinished (inside_ne_body tail)).trans tested.isFinished
  refine ⟨(Declares.of_steady tidy tested tests.pool).trans declares,
    fun name member => (block.scalars name member).mono bound.grown.toPrecedes,
    (tested.code.trans block.grows).bind old, fun _ => unfinished, fun before after => ?_, ?_⟩
  · rw [unfinished, before] at after
    cases after
  · intro sound rest closes before locals c same
    have rest2 := bound.grown.trans rest
    have rest1 := block.grown.trans rest2
    refine (tests.sim sound rest1.toPrecedes b2.pos (target?_bound sound small rest.toPrecedes) locals c
      (same.steady made)).bind ?_
    rintro first k c1 ⟨rfl, keeps⟩
    have same1 := (same.keeps tidy keeps).steady tested
    cases first with
    | true =>
      refine (block.sim sound rest2 (fun inside => (closes (ne_no_of_inside inside)).unbound)
        (tested.isFinished.trans before) locals c1 same1).mono ?_
      exact fun _ _ _ leaves => leaves.bound _
    | false =>
      have skipped := same1.skip sound declares.grown declares.tidy rest.toPrecedes
      exact .pure ⟨⟨rfl, skipped⟩, unfinished.trans before⟩

/-- A jump over the second block, left out where the first one returns. -/
inductive Skips (returns : Bool) (label : Label) (b : Body) : Body → Prop where
  | jump (falls : returns = false) :
      Skips returns label b { b with code := b.code.jump .always label }
  | nothing (leaves : returns = true) : Skips returns label b b

theorem Skips.steady (skips : Skips returns label b b') : Steady b b' := by
  cases skips with
  | jump _ => exact .setCode (.jump _ _ _)
  | nothing _ => exact .refl b

theorem Skips.pool (skips : Skips returns label b b') : b.pool ≤ b'.pool := by
  cases skips <;> exact le_rfl

theorem fresh_second {c c1 c3 c4 : CodeBuffer} (first : c.newLabel.2.Grows c1) (second : c1.newLabel.2.Grows c3)
    (third : (c3.bind c.newLabel.1).Grows c4) : c4.target? c1.newLabel.1 = none ∧
      c1.newLabel.1.index < c4.labels.size ∧ c.newLabel.1.index ≤ c1.newLabel.1.index := by
  obtain ⟨unbound, small, -⟩ := fresh_newLabel second
  have older : c.newLabel.1.index < c1.newLabel.1.index := by
    have := first.more
    simp only [CodeBuffer.newLabel, Array.size_push] at this ⊢
    omega
  have small3 : c1.newLabel.1.index < (c3.bind c.newLabel.1).labels.size := by
    simpa [CodeBuffer.bind] using small
  refine ⟨?_, Nat.lt_of_lt_of_le small3 third.more, Nat.le_of_lt older⟩
  rw [third.kept _ small3, target?_bind_of_ne (Nat.ne_of_lt older), unbound]

/-- A run of a conditional with a second block goes on with one of its blocks. -/
theorem Tests.branches {α : Type} {x : Locals → Eval ω α} {taken : α → Bool} {b3 : Body}
    (tests : w.Tests x taken b.code.newLabel.1 { b with code := b.code.newLabel.2 } b1) (tidy : Tidy w.scope b)
    (block : w.Performs .no vars targets y { b1 with code := b1.code.newLabel.2 } b2)
    (skips : Skips returns b1.code.newLabel.1 b2 b3) (sound : w.Sound)
    (rest : Extends w.scope { b3 with code := b3.code.bind b.code.newLabel.1 } w.last) {locals : Locals}
    (same : w.Matches b locals c) :
    w.link.Sim b.pos c (x locals) fun a k c' =>
      if taken a then k = b1.pos ∧ w.Matches { b1 with code := b1.code.newLabel.2 } locals c'
      else k = b3.pos ∧ w.Matches { b3 with code := b3.code.bind b.code.newLabel.1 } locals c' := by
  have made : Steady b { b with code := b.code.newLabel.2 } := .setCode (.newLabel _)
  have made1 : Steady b1 { b1 with code := b1.code.newLabel.2 } := .setCode (.newLabel _)
  have tidy1 := tidy.steady (made.trans tests.steady) tests.pool
  obtain ⟨unbound, small, -⟩ := fresh_newLabel
    ((tests.steady.code.trans made1.code).trans (block.grows.trans skips.steady.code))
  have skipped := Declares.of_steady block.tidy skips.steady skips.pool
  have first := block.toDeclares.trans (skipped.trans (Declares.bound skipped.tidy unbound))
  have rest1 := ((Declares.of_steady tidy1 made1 le_rfl).trans first).grown.trans rest
  refine (tests.sim sound rest1.toPrecedes b3.pos (target?_bound sound small rest.toPrecedes) locals c
    (same.steady made)).mono ?_
  rintro a k c1 ⟨rfl, keeps⟩
  have same1 := (same.keeps tidy keeps).steady ((made.trans tests.steady).trans made1)
  cases taken a with
  | true => exact ⟨rfl, same1⟩
  | false => exact ⟨rfl, same1.skip sound first.grown first.tidy rest.toPrecedes⟩

variable {targets' : List String} {vars' : List VarDecl}

theorem Performs.ifElse {b3 b4 : Body} (tidy : Tidy w.scope b)
    (tests : w.Tests (w.meaning.condition · cond) id b.code.newLabel.1 { b with code := b.code.newLabel.2 } b1)
    (block : w.Performs .no vars targets x { b1 with code := b1.code.newLabel.2 } b2)
    (returning : returns = true → ∀ locals, Always Returning (x locals))
    (skips : Skips returns b1.code.newLabel.1 b2 b3)
    (other : w.Performs tail.inside vars' targets' y { b3 with code := b3.code.bind b.code.newLabel.1 } b4) :
    w.Performs tail (vars ++ vars') (targets ++ targets') (fun locals => do
      if ← w.meaning.condition locals cond then x locals else y locals) b
      { b4 with code := b4.code.bind b1.code.newLabel.1 } := by
  have made : Steady b { b with code := b.code.newLabel.2 } := .setCode (.newLabel _)
  have made1 : Steady b1 { b1 with code := b1.code.newLabel.2 } := .setCode (.newLabel _)
  have tested := (made.trans tests.steady).trans made1
  have tidy3 := block.tidy.steady skips.steady skips.pool
  have grows3 := block.grows.trans skips.steady.code
  -- The first label is free up to the end of the first block, the second one up to the very end.
  obtain ⟨unbound, small, old⟩ :=
    fresh_newLabel ((tests.steady.code.trans made1.code).trans grows3)
  obtain ⟨unbound4, small4, older⟩ := fresh_second tests.steady.code grows3 other.grows
  have bound : Declares w.scope [] b3 _ := Declares.bound tidy3 unbound
  have bound4 : Declares w.scope [] b4 _ := Declares.bound other.tidy unbound4
  have skipped := Declares.of_steady block.tidy skips.steady skips.pool
  have ends := other.toDeclares.trans bound4
  have second := skipped.trans (bound.trans ends)
  rw [append_nil] at ends second
  have unfinished1 : b2.isFinished = b.isFinished :=
    (block.unfinished (by decide)).trans tested.isFinished
  have unfinished3 : b3.isFinished = b.isFinished := skips.steady.isFinished.trans unfinished1
  have unfinished : b4.isFinished = b.isFinished :=
    (other.unfinished (inside_ne_body tail)).trans unfinished3
  refine ⟨(Declares.of_steady tidy tested tests.pool).trans (block.toDeclares.trans second),
    forall_mem_append.2
      ⟨fun name member => (block.scalars name member).mono second.grown.toPrecedes,
        fun name member => (other.scalars name member).mono bound4.grown.toPrecedes⟩,
    ?_, fun _ => unfinished, fun before after => ?_, ?_⟩
  · refine Grows.bind ((Grows.bind (tested.code.trans grows3) old).trans other.grows) ?_
    exact Nat.le_trans old older
  · rw [unfinished, before] at after
    cases after
  · intro sound rest closes before locals c same
    have rest4 := bound4.grown.trans rest
    have rest3 := other.grown.trans rest4
    have rest2 := (skipped.trans bound).grown.trans rest3
    refine (tests.branches tidy block skips sound rest3 same).bind ?_
    intro first_block k c1 branched
    cases first_block with
    | false =>
      obtain ⟨rfl, same1⟩ := branched
      refine (other.sim sound rest4 (fun inside => (closes (ne_no_of_inside inside)).unbound)
        (unfinished3.trans before) locals c1 same1).mono ?_
      exact fun _ _ _ leaves => leaves.bound _
    | true =>
      obtain ⟨rfl, same1⟩ := branched
      refine ((block.sim sound rest2 (fun no => absurd rfl no) (tested.isFinished.trans before) locals
        c1 same1).also (fun result _ => returns = true → Returning result) ?_).then_goes ?_
      · intro used result store yields here
        exact returning here locals _ (used ++ []) result (by rw [yields []])
      · rintro ⟨locals', flow⟩ k c2 ⟨leaves, returned⟩
        cases flow with
        | ret v => exact ⟨k, c2, .refl k c2, rfl, leaves⟩
        | next =>
          obtain ⟨⟨rfl, same2⟩, -⟩ := leaves
          cases skips with
          | nothing here =>
            obtain ⟨v, ⟨⟩⟩ := returned here
          | jump _ =>
            have within := (rest3.toPrecedes.code.trans sound.code)
            have within3 := (within_bind unbound).trans within
            have target := target?_bound sound small4 rest.toPrecedes
            refine ⟨_, c2, Activation.goes_jump_taken within3.jumped target rfl, rfl, ?_⟩
            exact ⟨⟨rfl, same2.skip sound second.grown second.tidy rest.toPrecedes⟩, unfinished.trans before⟩

/-! ## Statements in a row -/

theorem emits_atLimit : Emits atLimit fun b limited b' => b' = b ∧ (b.errors = 0 → limited = false) := by
  refine .mono (.bind .of_get fun _ => .of_pure _) ?_
  rintro b limited b' ⟨_, _, ⟨rfl, rfl⟩, rfl, rfl⟩
  refine ⟨rfl, fun clean => ?_⟩
  have clean : b'.strings.report.totalErrors = 0 := clean
  simp [Report.atLimit, clean, Report.limit]

theorem Performs.nil (tidy : Tidy w.scope b) : w.Performs tail [] [] (fun locals => pure (locals, .next)) b b where
  toDeclares := .of_steady tidy (.refl b) le_rfl
  scalars := nofun
  grows := .refl _
  unfinished _ := rfl
  finished before after := by
    rw [before] at after
    cases after
  sim _ _ _ before _ _ same := .pure ⟨⟨rfl, same⟩, before⟩

theorem Performs.seq (first : w.Performs .no vars targets x b b1)
    (second : w.Performs tail vars' targets' y b1 b') :
    w.Performs tail (vars ++ vars') (targets ++ targets') (fun locals => (x locals).andThen y) b b' where
  toDeclares := first.toDeclares.trans second.toDeclares
  scalars := forall_mem_append.2
    ⟨fun name member => (first.scalars name member).mono second.grown.toPrecedes, second.scalars⟩
  grows := first.grows.trans second.grows
  unfinished other := (second.unfinished other).trans (first.unfinished nofun)
  finished before := second.finished ((first.unfinished nofun).trans before)
  sim sound rest closes before locals c same := by
    refine (first.sim sound (second.grown.trans rest) (fun no => absurd rfl no) before locals c same).bind ?_
    rintro ⟨locals', flow⟩ k c1 leaves
    cases flow with
    | ret v => exact .pure leaves
    | next =>
      obtain ⟨⟨rfl, same1⟩, unfinished⟩ := leaves
      exact second.sim sound rest closes unfinished locals' c1 same1

theorem evalStmts_single (m : Meaning ω) (locals : Locals) (stmt : Stmt) :
    m.evalStmts locals [stmt] = m.executor.stmt locals stmt := by
  have same : ∀ result : Locals × Flow,
      (match result.2 with
        | .next => m.evalStmts result.1 []
        | .ret v => pure (result.1, .ret v)) = (pure result : Eval ω (Locals × Flow)) := by
    rintro ⟨locals', flow⟩
    cases flow <;> rfl
  exact (bind_congr same).trans (bind_pure _)

theorem Performs.inside {tail : Tail} {vars : List VarDecl} {targets : List String}
    {x : Locals → Eval ω (Locals × Flow)} {b b' : Body}
    (performs : w.Performs tail.inside vars targets x b b') : w.Performs tail vars targets x b b' where
  toDeclares := performs.toDeclares
  scalars := performs.scalars
  grows := performs.grows
  unfinished _ := performs.unfinished (inside_ne_body tail)
  finished := performs.finished
  sim sound rest closes := performs.sim sound rest fun inside => closes (ne_no_of_inside inside)

theorem Lowers.acts (lowers : w.Lowers e b v b') (tidy : Tidy w.scope b) :
    w.Acts [] (fun locals => do let _ ← w.meaning.eval locals e; return locals) b
      { b' with pool := v.leave b'.pool } := by
  have steady := lowers.delivers.steady.trans (.setPool b' (v.leave b'.pool))
  refine .of_steady tidy steady (lowers.delivers.spare.le_leave lowers.delivers.placed lowers.delivers.pool) ?_
  intro sound rest locals c same
  have rest1 := (Precedes.of_steady (.setPool b' (v.leave b'.pool))).trans rest
  refine (lowers.sim sound rest1 locals c same).bind ?_
  rintro answer k c1 ⟨rfl, -, keeps⟩
  exact .pure ⟨rfl, (same.keeps tidy keeps).steady steady⟩

variable {otherwise : Otherwise}

theorem eq_absent (absent : otherwise.isAbsent = true) : otherwise = .absent := by
  cases otherwise with
  | absent => rfl
  | elif _ | orElse _ => cases absent

theorem emits_forks {scope : Scope} (tail : Tail) {body : Block} (span : Span)
    {tests : Label → Body → Unit → Body → Prop} {only first second : Body → Unit → Body → Prop}
    (condition : ∀ label, Emits (emitCondition scope cond label) (tests label))
    (alone : Emits (emitBlock scope tail.inside body) only) (block : Emits (emitBlock scope .no body) first)
    (other : Emits (emitOtherwise scope tail.inside otherwise) second) :
    Emits (emitConditional scope tail (.mk cond body otherwise span)) fun b _ b' => ∃ b1, b1.errors = b.errors ∧
      tests b.code.newLabel.1 { b with code := b.code.newLabel.2 } () b1 ∧
      ((otherwise.isAbsent = true ∧ ∃ b2, only b1 () b2 ∧
          b' = { b2 with code := b2.code.bind b.code.newLabel.1 }) ∨
        ∃ b2 b3 b4, b3.errors = b.errors ∧ first { b1 with code := b1.code.newLabel.2 } () b2 ∧
          Skips (blockEndsInReturn body) b1.code.newLabel.1 b2 b3 ∧
          second { b3 with code := b3.code.bind b.code.newLabel.1 } () b4 ∧
          b' = { b4 with code := b4.code.bind b1.code.newLabel.1 }) := by
  have ends : ∀ label label' : Label, Emits
      (do
        onCode (·.bind label)
        emitOtherwise scope tail.inside otherwise
        onCode (·.bind label')) _ := fun label label' =>
    .bind (emits_onCode (·.bind label)).counted fun _ => .bind other fun _ => emits_onCode (·.bind label')
  refine .mono (.bind emits_newLabel.counted fun label => .bind (condition label).counted fun _ => .ite
    (.bind alone fun _ => emits_onCode _)
    (.bind emits_newLabel.counted fun label' => .bind block.counted fun _ => .ite
      (.bind (emits_onCode _).counted fun _ => ends label label') (ends label label'))) ?_
  rintro b _ b' ⟨_, _, ⟨same0, rfl, rfl⟩, _, b1, ⟨same1, tests⟩, ⟨absent, _, b2, only, rfl⟩ |
    ⟨-, _, _, ⟨same2, rfl, rfl⟩, _, b2, ⟨same3, first⟩, rest⟩⟩
  · exact ⟨b1, same1.trans same0, tests, .inl ⟨absent, b2, only, rfl⟩⟩
  · have same := same3.trans (same2.trans (same1.trans same0))
    obtain ⟨falls, _, _, ⟨-, rfl⟩, _, _, ⟨-, rfl⟩, _, b4, second, rfl⟩ |
      ⟨leaves, _, _, ⟨-, rfl⟩, _, b4, second, rfl⟩ := rest
    · exact ⟨b1, same1.trans same0, tests, .inr ⟨b2, { b2 with code := b2.code.jump .always b1.code.newLabel.1 },
        b4, same, first, .jump (by simpa using falls), second, rfl⟩⟩
    · exact ⟨b1, same1.trans same0, tests, .inr ⟨b2, b2, b4, same, first, .nothing (by simpa using leaves), second,
        rfl⟩⟩

variable (regular : Regular w.scope)
include regular

set_option linter.unusedSectionVars false in
mutual

theorem emits_emitStmt (tail : Tail) : (stmt : Stmt) → Emits (emitStmt w.scope tail stmt) fun b _ b' => b.errors = 0 →
      Tidy w.scope b → w.Performs tail stmt.vars stmt.targets (w.meaning.executor.stmt · stmt) b b' ∧
        Walks w.scope w.meaning stmt.stores (stmt.Ordered w.meaning.owns) (w.meaning.StmtTyped w.scope.ret stmt)
          b.locals b'.locals
  | .var var =>
    .mono (emits_emitVar regular var) fun _ _ _ done _ tidy => ⟨(done tidy).1.performs nofun, (done tidy).2⟩
  | .assign target value span => by
    refine .mono (emits_emitAssign regular target value span) fun _ _ _ done _ tidy => ?_
    obtain ⟨scalars, acts, walks⟩ := done tidy
    exact ⟨acts.performs scalars, walks⟩
  | .ret value span => .mono (emits_emitReturn regular value span tail) fun _ _ _ done _ tidy => done tidy
  | .branch chain => emits_emitConditional tail chain
  | .block body => by
    refine .mono (emits_emitBlock tail.inside body) ?_
    exact fun _ _ _ done clean tidy => ⟨(done clean tidy).1.inside, (done clean tidy).2⟩
  | .expr e span => by
    refine .mono (.bind (emits_lowerExpr regular e) fun v => emits_drop v) ?_
    rintro b _ b' ⟨v, b1, lowers, rfl⟩ - tidy
    have performs : w.Performs tail [] [] _ _ _ := ((lowers tidy).acts tidy).performs nofun
    simp only [bind_assoc, pure_bind] at performs
    exact ⟨performs, .of_legible (lowers tidy).delivers.steady.locals (lowers tidy).reads.legible⟩

theorem emits_emitStmts (tail : Tail) :
    (stmts : List Stmt) → Emits (emitStmts w.scope tail stmts) fun b _ b' => b.errors = 0 → Tidy w.scope b →
      w.Performs tail (Stmt.listVars stmts) (Stmt.listTargets stmts)
        (w.meaning.evalStmts · stmts) b b' ∧
      Walks w.scope w.meaning (Stmt.listStores stmts) (Stmt.ListOrdered w.meaning.owns · stmts)
        (w.meaning.StmtsTyped w.scope.ret stmts) b.locals b'.locals
  | [] => by
    refine .mono (.of_pure ()) ?_
    rintro b _ b' ⟨-, rfl⟩ - tidy
    exact ⟨.nil tidy, .nothing _⟩
  | [stmt] => by
    refine .mono (.bind emits_atLimit fun _ => .ite (.of_pure ())
      (.bind (emits_emitStmt tail stmt) fun _ => .of_pure ())) ?_
    rintro b _ b' ⟨_, _, ⟨rfl, below⟩, ⟨limited, -⟩ | ⟨-, _, _, performs, -, rfl⟩⟩ clean tidy
    · rw [below clean] at limited
      cases limited
    · obtain ⟨performs, walks⟩ := performs clean tidy
      simp only [evalStmts_single, Stmt.listVars, Stmt.listTargets, append_nil]
      exact ⟨performs, walks.seq (.nothing _)⟩
  | stmt :: stmt' :: stmts => by
    refine .mono (.bind emits_atLimit fun _ => .ite (.of_pure ())
      (.bind (emits_emitStmt .no stmt).counted fun _ =>
        emits_emitStmts tail (stmt' :: stmts))) ?_
    rintro b _ b' ⟨_, _, ⟨rfl, below⟩, ⟨limited, -⟩ | ⟨-, _, b1, ⟨same, first⟩, second⟩⟩ clean tidy
    · rw [below clean] at limited
      cases limited
    · obtain ⟨first, walks⟩ := first clean tidy
      obtain ⟨second, walks'⟩ := second (same.trans clean) first.tidy
      exact ⟨first.seq second, walks.seq walks'⟩

theorem emits_emitBlock (tail : Tail) :
    (body : Block) → Emits (emitBlock w.scope tail body) fun b _ b' => b.errors = 0 → Tidy w.scope b →
      w.Performs tail body.vars body.targets (w.meaning.executor.block · body) b b' ∧
        Walks w.scope w.meaning body.stores (body.Ordered w.meaning.owns) (w.meaning.BlockTyped w.scope.ret body)
          b.locals b'.locals
  | .mk stmts _ => emits_emitStmts tail stmts

theorem emits_emitConditional (tail : Tail) :
    (chain : Conditional) → Emits (emitConditional w.scope tail chain) fun b _ b' => b.errors = 0 → Tidy w.scope b →
      w.Performs tail chain.vars chain.targets (w.meaning.executor.conditional · chain) b b' ∧
      Walks w.scope w.meaning chain.stores (chain.Ordered w.meaning.owns)
        (w.meaning.ConditionalTyped w.scope.ret chain) b.locals b'.locals
  | .mk cond body otherwise span => by
    refine .mono (emits_forks tail span (emits_emitCondition regular cond)
      (emits_emitBlock tail.inside body) (emits_emitBlock .no body)
      (emits_emitOtherwise tail.inside otherwise)) ?_
    rintro b _ b' ⟨b1, same1, tests, rest⟩ clean tidy
    have made : Steady b { b with code := b.code.newLabel.2 } := .setCode (.newLabel _)
    have tidy0 := tidy.steady made le_rfl
    obtain ⟨tests, legible⟩ := tests tidy0
    have read := Walks.of_legible tests.steady.locals legible
    have tidy1 := tidy0.steady tests.steady tests.pool
    have clean1 := same1.trans clean
    obtain ⟨absent, b2, block, rfl⟩ | ⟨b2, b3, b4, same2, block, skips, other, rfl⟩ := rest
    · obtain rfl := eq_absent absent
      obtain ⟨block, walks⟩ := block clean1 tidy1
      have performs := Performs.ifThen tidy tests block
      simp only [Conditional.vars, Otherwise.vars, Conditional.targets, Otherwise.targets, append_nil]
      exact ⟨performs, .conditional span read walks (.nothing _)⟩
    · have made1 : Steady b1 { b1 with code := b1.code.newLabel.2 } := .setCode (.newLabel _)
      obtain ⟨block, walks⟩ := block clean1 (tidy1.steady made1 le_rfl)
      have returning : blockEndsInReturn body = true →
          ∀ locals, Always Returning (w.meaning.executor.block locals body) := fun ends locals =>
        returning_block w.meaning locals body (blockReturns_of_endsInReturn body ends)
      have tidy3 := block.tidy.steady skips.steady skips.pool
      obtain ⟨other, walks'⟩ := other (same2.trans clean)
        ⟨tidy3.slot, tidy3.home, tidy3.apart, tidy3.small, tidy3.few⟩
      dsimp only at walks'
      rw [skips.steady.locals] at walks'
      exact ⟨.ifElse tidy tests block returning skips other, .conditional span read walks walks'⟩

theorem emits_emitOtherwise (tail : Tail) :
    (otherwise : Otherwise) → Emits (emitOtherwise w.scope tail otherwise) fun b _ b' =>
      b.errors = 0 → Tidy w.scope b →
      w.Performs tail otherwise.vars otherwise.targets
        (w.meaning.executor.otherwise · otherwise) b b' ∧
      Walks w.scope w.meaning otherwise.stores (otherwise.Ordered w.meaning.owns)
        (w.meaning.OtherwiseTyped w.scope.ret otherwise) b.locals b'.locals
  | .absent => by
    refine .mono (.of_pure ()) ?_
    rintro b _ b' ⟨-, rfl⟩ - tidy
    exact ⟨.nil tidy, .nothing _⟩
  | .elif chain => emits_emitConditional tail chain
  | .orElse body => emits_emitBlock tail body

end

end Setting

end Emission

end RegisterLang
