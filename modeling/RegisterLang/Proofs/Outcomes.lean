import RegisterLang.Emission.Stmt
import RegisterLang.Proofs.Evaluation
import RegisterLang.Proofs.Heap

/-! # What evaluations can give

An expression that calls no function leaves the store as it is, and statements that return on every path
never run off their end.
-/

namespace RegisterLang.Evaluation

open Emission (containsCall stmtReturns stmtsReturn blockReturns conditionalReturns otherwiseReturns
  stmtEndsInReturn stmtsEndInReturn blockEndsInReturn)

variable {ω α β : Type}

/-! ## Evaluations that change nothing -/

/-- An evaluation that leaves the store as it is. -/
def Quiet (x : Eval ω α) : Prop :=
  ∀ store choices, (x store choices).2.1 = store

namespace Quiet

theorem pure (a : α) : Quiet (Pure.pure a : Eval ω α) :=
  fun _ _ => rfl

theorem stop (reason : Stop) : Quiet (Eval.stop reason : Eval ω α) :=
  fun _ _ => rfl

theorem bind {x : Eval ω α} {f : α → Eval ω β} (first : Quiet x) (second : ∀ a, Quiet (f a)) : Quiet (x >>= f) := by
  intro store choices
  change (Eval.bind x f store choices).2.1 = store
  have same := first store choices
  rw [Eval.bind]
  revert same
  obtain ⟨r | a, store', choices'⟩ := x store choices
  all_goals intro same
  · exact same
  · exact (second a store' choices').trans same

theorem getGlobal (index : Nat) : Quiet (Eval.getGlobal index : Eval ω Value) := by
  intro store choices
  rw [Eval.getGlobal]
  split <;> rfl

theorem readElement (array index : Value) : Quiet (Evaluation.readElement array index : Eval ω Value) := by
  intro store choices
  rw [Evaluation.readElement, Eval.onArrays]
  have same := ArrayHeap.get_snd store.arrays array.handle index
  generalize store.arrays.get array.handle index = result at same ⊢
  rcases result with ⟨fault | v, arrays⟩
  · exact congrArg (fun arrays => { store with arrays }) same
  · exact congrArg (fun arrays => { store with arrays }) same

theorem get (x : Answer) : Quiet (x.get : Eval ω Value) := by
  cases x with
  | value v => exact .pure v
  | nothing | comparison _ => exact .stop _

theorem applyBinary (op : BinOp) (ty : Ty) (a b : Value) :
    Quiet (Evaluation.applyBinary op ty a b : Eval ω Answer) := by
  rw [Evaluation.applyBinary]
  split
  · exact .pure _
  split
  · exact .pure _
  · exact .stop _

variable {m : Meaning ω} (unassigned : ∀ ty, Quiet (m.unassigned ty))
include unassigned

theorem readName (locals : Locals) (name : String) : Quiet (m.readName locals name) := by
  rw [Meaning.readName]
  split
  · rw [Meaning.readLocal]
    split
    · exact .pure _
    · exact unassigned _
  split
  · exact getGlobal _
  split
  · exact .pure _
  · exact .stop _

theorem eval (locals : Locals) : (e : Expr) → containsCall e = false → Quiet (m.eval locals e)
  | .int _ _, _ | .float _ _, _ | .str _ _, _ => .pure _
  | .name id _, _ => .bind (readName unassigned locals id) fun _ => .pure _
  | .group inner _, plain => eval locals inner plain
  | .binary op l r _, plain => by
    simp only [containsCall, Bool.or_eq_false_iff] at plain
    refine .bind (eval locals l plain.1) fun x => .bind (get x) fun a =>
      .bind (eval locals r plain.2) fun y => .bind (get y) fun b => ?_
    split
    · exact applyBinary op _ a b
    · exact .stop _
  | .unary .neg operand _, plain =>
    .bind (eval locals operand plain) fun x => .bind (get x) fun _ => .pure _
  | .unary .not _ _, _ => .stop _
  | .index array position _, plain => by
    simp only [containsCall, Bool.or_eq_false_iff] at plain
    exact .bind (eval locals array plain.1) fun x => .bind (get x) fun a =>
      .bind (eval locals position plain.2) fun y => .bind (get y) fun i =>
      .bind (readElement a i) fun _ => .pure _
  | .list _ _, _ | .dot _ _ _, _ => .stop _

theorem value (locals : Locals) {e : Expr} (plain : containsCall e = false) : Quiet (m.value locals e) :=
  .bind (eval unassigned locals e plain) get

end Quiet

/-! ## Statements that return -/

/-- An evaluation whose results all have a property. -/
def Always (holds : α → Prop) (x : Eval ω α) : Prop :=
  ∀ store choices a, (x store choices).1 = .ok a → holds a

namespace Always

theorem pure {holds : α → Prop} {a : α} (here : holds a) : Always holds (Pure.pure a : Eval ω α) := by
  rintro store choices _ ⟨⟩
  exact here

theorem bind {holds : β → Prop} {known : α → Prop} {x : Eval ω α} {f : α → Eval ω β}
    (first : Always known x) (second : ∀ a, known a → Always holds (f a)) : Always holds (x >>= f) := by
  intro store choices c given
  change (Eval.bind x f store choices).1 = .ok c at given
  rw [Eval.bind] at given
  cases ran : x store choices with
  | mk r rest =>
    cases r with
    | error reason =>
      rw [ran] at given
      cases given
    | ok a =>
      rw [ran] at given
      exact second a (first store choices a (by rw [ran])) _ _ c given

theorem trivial (x : Eval ω α) : Always (fun _ => True) x :=
  fun _ _ _ _ => True.intro

end Always

/-- The flow of a statement that returns. -/
def Returning (result : Locals × Flow) : Prop :=
  ∃ v, result.2 = .ret v

variable (m : Meaning ω)

mutual

theorem returning_stmt (locals : Locals) :
    (stmt : Stmt) → stmtReturns stmt = true → Always Returning (m.executor.stmt locals stmt)
  | .ret none _, _ => .pure ⟨0, rfl⟩
  | .ret (some _) _, _ => .bind (.trivial _) fun v _ => .pure ⟨v, rfl⟩
  | .block body, returns => returning_block locals body returns
  | .branch chain, returns => returning_conditional locals chain returns

theorem returning_stmts (locals : Locals) :
    (stmts : List Stmt) → stmtsReturn stmts = true → Always Returning (m.evalStmts locals stmts)
  | stmt :: stmts, returns => by
    rw [stmtsReturn, Bool.or_eq_true] at returns
    rw [Meaning.evalStmts, Executor.stmts]
    obtain here | later := returns
    · refine .bind (returning_stmt locals stmt here) ?_
      rintro ⟨locals', flow⟩ ⟨v, rfl⟩
      exact .pure ⟨v, rfl⟩
    · refine .bind (.trivial _) ?_
      rintro ⟨locals', flow⟩ -
      cases flow with
      | next => exact returning_stmts locals' stmts later
      | ret v => exact .pure ⟨v, rfl⟩

theorem returning_block (locals : Locals) :
    (body : Block) → blockReturns body = true → Always Returning (m.executor.block locals body)
  | .mk stmts _, returns => returning_stmts locals stmts returns

theorem returning_conditional (locals : Locals) : (chain : Conditional) → conditionalReturns chain = true →
      Always Returning (m.executor.conditional locals chain)
  | .mk cond body otherwise _, returns => by
    rw [conditionalReturns, Bool.and_eq_true] at returns
    rw [Executor.conditional]
    refine .bind (.trivial _) fun first _ => ?_
    split
    · exact returning_block locals body returns.1
    · exact returning_otherwise locals otherwise returns.2

theorem returning_otherwise (locals : Locals) : (otherwise : Otherwise) → otherwiseReturns otherwise = true →
      Always Returning (m.executor.otherwise locals otherwise)
  | .elif chain, returns => returning_conditional locals chain returns
  | .orElse body, returns => returning_block locals body returns

end

mutual

theorem stmtReturns_of_endsInReturn : (stmt : Stmt) → stmtEndsInReturn stmt = true → stmtReturns stmt = true
  | .ret _ _, _ => rfl
  | .block body, ends => blockReturns_of_endsInReturn body ends

theorem stmtsReturn_of_endInReturn : (stmts : List Stmt) → stmtsEndInReturn stmts = true → stmtsReturn stmts = true
  | [stmt], ends => by
    rw [stmtsReturn, stmtReturns_of_endsInReturn stmt ends, Bool.true_or]
  | stmt :: stmt' :: stmts, ends => by
    rw [stmtsReturn, stmtsReturn_of_endInReturn (stmt' :: stmts) ends, Bool.or_true]

theorem blockReturns_of_endsInReturn : (body : Block) → blockEndsInReturn body = true → blockReturns body = true
  | .mk stmts _, ends => stmtsReturn_of_endInReturn stmts ends

end

end RegisterLang.Evaluation
