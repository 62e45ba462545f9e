import RegisterLang.Proofs.Calls
import RegisterLang.Proofs.Elements

/-! # Expressions

Main statement: `emits_lowerExpr`, the code of an expression does what its evaluation does.
-/

namespace RegisterLang

open Machine Evaluation

namespace Emission

open CodeBuffer

variable {σ ω : Type} {w : Setting σ ω} {v : Lowered}

theorem Arrives.after {a : Activation σ} {p : RegisterPool} {c c' c'' : Core σ} {b' : Body} {answer : Answer}
    {k : Nat} (arrives : Arrives a p c' b' v answer k c'') (keeps : Keeps p c c') : Arrives a p c b' v answer k c'' :=
  ⟨arrives.1, arrives.2.1, keeps.trans arrives.2.2⟩

namespace Setting

/-! ## Operators -/

/-- Two values are computed one after the other; the first one does not change in between. -/
structure Operands (w : Setting σ ω) (left right : Expr) (b : Body) (l : Lowered) (b₁ : Body) (r : Lowered)
    (b₂ : Body) : Prop where
  first : w.Computes left b l b₁
  safe : ∀ i, l.place = .global i → containsCall right = false
  second : w.Computes right b₁ r b₂

section Binary

variable {op : BinOp} {left right : Expr} {b b1 b2 b' : Body} {l r v : Lowered} {ty : Ty}
  (operands : w.Operands left right b l b1 r b2) (applied : Applied op l r b2 ty v b')

include operands applied

theorem Operands.delivers : Delivers b.pool b2 v b' :=
  applied.delivers (le_trans operands.first.delivers.pool operands.second.delivers.pool)
    operands.second.delivers.placed operands.first.delivers.spare
    (operands.second.delivers.spare.mono operands.first.delivers.pool)
    (operands.first.apart operands.second.toShapes)

theorem Operands.commonType? (sound : w.Sound) (rest : Precedes w.scope b' w.last) :
    Evaluation.commonType? (w.meaning.describe left) (w.meaning.describe right) = some ty := by
  have rest2 := (Precedes.of_steady (operands.delivers applied).steady).trans rest
  rw [operands.first.described sound (operands.second.grown.trans rest2), operands.second.described sound rest2]
  exact applied.common

/-- The code behind two operands may do whatever follows what the operator does. -/
theorem Operands.sim (tidy : Tidy w.scope b) (sound : w.Sound) (rest : Precedes w.scope b' w.last)
    {locals : Locals} {c : Core σ} (same : w.Matches b locals c) {α : Type} {f : Value → Value → Eval ω α}
    {post : α → Nat → Core σ → Prop} (next : ∀ c' x y, w.link.Sim b2.pos c' (Evaluation.applyBinary op ty x y)
      (Arrives w.link.code b.pool c b' v) → w.link.Sim b2.pos c' (f x y) post) : w.link.Sim b.pos c (do
      let x ← w.meaning.value locals left
      let y ← w.meaning.value locals right
      f x y) post := by
  have rest2 := (Precedes.of_steady (operands.delivers applied).steady).trans rest
  obtain ⟨first, safe, second⟩ := operands
  refine first.sim_pair second sound tidy safe rest2 same fun c' x y keeps holds holds' => next c' x y ?_
  exact (applied.sim (le_trans first.delivers.pool second.delivers.pool)
    second.delivers.placed first.delivers.spare (rest.code.trans sound.code) holds holds').mono
    fun _ _ _ done => done.after keeps

theorem Lowers.binary (span : Span) (tidy : Tidy w.scope b) : w.Lowers (.binary op left right span) b v b' := by
  have delivers := operands.delivers applied
  have steady := (operands.first.delivers.steady.trans operands.second.delivers.steady).trans delivers.steady
  have reads := operands.first.reads.binary span (operands.first.delivers.steady.locals ▸ operands.second.reads)
    applied.common applied.described
  refine ⟨⟨⟨steady, delivers.pool, delivers.placed, delivers.spare, delivers.found⟩, ?_, ?_, reads⟩, ?_⟩
  · exact fun k here => absurd here (applied.not_slot k)
  · exact fun i here => absurd here (applied.not_global i)
  · intro sound rest locals c same
    have unfolded : w.meaning.eval locals (.binary op left right span) = (do
        let x ← w.meaning.value locals left
        let y ← w.meaning.value locals right
        Evaluation.applyBinary op ty x y) := by
      simp only [Meaning.eval, Meaning.value, bind_assoc, operands.commonType? applied sound rest]
    rw [unfolded]
    exact operands.sim applied tidy sound rest same fun _ _ _ sim => sim

end Binary

theorem Lowers.index {array position : Expr} {b b1 b2 b' : Body} {l r : Lowered} (span : Span)
    (operands : w.Operands array position b l b1 r b2) (read : ElementRead l r b2 v b') (tidy : Tidy w.scope b) :
    w.Lowers (.index array position span) b v b' := by
  obtain ⟨first, safe, second⟩ := operands
  have le := le_trans first.delivers.pool second.delivers.pool
  have spare' := second.delivers.spare.mono first.delivers.pool
  have delivers := read.delivers le first.delivers.spare spare'
  have steady := (first.delivers.steady.trans second.delivers.steady).trans delivers.steady
  have reads := first.reads.index (v := v) span (first.delivers.steady.locals ▸ second.reads)
    (by cases read with | mk _ _ _ isArray => exact isArray) (by cases read; exact ⟨rfl, rfl⟩)
  refine ⟨⟨⟨steady, delivers.pool, delivers.placed, delivers.spare, delivers.found⟩, ?_, ?_, reads⟩, ?_⟩
  · intro k here
    cases read
    cases here
  · intro i here
    cases read
    cases here
  · intro sound rest locals c same
    have rest2 := (Precedes.of_steady delivers.steady).trans rest
    have unfolded : w.meaning.eval locals (.index array position span) = do
        let x ← w.meaning.value locals array
        let y ← w.meaning.value locals position
        let v ← Evaluation.readElement x y
        return .value v := by
      simp only [Meaning.eval, Meaning.value, bind_assoc]
    rw [unfolded]
    refine first.sim_pair second sound tidy safe rest2 same fun c' x y keeps holds holds' => ?_
    exact (read.sim le second.delivers.placed (rest.code.trans sound.code) holds
      holds').mono fun _ _ _ done => done.after keeps

theorem eval_peel (m : Meaning ω) (locals : Locals) : (e : Expr) → m.eval locals e.peel = m.eval locals e
  | .group inner _ => by
    exact eval_peel m locals inner
  | .int .. | .float .. | .str .. | .name .. | .call .. | .binary .. | .unary .. | .dot ..
  | .list .. | .index .. => rfl

theorem describe_peel (m : Meaning ω) : (e : Expr) → m.describe e.peel = m.describe e
  | .group inner _ => by
    exact describe_peel m inner
  | .int .. | .float .. | .str .. | .name .. | .call .. | .binary .. | .unary .. | .dot ..
  | .list .. | .index .. => rfl

theorem eval_neg (m : Meaning ω) (locals : Locals) (operand : Expr) (span : Span) :
    m.eval locals (.unary .neg operand span) = (do
      let x ← m.value locals operand
      return .value (Evaluation.negate (m.describe operand).ty x)) := by
  simp only [Meaning.eval, Meaning.value, bind_assoc]

theorem Lowers.negatedLiteral {operand : Expr} {v : Lowered} (span : Span)
    (literal : negatedLiteral? operand = some v) (b : Body) : w.Lowers (.unary .neg operand span) b v b := by
  have value_eq : ∀ locals, w.meaning.value locals operand = w.meaning.value locals operand.peel :=
    fun locals => by rw [Meaning.value, Meaning.value, eval_peel]
  have reads : Reads w.scope w.meaning (.unary .neg operand span) v b.locals := .negatedLiteral span literal
  rw [negatedLiteral?] at literal
  split at literal
  · next x _ peeled =>
    cases literal
    refine lowers_constant (x := -x) (.refl b) rfl rfl reads fun _ _ => ⟨rfl, fun locals => ?_⟩
    rw [eval_neg, value_eq, ← describe_peel, peeled]
    rfl
  · next bits _ peeled =>
    cases literal
    refine lowers_constant (x := Binary64.negate bits) (.refl b) rfl rfl reads fun _ _ => ⟨rfl, fun locals => ?_⟩
    rw [eval_neg, value_eq, ← describe_peel, peeled]
    rfl
  · cases literal

theorem Lowers.negate {operand : Expr} {b b1 b' : Body} {v' : Lowered} (span : Span)
    (other : negatedLiteral? operand = none) (computes : w.Computes operand b v b1) (negated : Negated v b1 v' b') :
    w.Lowers (.unary .neg operand span) b v' b' := by
  have delivers := negated.delivers computes.delivers.pool computes.delivers.spare
  have steady := computes.delivers.steady.trans delivers.steady
  have result : v'.ty = .scalar v.ty.primitive ∧ v'.isLiteral = false := by
    cases negated
    exact ⟨rfl, rfl⟩
  have reads := computes.reads.negate span other result
  refine ⟨⟨⟨steady, delivers.pool, delivers.placed, delivers.spare, delivers.found⟩, ?_, ?_, reads⟩, ?_⟩
  · intro k here
    cases negated
    cases here
  · intro i here
    cases negated
    cases here
  · intro sound rest locals c same
    have rest1 := (Precedes.of_steady delivers.steady).trans rest
    rw [eval_neg, computes.described sound rest1]
    refine (computes.sim sound rest1 locals c same).bind ?_
    rintro x k c1 ⟨rfl, holds, keeps⟩
    exact (negated.sim computes.delivers.pool computes.delivers.spare
      (rest.code.trans sound.code) holds).mono fun _ _ _ done => done.after keeps

theorem Lowers.group {inner : Expr} {b b' : Body} (span : Span) (lowers : w.Lowers inner b v b') :
    w.Lowers (.group inner span) b v b' :=
  ⟨⟨lowers.delivers, lowers.inside, lowers.global,
    lowers.reads.known, lowers.reads.described, lowers.reads.typed⟩, lowers.sim⟩

/-! ## The walk over the tree -/

theorem emits_resolveCall (scope : Scope) (callee : Ident) (count : Nat) (span : Span) :
    Emits (resolveCall scope callee count span) fun b found b' => b' = b ∧
      ∃ index f, found = some (index, f) ∧ scope.decls.functions.find? callee.name = some index ∧
        scope.decls.functions.lookup? callee.name = some f ∧ f.params.length = count := by
  rw [resolveCall]
  split
  · next index f at_index found =>
    refine .of_ite (fun same => ?_) fun _ => ?_
    · refine .mono (.of_pure _) ?_
      rintro b _ b' ⟨rfl, rfl⟩
      exact ⟨rfl, index, f, rfl, at_index, found, same⟩
    · exact .bind_never (emits_complain scope _ _ _) fun _ => .of_pure _
  · exact .bind_never (emits_complain scope _ _ _) fun _ => .of_pure _

theorem emits_operands {left right : Expr} {next : Lowered → Lowered → EmitM Lowered}
    {does : Lowered → Lowered → Body → Lowered → Body → Prop}
    (first : Emits (lowerExpr w.scope left) fun b v b' => Tidy w.scope b → w.Lowers left b v b')
    (second : Emits (lowerExpr w.scope right) fun b v b' => Tidy w.scope b → w.Lowers right b v b')
    (rest : ∀ l r, Emits (next l r) (does l r)) : Emits (do
        let l ← lowerExpr w.scope left
        let l ← asValue w.scope left.span l
        let l ← readBefore w.scope l right
        let r ← lowerExpr w.scope right
        let r ← asValue w.scope right.span r
        next l r) fun b v b' => Tidy w.scope b → ∃ l r b1 b2, w.Operands left right b l b1 r b2 ∧ Placed b2 l ∧
        does l r b2 v b' := by
  refine .mono (.bind first fun l => .bind (emits_asValue _ _ l) fun l =>
    .bind (emits_readBefore _ l right) fun l => .bind second fun r =>
    .bind (emits_asValue _ _ r) fun r => rest l r) ?_
  rintro b v b' ⟨l, b1, first, _, _, ⟨rfl, rfl, flags, nothing⟩, l', b2, early, r, b3, second, _, _,
    ⟨rfl, rfl, flags', nothing'⟩, done⟩ tidy
  have first := (first tidy).computes flags nothing
  have early := early first.delivers.placed
  have first := first.early early
  have second := (second (first.tidy tidy)).computes flags' nothing'
  exact ⟨_, _, _, _, ⟨first, early.safe, second⟩, first.delivers.placed.mono second.delivers.pool, done⟩

theorem emits_lowerCall (callee : Ident) {es : List Expr} (span : Span)
    (args : ∀ n params, Emits (lowerArgs w.scope callee.name n 0 params es) fun b args b' =>
      n ≤ maxRegisterArgs → params.length = es.length → Tidy w.scope b →
        w.PlacesArgs n 0 es b args b' ∧ ArgumentsRead w.scope w.meaning params es b.locals) :
    Emits (lowerExpr w.scope (.call callee es span)) fun b v b' => Regular w.scope → Tidy w.scope b →
      ∃ index f, w.CallCode callee es index f b v b' := by
  refine .mono (.bind (emits_resolveCall w.scope callee es.length span) fun found => (?_ : Emits _
    fun b v b' => ∀ index f, found = some (index, f) → w.scope.decls.functions.find? callee.name = some index →
      w.scope.decls.functions.lookup? callee.name = some f → f.params.length = es.length →
      Regular w.scope → Tidy w.scope b → w.CallCode callee es index f b v b')) ?_
  · split
    · refine .mono (.of_pure _) ?_
      rintro b v b' - index f ⟨⟩
    · next index f =>
      refine .mono (.bind .of_get fun b0 => .bind (emits_pushAll _) fun _ =>
        .bind (args f.registerArgs f.params) fun placed => emits_finishCall _ index f.ret _ placed) ?_
      rintro _ v b' ⟨_, b, ⟨rfl, rfl⟩, _, b1, pushes, placed, b2, places, finished⟩ _ _ ⟨⟩ at_index
        found count regular tidy
      have small : ∀ r ∈ b.pool.allocated, r.toNat < registerCount :=
        fun r member => RegisterPool.lt_of_isAllocated (RegisterPool.mem_allocated.1 member)
      have few := regular.few callee.name f found
      have pushes := pushes small
      obtain ⟨places, read⟩ := places few count (tidy.steady pushes.steady (pushes.pool ▸ le_refl _))
      have finished := finished places.succeeded (fun r member => by
          obtain ⟨j, -, high, rfl⟩ := places.range r member
          exact argReg_small (by omega))
        (fun r v member => (places.direct r v member).1) small
      exact ⟨at_index, found, count, few, pushes, places, pushes.steady.locals ▸ read, finished⟩
  · rintro b v b' ⟨_, _, ⟨rfl, index, f, rfl, at_index, found, count⟩, code⟩ regular tidy
    exact ⟨index, f, code index f rfl at_index found count regular tidy⟩

variable (regular : Regular w.scope)
include regular

set_option linter.unusedSectionVars false in
mutual

theorem emits_lowerExpr : (e : Expr) → Emits (lowerExpr w.scope e) fun b v b' => Tidy w.scope b → w.Lowers e b v b'
  | .int _ _ | .float _ _ => by
    refine .mono (.of_pure _) ?_
    rintro b v b' ⟨rfl, rfl⟩ -
    exact lowers_constant (.refl _) rfl rfl (.of_literal rfl rfl trivial) fun _ _ => ⟨rfl, fun _ => rfl⟩
  | .str text span => .mono (emits_lowerString text span) fun _ _ _ lowers _ => lowers
  | .name x span => emits_lowerName regular x span
  | .group inner span =>
    .mono (emits_lowerExpr inner) fun _ _ _ lowers tidy => .group span (lowers tidy)
  | .binary op left right span => by
    refine .mono (emits_operands (emits_lowerExpr left) (emits_lowerExpr right)
      fun l r => emits_applyBinary w.scope op l r span) ?_
    rintro b v b' operands tidy
    obtain ⟨l, r, b1, b2, operands, placed, applied⟩ := operands tidy
    obtain ⟨ty, applied⟩ := applied operands.first.delivers.found operands.second.delivers.found placed
      operands.second.delivers.placed
    exact .binary operands applied span tidy
  | .unary .not _ span => emits_reject w.scope _ _ span
  | .unary .neg operand span => by
    rw [lowerExpr]
    split
    · next v literal =>
      refine .mono (.of_pure v) ?_
      rintro b v b' ⟨rfl, rfl⟩ -
      exact .negatedLiteral span literal _
    · next other =>
      refine .mono (.bind (emits_lowerExpr operand) fun v => .bind (emits_asValue _ _ v)
        fun v => emits_negateValue _ v span) ?_
      rintro b v' b' ⟨v, b1, lowers, _, _, ⟨rfl, rfl, flags, nothing⟩, negated⟩ tidy
      have computes := (lowers tidy).computes flags nothing
      exact .negate span other computes (negated computes.delivers.found computes.delivers.placed)
  | .index array position span => by
    refine .mono (emits_operands (emits_lowerExpr array) (emits_lowerExpr position)
      fun l r => emits_readElement w.scope l r span) ?_
    rintro b v b' operands tidy
    obtain ⟨l, r, b1, b2, operands, placed, read⟩ := operands tidy
    exact .index span operands (read operands.first.delivers.found operands.second.delivers.found placed
      operands.second.delivers.placed) tidy
  | .list _ span => emits_reject w.scope _ _ span
  | .dot _ field _ => emits_reject w.scope _ _ field.span
  | .call callee args span =>
    .mono (emits_lowerCall callee span fun n params =>
      emits_lowerArgs callee.name n 0 params args) fun _ _ _ code tidy => by
      obtain ⟨index, f, code⟩ := code regular tidy
      exact .call span code tidy

/-- The code of arguments computes them, the last one first, and leaves them waiting. -/
theorem emits_lowerArgs (callee : String) (n : Nat) : (i : Nat) → (params : List Ty) → (es : List Expr) →
    Emits (lowerArgs w.scope callee n i params es) fun b args b' => n ≤ maxRegisterArgs →
      params.length = es.length → Tidy w.scope b →
        w.PlacesArgs n i es b args b' ∧ ArgumentsRead w.scope w.meaning params es b.locals
  | i, expected :: params, e :: es => by
    refine .mono (.bind (emits_lowerArgs callee n (i + 1) params es) fun args =>
      .bind (emits_lowerExpr e) fun v => .bind (emits_asValue _ _ v) fun v =>
      emits_placeArgument _ callee n i expected _ v args) ?_
    rintro b args' b' ⟨args, b1, places, v, b2, lowers, _, _, ⟨rfl, rfl, flags, nothing⟩, placed⟩ few count tidy
    obtain ⟨places, read⟩ := places few (Nat.succ.inj count) tidy
    have computes := (lowers (tidy.steady places.steady places.pool)).computes flags nothing
    obtain ⟨accepts, placed⟩ := placed computes.delivers.found computes.delivers.placed
    exact ⟨places.cons computes placed few tidy, .cons (places.steady.locals ▸ computes.reads) accepts read⟩
  | i, [], [] => by
    refine .mono (.of_pure _) ?_
    rintro b args b' ⟨rfl, rfl⟩ - - -
    exact ⟨placesArgs_nil n i _, .nil⟩
  | _, _ :: _, [] | _, [], _ :: _ => by
    refine .mono (.of_pure _) ?_
    rintro b args b' - - ⟨⟩

end

theorem emits_lowerValue (e : Expr) :
    Emits (lowerValue w.scope e) fun b v b' => Tidy w.scope b → w.Computes e b v b' := by
  refine .mono (.bind (emits_lowerExpr regular e) fun v => emits_asValue _ _ v) ?_
  rintro b v b' ⟨_, b1, lowers, rfl, rfl, flags, nothing⟩ tidy
  exact (lowers tidy).computes flags nothing

end Setting

end Emission

end RegisterLang
