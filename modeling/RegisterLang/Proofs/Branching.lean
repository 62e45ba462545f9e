import RegisterLang.Proofs.Levels
import RegisterLang.Proofs.Passing

/-! # Branches on comparisons

A conditional on a comparison jumps over its first block when the opposite comparison holds. Main statement:
`emitConditional_branches`, it goes on with the first block when the comparison holds, and also when operands
of an order have none because one of them is not a number.
-/

namespace RegisterLang

open Machine Evaluation

namespace BinOp

/-- Whether a conditional on a comparison goes on with its first block. -/
def takesFirst (op : BinOp) (order : Option Ordering) : Bool :=
  op.holdsOn order || (order.isNone && op ≠ .eq && op ≠ .notEq)

theorem takesFirst_eq {op : BinOp} (comparison : op.isComparison = true) (order : Option Ordering) :
    op.takesFirst order = !op.inverse.holdsOn order := by
  cases op <;> cases comparison <;> obtain _ | (_ | _ | _) := order <;> rfl

end BinOp

theorem Machine.Link.Sim.of_effectless {σ ω α β : Type} {l : Link σ ω} {k : Nat} {c : Core σ} {a : α}
    {post : α → Nat → Core σ → Prop} (sim : l.Sim k c (Pure.pure a) post) (b : β) :
    l.Sim k c (Pure.pure b) fun v k' c' => v = b ∧ post a k' c' := by
  intro s same consistent
  obtain limited | ⟨v, k', s', ⟨used, -, yields⟩, went, kept, holds⟩ |
    ⟨t, fault, s', culprit, ⟨used, -, yields⟩, -⟩ := sim s same consistent
  · exact .inl limited
  · have store : l.store c = l.store s'.core := congrArg (·.2.1) (yields [])
    cases (congrArg Prod.fst (yields []) : Except.ok a = Except.ok v)
    exact .inr (.inl ⟨b, k', s', (Gives.pure b c).of_store rfl store, went, kept, rfl, holds⟩)
  · cases (congrArg Prod.fst (yields []) : Except.ok a = Except.error _)

namespace Emission

open CodeBuffer

variable {σ ω : Type} {source : SourceText} {settings : EmitSettings} {program : Program}

namespace Setting

variable {w : Setting σ ω}

/-- The code of a comparison in a conditional computes both operands and then decides. -/
theorem emits_comparison (regular : Regular w.scope) {op : BinOp} (comparison : op.isComparison = true)
    (l r : Expr) (span : Span) (label : Label) :
    Emits (emitCondition w.scope (.binary op l r span) label) fun b _ b' => Tidy w.scope b → ∃ ty,
      (w.Sound → Precedes w.scope b' w.last →
        Evaluation.commonType? (w.meaning.describe l) (w.meaning.describe r) = some ty) ∧ w.Tests (fun locals => do
          let x ← w.meaning.value locals l
          let y ← w.meaning.value locals r
          return (x, y)) (fun a => op.takesFirst (order? ty.numKind a.1 a.2)) label b b' := by
  refine .mono (.bind (emits_operands (emits_lowerExpr regular l) (emits_lowerExpr regular r)
    fun x y => emits_applyBinary w.scope op x y span) fun v => emits_tested w.scope v label _) ?_
  rintro b _ b' ⟨v, b3, operands, tested⟩ tidy
  obtain ⟨x, y, b1, b2, operands, placed, applied⟩ := operands tidy
  have second := operands.second
  obtain ⟨ty, applied⟩ := applied operands.first.delivers.found second.delivers.found placed second.delivers.placed
  have lowers := Lowers.binary operands applied span tidy
  have tested := tested lowers.delivers.found lowers.delivers.placed
  have precedes : Precedes w.scope b3 b' := .of_steady tested.steady
  refine ⟨ty, fun sound rest => operands.commonType? applied sound (precedes.trans rest),
    lowers.delivers.steady.trans tested.steady, tested.pool lowers.delivers.pool lowers.delivers.spare, ?_⟩
  intro sound rest target bound locals c same
  refine operands.sim applied tidy sound (precedes.trans rest) same fun c' x y sim => ?_
  have no_arith : op.arith? = none := by cases op <;> first | rfl | cases comparison
  simp only [Evaluation.applyBinary, no_arith, ← BinOp.takesFirst_eq comparison] at sim
  rw [← bind_pure (pure (x, y))]
  refine (sim.of_effectless (x, y)).bind ?_
  rintro _ _ c1 ⟨rfl, rfl, answers, keeps⟩
  refine ((tested.sim (rest.code.trans sound.code) bound answers).of_effectless (x, y)).mono ?_
  rintro _ _ c2 ⟨rfl, rfl, keeps'⟩
  exact ⟨rfl, keeps.trans (keeps'.mono lowers.delivers.pool)⟩

end Setting

/-- The code between `b` and `b'` holds the code of two blocks, one behind the other. -/
structure TwoBlocks (scope : Scope) (tail : Tail) (first second : Block) (b b₁ b₁' b₂ b₂' b' : Body) :
    Prop where
  before : b.code.Within b₁.code
  first : (emitBlock scope .no first).run b₁ = .ok ((), b₁')
  between : b₁'.code.Within b₂.code
  second : (emitBlock scope tail.inside second).run b₂ = .ok ((), b₂')
  behind : b₂'.code.Within b'.code

/-- A conditional on a comparison computes both operands, and goes on with the code of its first block when the
comparison holds in the order of their common type, or when it asks for an order that they do not have; otherwise
it goes on with the code of its second block. -/
theorem emitConditional_branches {w : Setting σ ω} (run : FunctionRun source settings program w) {op : BinOp}
    (comparison : op.isComparison = true) {l r : Expr} {first second : Block} {span span' : Span} {tail : Tail}
    {b b' : Body} (ran : (emitConditional w.scope tail
      (.mk (.binary op l r span) first (.orElse second) span')).run b = .ok ((), b'))
    (clean : b.errors = 0) (clean' : b'.errors = 0) (tidy : Tidy w.scope b) (rest : Extends w.scope b' w.last) :
    ∃ ty b₁ b₁' b₂ b₂', TwoBlocks w.scope tail first second b b₁ b₁' b₂ b₂' b' ∧
      Evaluation.commonType? (w.meaning.describe l) (w.meaning.describe r) = some ty ∧
      ∀ locals c, w.Matches b locals c → w.link.Sim b.pos c (do
          let x ← w.meaning.value locals l
          let y ← w.meaning.value locals r
          return (x, y)) fun v k c' =>
            if op.takesFirst (order? ty.numKind v.1 v.2) then k = b₁.pos ∧ w.Matches b₁ locals c'
            else k = b₂.pos ∧ w.Matches b₂ locals c' := by
  have regular := run.regular
  have sound := run.sound
  obtain ⟨-, emitted⟩ := Setting.emits_forks tail span' (Setting.emits_comparison regular comparison l r span)
    (Setting.emits_emitBlock regular tail.inside first) (Setting.emits_emitBlock regular .no first).ran
    (Setting.emits_emitOtherwise regular tail.inside (.orElse second)).ran b () b' ran
  obtain ⟨b₁, same₁, tests, ⟨⟨⟩, -⟩ | ⟨b₂, b₃, b₄, same₂, ⟨ran₁, block⟩, skips, ⟨ran₂, other⟩, rfl⟩⟩ :=
    emitted (clean'.trans clean.symm)
  have made : Steady b { b with code := b.code.newLabel.2 } := .setCode (.newLabel _)
  have made₁ : Steady b₁ { b₁ with code := b₁.code.newLabel.2 } := .setCode (.newLabel _)
  have tidy₀ := tidy.steady made le_rfl
  obtain ⟨ty, common, tests⟩ := tests tidy₀
  have tidy₁ := (tidy₀.steady tests.steady tests.pool).steady made₁ le_rfl
  obtain ⟨block, -⟩ := block (same₁.trans clean) tidy₁
  have tidy₃ := block.tidy.steady skips.steady skips.pool
  obtain ⟨other, -⟩ := other (same₂.trans clean) ⟨tidy₃.slot, tidy₃.home, tidy₃.apart, tidy₃.small, tidy₃.few⟩
  have grows₃ := block.grows.trans skips.steady.code
  obtain ⟨unbound, -⟩ := fresh_newLabel ((tests.steady.code.trans made₁.code).trans grows₃)
  obtain ⟨unbound', -⟩ := Setting.fresh_second tests.steady.code grows₃ other.grows
  have rest₃ := other.grown.trans ((Setting.Declares.bound other.tidy unbound').grown.trans rest)
  have before := (made.trans tests.steady).trans made₁
  have rest₂ := (Precedes.of_steady skips.steady).trans
    (((Setting.Declares.bound tidy₃ unbound).grown.trans rest₃).toPrecedes)
  have rest₁ := (Precedes.of_steady made₁).trans (block.grown.toPrecedes.trans rest₂)
  refine ⟨ty, _, b₂, _, b₄, ⟨before.code.within, ran₁, skips.steady.code.within.trans (within_bind unbound), ran₂,
    within_bind unbound'⟩, common sound rest₁, fun locals c same => ?_⟩
  exact tests.branches tidy block skips sound rest₃ same

theorem emitConditional_branches_forked : ∃ (w : Setting Unit Unit) (b b' b₁ b₁' b₂ b₂' : Body) (s s' : State Unit),
    FunctionRun default {} lastProgram w ∧ (emitConditional w.scope .body forked).run b = .ok ((), b') ∧
      TwoBlocks w.scope .body (calling 1) (calling 2) b b₁ b₁' b₂ b₂' b' ∧ w.Matches b (bindParams [] []) s.core ∧
      w.link.code.Reaches b.pos s b₁.pos s' ∧ w.Matches b₁ (bindParams [] []) s'.core := by
  obtain ⟨w, first, run, ran, errors, errors', tidy, unlimited, s, empty, same⟩ := exists_run_procedure "Main"
    (.branch forked) (List.mem_cons_of_mem _ (List.mem_cons_of_mem _ (List.mem_cons_self ..)))
  change (emitConditional w.scope .body forked).run first = _ at ran
  obtain ⟨ty, b₁, b₁', b₂, b₂', blocks, common, all⟩ :=
    emitConditional_branches run rfl ran errors errors' tidy (.refl _ _)
  cases common
  obtain ⟨k, s', reaches, taken⟩ := (all _ _ same).reaches unlimited (fun _ _ => rfl) rfl
    (empty ▸ ArrayHeap.consistent_empty)
  change if BinOp.less.takesFirst (order? .signed 0 1) then _ else _ at taken
  rw [if_pos (by decide)] at taken
  obtain ⟨rfl, same'⟩ := taken
  exact ⟨w, first, w.last, b₁, b₁', b₂, b₂', s, s', run, ran, blocks, same, reaches, same'⟩

end Emission

/-- A comparison of one with the bits of a number that is none. -/
def notANumber : SourceText where
  name := "nan"
  text := "fn Main(): Int \x7b var bits: Any = 0x7ff8000000000000; var x: Float = bits; " ++
    "if x < 1.0 \x7b return 1; \x7d else \x7b return 2; \x7d \x7d"

/-- The comparison is false, and the first block runs. -/
theorem executeMain_notANumber : BinOp.less.holdsOn (order? .float 0x7ff8000000000000 0x3ff0000000000000) = false ∧
      resultOf notANumber .standard = some 1 := by
  decide +kernel

end RegisterLang
