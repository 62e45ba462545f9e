import RegisterLang.Proofs.Operators
import RegisterLang.Proofs.Outcomes
import RegisterLang.Proofs.Setting

/-! # Values of expressions

What it means that the code of an expression does what its evaluation does, for the leaves of the tree and
for two operands in a row. A global that waits while a call is made is read before the call.
-/

namespace RegisterLang

open Machine Evaluation

namespace Emission

open CodeBuffer

variable {σ ω : Type} {b b' : Body} {e : Expr} {v : Lowered}

namespace Setting

variable (w : Setting σ ω)

/-- What is known of the code of an expression before it runs. -/
structure Shapes (e : Expr) (b : Body) (v : Lowered) (b' : Body) : Prop where
  delivers : Delivers b.pool b v b'
  inside : ∀ k, v.place = .slot k → k.toNat < w.scope.stackArgs + b.localReserve
  global : ∀ i, v.place = .global i → v.ty.isArray = false
  reads : Reads w.scope w.meaning e v b.locals

/-- The code of an expression does what evaluation does. -/
structure Lowers (e : Expr) (b : Body) (v : Lowered) (b' : Body) : Prop extends
    w.Shapes e b v b' where
  sim : w.Sound → Precedes w.scope b' w.last → ∀ locals c, w.Matches b locals c →
    w.link.Sim b.pos c (w.meaning.eval locals e) (Arrives w.link.code b.pool c b' v)

/-- The run has got behind the code of a value that is needed. -/
def Finds (p : RegisterPool) (c : Core σ) (b' : Body) (v : Lowered) (x : Value) (k : Nat)
    (c' : Core σ) : Prop :=
  k = b'.pos ∧ v.Holds w.link.code c' x ∧ Keeps p c c'

/-- The code of an expression whose value is needed does what evaluation does. -/
structure Computes (e : Expr) (b : Body) (v : Lowered) (b' : Body) : Prop extends
    w.Shapes e b v b' where
  sim : w.Sound → Precedes w.scope b' w.last → ∀ locals c, w.Matches b locals c →
    w.link.Sim b.pos c (w.meaning.value locals e) (w.Finds b.pool c b' v)

end Setting

/-! ## Values that are needed -/

theorem emits_asValue (scope : Scope) (span : Span) (v : Lowered) : Emits (asValue scope span v) fun b v' b' =>
      v' = v ∧ b' = b ∧ v.place ≠ .flags ∧ v.place ≠ .nothing := by
  rw [asValue]
  split
  · exact emits_reject scope _ _ span
  · exact emits_reject scope _ _ span
  · next other other' =>
    refine .mono (.of_pure v) ?_
    rintro b v' b' ⟨rfl, rfl⟩
    exact ⟨rfl, rfl, other, other'⟩

theorem Setting.Lowers.computes {w : Setting σ ω} (lowers : w.Lowers e b v b') (no_flags : v.place ≠ .flags)
    (something : v.place ≠ .nothing) : w.Computes e b v b' where
  toShapes := lowers.toShapes
  sim sound rest locals c same := by
    refine (lowers.sim sound rest locals c same).bind ?_
    rintro answer k c' ⟨rfl, answers, keeps⟩
    cases answer with
    | value x => exact .pure ⟨rfl, answers, keeps⟩
    | nothing => exact absurd answers something
    | comparison first => exact absurd answers.1 no_flags

/-! ## Reading a global early -/

/-- A value was moved out of the way of the evaluation of `later`. -/
structure ReadEarly (v : Lowered) (later : Expr) (b : Body) (v' : Lowered) (b' : Body) : Prop where
  steady : Steady b b'
  pool : b.pool ≤ b'.pool
  ty : v'.ty = v.ty
  isLiteral : v'.isLiteral = v.isLiteral
  placed : Placed b' v'
  spare : ∀ p, p ≤ b.pool → Spare p v → Spare p v'
  found : v.place ≠ .failed → v'.place ≠ .failed
  slot : ∀ k, v'.place = .slot k → v.place = .slot k
  global : ∀ i, v'.place = .global i → v.place = .global i
  safe : ∀ i, v'.place = .global i → containsCall later = false
  runs : ∀ {σ : Type} (a : Activation σ) (c : Core σ) (x : Value), b'.code.Within a.buffer →
    v.Holds a c x → ∃ c', a.Goes b.pos c b'.pos c' ∧ v'.Holds a c' x ∧ Still b.pool c c'

theorem ReadEarly.refl {later : Expr} (placed : Placed b v)
    (safe : ∀ i, v.place = .global i → containsCall later = false) : ReadEarly v later b v b where
  steady := .refl b
  pool := le_refl _
  ty := rfl
  isLiteral := rfl
  placed := placed
  spare _ _ spare := spare
  found found := found
  slot _ here := here
  global _ here := here
  safe := safe
  runs _ c _ _ holds := ⟨c, .refl _ c, holds, .refl _ c⟩

/-- Where the value of an operand is. -/
def Operand.place : Operand → Place
  | .owned r => .temporary r
  | .borrowed r => .home r

theorem ReadEarly.of_fetches {later : Expr} {o : Operand} (fetches : Fetches v b o b')
    (variable_ : v.isLiteral = false) : ReadEarly v later b ⟨o.place, v.ty, none⟩ b' where
  steady := fetches.steady
  pool := fetches.pool
  ty := rfl
  isLiteral := by
    rw [variable_]
    cases o <;> rfl
  placed q here := by
    have taken := fetches.taken
    obtain _ | _ := o <;> obtain ⟨⟨⟩⟩ | ⟨⟨⟩⟩ := here <;> exact taken
  spare p le spare q here := by
    cases o with
    | owned r =>
      cases here
      exact fetches.spare spare le q rfl
    | borrowed r => cases here
  found _ := by cases o <;> exact nofun
  slot k here := by cases o <;> cases here
  global i here := by cases o <;> cases here
  safe i here := by cases o <;> cases here
  runs a c x within holds := by
    obtain ⟨c', went, read, still⟩ := fetches.runs a c x within holds
    exact ⟨c', went, by cases o <;> exact read, still⟩

theorem emits_readBefore (scope : Scope) (v : Lowered) (later : Expr) :
    Emits (readBefore scope v later) fun b v' b' => Placed b v → ReadEarly v later b v' b' := by
  have moves : ∀ o : Operand, Emits
      (match o with
        | .owned reg => return (⟨.temporary reg, v.ty, none⟩ : Lowered)
        | .borrowed reg => return (⟨.home reg, v.ty, none⟩ : Lowered))
      fun b v' b' => v' = ⟨o.place, v.ty, none⟩ ∧ b' = b := by
    intro o
    cases o with
    | owned _ | borrowed _ => exact .of_pure _
  rw [readBefore]
  split
  · next index place =>
    refine .of_ite (fun _ => .mono (.bind (emits_operand scope v) moves) ?_) fun plain =>
      .mono (.of_pure v) ?_
    · rintro b v' b' ⟨o, b1, fetches, rfl, rfl⟩ placed
      refine .of_fetches (fetches placed) ?_
      simp [Lowered.isLiteral, Lowered.intConstant?, place]
    · rintro b v' b' ⟨rfl, rfl⟩ placed
      exact .refl placed fun _ _ => Bool.eq_false_iff.2 plain
  · next other =>
    refine .mono (.of_pure v) ?_
    rintro b v' b' ⟨rfl, rfl⟩ placed
    exact .refl placed fun i here => absurd here (other i)

/-! ## Operands in a row -/

namespace Setting

variable {w : Setting σ ω}

theorem Shapes.grown (shapes : w.Shapes e b v b') : Precedes w.scope b b' :=
  .of_steady shapes.delivers.steady

theorem Shapes.described (shapes : w.Shapes e b v b') (sound : w.Sound) (rest : Precedes w.scope b' w.last) :
    w.meaning.describe e = ⟨v.ty, v.isLiteral⟩ :=
  shapes.reads.described (sound.sees (shapes.grown.trans rest))

theorem Shapes.tidy {e : Expr} {b b' : Body} {v : Lowered} (shapes : w.Shapes e b v b')
    (tidy : Tidy w.scope b) : Tidy w.scope b' :=
  tidy.steady shapes.delivers.steady shapes.delivers.pool

theorem Computes.early {e later : Expr} {b b1 b2 : Body} {v v' : Lowered}
    (computes : w.Computes e b v b1) (early : ReadEarly v later b1 v' b2) : w.Computes e b v' b2 where
  delivers := {
    steady := computes.delivers.steady.trans early.steady
    pool := le_trans computes.delivers.pool early.pool
    placed := early.placed
    spare := early.spare b.pool computes.delivers.pool computes.delivers.spare
    found := early.found computes.delivers.found }
  inside k here := computes.inside k (early.slot k here)
  global i here := early.ty ▸ computes.global i (early.global i here)
  reads := computes.reads.congr early.ty early.isLiteral
  sim sound rest locals c same := by
    have grown : Precedes w.scope b1 b2 := .of_steady early.steady
    refine (computes.sim sound (grown.trans rest) locals c same).then_goes ?_
    rintro x k c' ⟨rfl, holds, keeps⟩
    obtain ⟨c'', went, holds', still⟩ :=
      early.runs w.link.code c' x (rest.code.trans sound.code) holds
    exact ⟨_, c'', went, still.store, rfl, holds', keeps.trans (still.mono computes.delivers.pool).keeps⟩

theorem Shapes.apart {e' : Expr} {b1 b2 : Body} {l r : Lowered} (first : w.Shapes e b l b1)
    (second : w.Shapes e' b1 r b2) : Apart l r := by
  intro q here here'
  have used := first.delivers.placed q (.inl here)
  rw [second.delivers.spare q here'] at used
  cases used

theorem Computes.sim_quiet (computes : w.Computes e b v b') (sound : w.Sound) (rest : Precedes w.scope b' w.last)
    {locals : Locals} {c : Core σ} (same : w.Matches b locals c) :
    w.link.Sim b.pos c (w.meaning.value locals e) fun x k c' => w.Finds b.pool c b' v x k c' ∧
      (containsCall e = false → w.link.store c' = w.link.store c) := by
  refine (computes.sim sound rest locals c same).also
    (fun _ store => containsCall e = false → store = w.link.store c) ?_
  intro used y store yields plain
  have quiet := Quiet.value sound.quiet locals plain (w.link.store c) (used ++ [])
  rw [yields []] at quiet
  exact quiet

theorem Computes.sim_pair {e' : Expr} {b1 b2 : Body} {l r : Lowered} (first : w.Computes e b l b1)
    (second : w.Computes e' b1 r b2) (sound : w.Sound) (tidy : Tidy w.scope b)
    (safe : ∀ i, l.place = .global i → containsCall e' = false) (rest : Precedes w.scope b2 w.last) {locals : Locals}
    {c : Core σ} (same : w.Matches b locals c) {α : Type} {f : Value → Value → Eval ω α}
    {post : α → Nat → Core σ → Prop}
    (next : ∀ c' x y, Keeps b.pool c c' → l.Holds w.link.code c' x → r.Holds w.link.code c' y →
      w.link.Sim b2.pos c' (f x y) post) : w.link.Sim b.pos c (do
      let x ← w.meaning.value locals e
      let y ← w.meaning.value locals e'
      f x y) post := by
  refine (first.sim sound (second.grown.trans rest) locals c same).bind ?_
  rintro x k c1 ⟨rfl, holds, keeps⟩
  have same1 := (same.keeps tidy keeps).steady first.delivers.steady
  refine (second.sim_quiet sound rest same1).bind ?_
  rintro y k c2 ⟨⟨rfl, holds', keeps'⟩, quiet⟩
  refine next c2 x y (keeps.trans (keeps'.mono first.delivers.pool)) ?_ holds'
  refine holds.keeps first.delivers.placed keeps' fun i here => ?_
  exact congrArg Store.globals (quiet (safe i here))

end Setting

/-! ## Leaves -/

theorem Delivers.leaf (placed : Placed b v) (not_temporary : ∀ r, v.place ≠ .temporary r) (found : v.place ≠ .failed) :
    Delivers b.pool b v b where
  steady := .refl b
  pool := le_refl _
  placed := placed
  spare r here := absurd here (not_temporary r)
  found := found

/-- Where a local is. -/
def Storage.place : Storage → Place
  | .register r => .home r
  | .stack k => .slot k

namespace Setting

variable {w : Setting σ ω} {x : String}

theorem lowers_constant {bits : UInt64} {ty : Ty} {x : Value} (steady : Steady b b') (pool : b'.pool = b.pool)
    (code : b'.code = b.code) (reads : Reads w.scope w.meaning e (.constant bits ty) b.locals)
    (means : w.Sound → Precedes w.scope b' w.last → ConstantIs w.link.code.env.image bits ty x ∧
      ∀ locals, w.meaning.eval locals e = pure (.value x)) : w.Lowers e b (.constant bits ty) b' where
  delivers := ⟨steady, by rw [pool], by rintro r (⟨⟨⟩⟩ | ⟨⟨⟩⟩),
    by rintro r ⟨⟩, by rintro ⟨⟩⟩
  inside := by rintro k ⟨⟩
  global := by rintro i ⟨⟩
  reads := reads
  sim sound rest locals c same := by
    obtain ⟨constant, evaluates⟩ := means sound rest
    rw [evaluates]
    refine .pure ⟨?_, constant, .refl _ c⟩
    rw [Body.pos, Body.pos, code]

theorem lowers_local (tidy : Tidy w.scope b) {l : Local} (span : Span) (found : b.locals.lookup? x = some l)
    (initialized : l.initialized = true) : w.Lowers (.name x span) b ⟨l.storage.place, l.ty, none⟩ b where
  delivers := by
    refine .leaf ?_ ?_ ?_
    · rintro r (here | here)
      · cases at_r : l.storage <;> rw [at_r] at here <;> cases here
      · cases at_r : l.storage with
        | register r' =>
          rw [at_r] at here
          cases here
          exact tidy.home x l r found at_r
        | stack k => rw [at_r] at here; cases here
    · intro r here
      cases at_r : l.storage <;> rw [at_r] at here <;> cases here
    · intro here
      cases at_r : l.storage <;> rw [at_r] at here <;> cases here
  inside k here := by
    cases at_k : l.storage with
    | register r => rw [at_k] at here; cases here
    | stack k' =>
      rw [at_k] at here
      cases here
      exact tidy.slot x l k found at_k
  global i here := by
    cases at_i : l.storage <;> rw [at_i] at here <;> cases here
  reads := .of_local found initialized (by cases l.storage <;> rfl) span
  sim sound rest locals c same := by
    have local_eq := (sound.sees rest).local_some x l found
    -- What is read is what is there, whether or not evaluation has stored it.
    have reads : ∃ v, w.link.Gives c (w.meaning.readName locals x) (.ok v) c ∧
        Lowered.Holds w.link.code c ⟨l.storage.place, l.ty, none⟩ v := by
      simp only [Meaning.readName, local_eq, Meaning.readLocal]
      cases stored : locals x with
      | some v =>
        refine ⟨v, .pure v c, ?_⟩
        cases at_r : l.storage with
        | register r => exact same.home x l r v found at_r stored
        | stack k =>
          have here := same.slot x l k found at_r
          rw [stored] at here
          exact here
      | none =>
        cases at_r : l.storage with
        | register r =>
          exact ⟨c.reg r, sound.unassigned c l.ty _ (.inr (same.assigned x l r found at_r stored)), rfl⟩
        | stack k =>
          have here := same.slot x l k found at_r
          rw [stored] at here
          exact ⟨0, sound.unassigned c l.ty 0 (.inl rfl), here⟩
    obtain ⟨v, given, holds⟩ := reads
    exact .bind_gives given (.pure ⟨rfl, holds, .refl _ c⟩)

theorem lowers_global (regular : Regular w.scope) {i : Nat} {g : Global} (span : Span)
    (missing : b.locals.lookup? x = none) (at_i : w.scope.decls.globals.find? x = some i)
    (found : w.scope.decls.globals.lookup? x = some g) :
    w.Lowers (.name x span) b ⟨.global (UInt32.ofNat i), g.ty, none⟩ b := by
  refine ⟨⟨.leaf ?_ ?_ ?_, ?_, ?_, .of_global missing at_i found span⟩, fun sound rest locals c same => ?_⟩
  · rintro r (⟨⟨⟩⟩ | ⟨⟨⟩⟩)
  · rintro r ⟨⟩
  · rintro ⟨⟩
  · rintro k ⟨⟩
  · exact fun _ _ => regular.scalar x g found
  · have local_eq := (sound.sees rest).local_none x missing (.inl (by rw [found]; exact nofun))
    have global_eq := sound.names.global_some x i g at_i found
    have small := sound.few x i at_i
    have index : (UInt32.ofNat i).toNat = i := UInt32.toNat_ofNat_of_lt' small
    have inside : i < c.globals.size := by
      rw [same.globals]
      exact SymbolTable.lt_of_find? at_i
    have given : w.link.Gives c (w.meaning.readName locals x) (.ok c.globals[i]) c := by
      refine ⟨[], fun _ => rfl, fun more => ?_⟩
      simp only [Meaning.readName, local_eq, global_eq,
        Eval.getGlobal, Link.store, Array.getElem?_eq_getElem inside, List.nil_append]
    refine .bind_gives given (.pure ⟨rfl, ?_, .refl _ c⟩)
    change c.globals[(UInt32.ofNat i).toNat]? = some c.globals[i]
    rw [index, Array.getElem?_eq_getElem inside]

theorem lowers_const {k : ConstValue} (span : Span) (missing : b.locals.lookup? x = none)
    (no_global : w.scope.decls.globals.lookup? x = none) (found : w.scope.decls.consts.lookup? x = some k) :
    w.Lowers (.name x span) b (.constant k.bits k.ty) b := by
  refine lowers_constant (x := w.meaning.constValue k) (.refl b) rfl rfl (.of_const missing no_global found span)
    fun sound rest => ⟨?_, fun locals => ?_⟩
  · rw [ConstantIs, Meaning.constValue]
    split
    · next string => exact sound.const_string x k found string
    · rfl
  · have sees := sound.sees rest
    have other := sees.local_none x missing (.inr (by rw [found]; exact Option.some_ne_none k))
    simp only [Meaning.eval, Meaning.readName, other, sees.global_none x no_global, sees.const_eq, found]
    rfl

theorem emits_lowerName (regular : Regular w.scope) (x : String) (span : Span) :
    Emits (lowerName w.scope x span) fun b v b' =>
      Tidy w.scope b → w.Lowers (.name x span) b v b' := by
  refine .mono (.bind .of_get fun b0 => (?_ : Emits _ fun b v b' =>
    b0 = b → Tidy w.scope b → w.Lowers (.name x span) b v b')) ?_
  · split
    · next l found =>
      refine .of_ite (fun _ => emits_reject w.scope _ _ span) fun initialized => ?_
      have here : ∀ place, l.storage.place = place → Emits (pure (⟨place, l.ty, none⟩ : Lowered))
          fun b v b' => b0 = b → Tidy w.scope b → w.Lowers (.name x span) b v b' := by
        rintro _ rfl
        refine .mono (.of_pure _) ?_
        rintro b v b' ⟨rfl, rfl⟩ rfl tidy
        exact lowers_local tidy span found (by simpa using initialized)
      split
      · next r at_r => exact here _ (by rw [at_r]; rfl)
      · next k at_k => exact here _ (by rw [at_k]; rfl)
    · next missing =>
      split
      · next index g at_i found =>
        refine .mono (.of_pure _) ?_
        rintro b v b' ⟨rfl, rfl⟩ rfl tidy
        exact lowers_global regular span missing at_i found
      · next other =>
        have no_global : w.scope.decls.globals.lookup? x = none := by
          cases found : w.scope.decls.globals.lookup? x with
          | none => rfl
          | some g =>
            obtain ⟨i, at_i, -⟩ := SymbolTable.lookup?_eq_some.1 found
            exact absurd found (other i g at_i)
        split
        · next c found =>
          refine .mono (.of_pure _) ?_
          rintro b v b' ⟨rfl, rfl⟩ rfl tidy
          exact lowers_const span missing no_global found
        · exact emits_reject w.scope _ _ span
  · rintro b v b' ⟨_, _, ⟨rfl, rfl⟩, lowers⟩ tidy
    exact lowers rfl tidy

theorem emits_lowerString (text : String) (span : Span) :
    Emits (lowerString w.scope text span) fun b v b' => w.Lowers (.str text span) b v b' := by
  intro b v b' ran
  obtain ⟨rfl, rfl⟩ :
      v = .constant (b.strings.intern w.scope.source text span).1.toUInt64 .constString ∧
      b' = { b with strings := (b.strings.intern w.scope.source text span).2 } := by
    cases ran
    exact ⟨rfl, rfl⟩
  refine ⟨Strings.totalErrors_intern .., fun clean => ?_⟩
  obtain ⟨-, table, i, index, first⟩ := Strings.interned clean
  refine lowers_constant (x := w.meaning.text text) ⟨rfl, rfl, rfl, rfl, .refl _, table⟩ rfl rfl
    (.of_literal rfl rfl trivial) fun sound rest => ⟨?_, fun _ => rfl⟩
  obtain ⟨more, grown⟩ := rest.table.append
  have found := Strings.findIdx?_append first more
  rw [← grown] at found
  obtain ⟨address, small, inside⟩ := sound.text text i found
  have low : (b.strings.intern w.scope.source text span).1.toNat = i := by
    rw [index]
    exact UInt32.toNat_ofNat_of_lt' small
  have string : Ty.constString.isConstString = true := by decide
  rw [ConstantIs, UInt32.toUInt32_toUInt64, low]
  exact ⟨inside, address⟩

end Setting

end Emission

end RegisterLang
