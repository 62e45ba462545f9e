import RegisterLang.Proofs.Locals

/-! # Declarations and assignments

Main statements: `emits_emitVar` and `emits_emitAssign`, the code of a declaration or an assignment does what
its evaluation does to the locals and the store.
-/

namespace RegisterLang

open Machine Evaluation RegisterPool VarDecl List

namespace Emission

open Instruction CodeBuffer

variable {σ ω : Type}

namespace Setting

variable {b : Body} {handle : UInt8} {x : Locals → Eval ω Locals} {items : List Expr} {pool : RegisterPool}

/-- The run has got behind the code of statements, and the locals hold what evaluation has stored. -/
def Behind (w : Setting σ ω) (b' : Body) (locals : Locals) (k : Nat) (c : Core σ) : Prop :=
  k = b'.pos ∧ w.Matches b' locals c

/-- The code of a statement that never returns does what evaluation does. -/
structure Acts (w : Setting σ ω) (vars : List VarDecl) (x : Locals → Eval ω Locals)
    (b b' : Body) : Prop extends Declares w.scope vars b b' where
  grows : b.code.Grows b'.code
  endJumps : b'.endJumps = b.endJumps
  isFinished : b'.isFinished = b.isFinished
  sim : w.Sound → Precedes w.scope b' w.last → ∀ locals c, w.Matches b locals c →
    w.link.Sim b.pos c (x locals) (w.Behind b')

variable {w : Setting σ ω} {b' b1 : Body} {i : Nat}

/-- A statement that declares nothing and leaves the places of locals alone. -/
theorem Acts.of_steady (tidy : Tidy w.scope b) (steady : Steady b b') (pool : b.pool ≤ b'.pool)
    (sim : w.Sound → Precedes w.scope b' w.last → ∀ locals c, w.Matches b locals c →
      w.link.Sim b.pos c (x locals) (w.Behind b')) : w.Acts [] x b b' where
  toDeclares := .of_steady tidy steady pool
  grows := steady.code
  endJumps := steady.endJumps
  isFinished := steady.isFinished
  sim := sim

variable {vars : List VarDecl}

theorem Acts.after {vars' : List VarDecl} (acts : w.Acts vars' x b1 b') (declares : Declares w.scope vars b b1)
    (code : b1.code = b.code) (endJumps : b1.endJumps = b.endJumps) (isFinished : b1.isFinished = b.isFinished) :
    w.Acts (vars ++ vars') x b b' where
  toDeclares := declares.trans acts.toDeclares
  grows := code ▸ acts.grows
  endJumps := acts.endJumps.trans endJumps
  isFinished := acts.isFinished.trans isFinished
  sim sound rest locals c same := by
    have rest1 := acts.grown.toPrecedes.trans rest
    have pos : b1.pos = b.pos := by rw [Body.pos, code, Body.pos]
    rw [← pos]
    exact acts.sim sound rest locals c (same.skip sound declares.grown declares.tidy rest1)

variable {name : String}

theorem Acts.marked {x : Locals → Eval ω Locals} {b b1 b' : Body}
    (acts : w.Acts vars x b b1) (marked : Marked name b1 b') : w.Acts vars x b b' where
  toDeclares := by
    have declares := acts.toDeclares.trans (marked.declares acts.tidy)
    rwa [append_nil] at declares
  grows := marked.code ▸ acts.grows
  endJumps := by rw [marked.body]; exact acts.endJumps
  isFinished := by rw [marked.body]; exact acts.isFinished
  sim sound rest locals c same := by
    have rest1 := (marked.declares acts.tidy).grown.toPrecedes.trans rest
    refine (acts.sim sound rest1 locals c same).mono ?_
    rintro locals' k c' ⟨rfl, same'⟩
    exact ⟨marked.pos.symm, same'.marked acts.tidy sound marked rest⟩

/-! ## Scalars -/

/-- Computing a value and storing it in a local, whatever is done when the value does not fit. -/
theorem emits_keepValue (regular : Regular w.scope) (e : Expr) (x : String) (storage : Storage)
    {fits : Lowered → Prop} [∀ v, Decidable (fits v)] {refuse : Lowered → EmitM Unit}
    (refuses : ∀ v, Emits (refuse v) fun _ _ _ => False) : Emits (do
        let v ← lowerValue w.scope e
        if (!v.isFailed) = true then
          if fits v then do
            storeLocal w.scope storage v
            markInitialized x
          else refuse v
        else markInitialized x)
      fun b _ b' => Tidy w.scope b → ∀ l, b.locals.lookup? x = some l → l.storage = storage →
        (l.ty.isConst = true → l.initialized = false) → w.Acts [] (fun locals => do
          let y ← w.meaning.value locals e
          return locals.set x y) b b' ∧
        Walks w.scope w.meaning [x] (AllStored w.meaning.owns · e.names) (w.meaning.Typed e) b.locals b'.locals := by
  refine .mono (.bind (emits_lowerValue regular e) fun v => .ite
    (.ite (.bind (emits_storeLocal w.scope storage v) fun _ => emits_markInitialized x) (refuses v))
    (emits_markInitialized x)) ?_
  rintro b _ b' ⟨v, b1, computes, rest⟩ tidy l found rfl free
  have computes := computes tidy
  obtain ⟨-, ⟨-, _, b2, stores, marked⟩ | ⟨-, impossible⟩⟩ | ⟨failed, -⟩ := rest
  · have stores := stores computes.delivers.placed fun r at_r =>
      lt_of_isAllocated (tidy.home x l r found at_r)
    have pool := stores.pool b.pool computes.delivers.pool computes.delivers.spare
    have steady := computes.delivers.steady.trans stores.steady
    have acts := Acts.marked (.of_steady tidy steady pool fun sound rest locals c same =>
      computes.sim_store stores sound tidy found rest same) marked
    exact ⟨acts, marked.walks acts.grown.toPrecedes steady.locals found free computes.reads.legible⟩
  · exact impossible.elim
  · simp [Lowered.isFailed, computes.delivers.found] at failed

/-- The code of a declaration does what evaluation does, and the locals in it are checked on the way. -/
def Introduces (w : Setting σ ω) (var : VarDecl) (b b' : Body) : Prop :=
  w.Acts [var] (fun locals => w.meaning.declare locals var) b b' ∧
    Walks w.scope w.meaning var.stores (AllStored w.meaning.owns · var.reads) (w.meaning.VarTyped var)
      b.locals b'.locals

theorem emits_emitScalar (regular : Regular w.scope) (var : VarDecl) :
    Emits (emitScalar w.scope var) fun b _ b' => Tidy w.scope b → Unused w.scope b var.name.name →
      var.ty.isArray = false → w.Introduces var b b' := by
  have refuses : ∀ (message : String) (v : Lowered) (span : Span), Emits
      (do
        complain w.scope .typeMismatch message span
        drop v
        markInitialized var.name.name) fun _ _ _ => False := fun message v span =>
    .bind_never (emits_complain w.scope _ message span) fun _ =>
      .bind (emits_drop v) fun _ => emits_markInitialized _
  rw [emitScalar]
  cases init : var.init with
  | none =>
    refine .mono (.bind (emits_placeLocal w.scope var.span) fun storage =>
      .bind (.of_modify fun _ => rfl) fun _ => .of_pure ()) ?_
    rintro b _ b' ⟨storage, b1, housed, _, _, rfl, -, rfl⟩ tidy unused scalar
    have fullTy : var.fullTy = var.ty := by simp [fullTy, scalar]
    have declares := housed.declares tidy unused fun _ _ => by rw [fullTy, scalar]
    rw [fullTy] at declares
    obtain ⟨-, code, -, endJumps, isFinished⟩ := housed.steady
    have stays : w.Acts [] (fun locals => w.meaning.declare locals var) _ _ :=
      .of_steady declares.tidy (.refl _) le_rfl fun _ _ locals c same => by
        simp only [Meaning.declare, scalar, init, Bool.false_eq_true, if_false]
        exact .pure ⟨rfl, same⟩
    have reads : var.reads = [] := by simp [reads, scalar, init]
    have stores : var.stores = [] := by simp [stores, scalar, init]
    rw [Introduces, reads, stores, Meaning.VarTyped, if_neg (ne_true_of_eq_false scalar)]
    refine ⟨stays.after declares code endJumps isFinished, housed.walks unused declares.grown.toPrecedes ?_⟩
    exact (Walks.nothing _).mono (fun _ _ => forall_mem_nil _) fun _ _ => by simp [init]
  | some e =>
    refine .mono (.bind (emits_placeLocal w.scope var.span) fun storage =>
      .bind (.of_modify fun _ => rfl) fun _ =>
      emits_keepValue regular e var.name.name storage fun v => refuses _ v e.span) ?_
    rintro b _ b' ⟨storage, b1, housed, _, _, rfl, keeps⟩ tidy unused scalar
    have fullTy : var.fullTy = var.ty := by simp [fullTy, scalar]
    have declares := housed.declares tidy unused fun _ _ => by rw [fullTy, scalar]
    rw [fullTy] at declares
    obtain ⟨-, code, -, endJumps, isFinished⟩ := housed.steady
    obtain ⟨acts, walks⟩ := keeps declares.tidy _ (by rw [SymbolTable.lookup?_add, if_pos rfl]) rfl fun _ => rfl
    have unfolded : (fun locals => w.meaning.declare locals var) = fun locals => do
        let y ← w.meaning.value locals e
        return locals.set var.name.name y := by
      funext locals
      simp only [Meaning.declare, scalar, init, Bool.false_eq_true, if_false]
    have reads : var.reads = e.names := by simp [reads, scalar, init]
    have stores : var.stores = [var.name.name] := by simp [stores, init]
    rw [Introduces, unfolded, reads, stores, Meaning.VarTyped, if_neg (ne_true_of_eq_false scalar)]
    refine ⟨acts.after declares code endJumps isFinished, housed.walks unused declares.grown.toPrecedes ?_⟩
    refine walks.mono (fun _ => id) fun _ typed e' same => ?_
    cases init.symm.trans same
    exact typed

/-! ## Arrays -/

/-- The code that stores the items of a list in the array in a register does what evaluation does. -/
structure StoresItems (w : Setting σ ω) (handle : UInt8) (i : Nat) (items : List Expr)
    (b b' : Body) : Prop where
  steady : Steady b b'
  pool : b.pool ≤ b'.pool
  sim : w.Sound → Precedes w.scope b' w.last → ∀ locals c, w.Matches b locals c →
    w.link.Sim b.pos c (w.meaning.fillArray locals (c.reg handle) i items)
      fun _ k c' => k = b'.pos ∧ Keeps b.pool c c'

theorem StoresItems.nil (handle : UInt8) (i : Nat) (b : Body) : w.StoresItems handle i [] b b :=
  ⟨.refl b, le_refl _, fun _ _ _ c _ => .pure ⟨rfl, .refl _ c⟩⟩

theorem StoresItems.append {item : Expr} (first : w.StoresItems handle i [item] b b1)
    (next : w.StoresItems handle (i + 1) items b1 b') (tidy : Tidy w.scope b)
    (held : b.pool.isAllocated handle = true) : w.StoresItems handle i (item :: items) b b' := by
  refine ⟨first.steady.trans next.steady, le_trans first.pool next.pool, ?_⟩
  intro sound rest locals c same
  have unfolded : w.meaning.fillArray locals (c.reg handle) i (item :: items) = (do
      w.meaning.fillArray locals (c.reg handle) i [item]
      w.meaning.fillArray locals (c.reg handle) (i + 1) items) := by
    simp only [Meaning.fillArray, bind_assoc, pure_bind]
  rw [unfolded]
  refine (first.sim sound ((Precedes.of_steady next.steady).trans rest) locals c same).bind ?_
  rintro _ k c1 ⟨rfl, keeps⟩
  have same1 := (same.keeps tidy keeps).steady first.steady
  rw [← keeps.regs handle held]
  refine (next.sim sound rest locals c1 same1).mono ?_
  rintro _ k c2 ⟨rfl, keeps'⟩
  exact ⟨rfl, keeps.trans (keeps'.mono first.pool)⟩

theorem StoresItems.single {index : UInt8} {item : Expr} {b2 : Body} {v : Lowered} {o : Operand}
    (held : b.pool.isAllocated handle = true) (computes : w.Computes item b v b1) (fetches : Fetches v b1 o b2)
    (taken : b2.pool.allocate? = some (index, pool)) : w.StoresItems handle i [item] b { b2 with
      code := (b2.code.loadInt index (UInt64.ofNat i)).emit (.arraySet handle index o.reg)
      pool := o.leave (pool.free index) } := by
  obtain ⟨member, free, used⟩ := allocate?_eq_some taken
  have index_small := (mem_candidates member).1
  have load_fits := encodable_intLoad index_small (UInt64.ofNat i)
  have set_fits := encodable_arraySet (lt_of_isAllocated held) index_small fetches.small
  have le2 := le_trans computes.delivers.pool fetches.pool
  have le3 : b.pool ≤ pool := fun q here => by simp only [used, le2 q here, ite_self]
  have stored : Steady b2 { b2 with
      code := (b2.code.loadInt index (UInt64.ofNat i)).emit (.arraySet handle index o.reg)
      pool := o.leave (pool.free index) } :=
    (Steady.setCode ((Grows.emit _ load_fits).trans (.emit _ set_fits))).trans (.setPool _ _)
  refine ⟨(computes.delivers.steady.trans fetches.steady).trans stored, ?_, ?_⟩
  · exact (fetches.spare computes.delivers.spare computes.delivers.pool).le_leave fetches.small
      (le_free le3 index_small (isAllocated_eq_false_of_le le2 free))
  intro sound rest locals c same
  have within := rest.code.trans sound.code
  have within_load := (Grows.emit _ set_fits).within.trans within
  have rest1 := (Precedes.of_steady (fetches.steady.trans stored)).trans rest
  refine (computes.sim sound rest1 locals c same).bind ?_
  rintro x k c1 ⟨rfl, holds, keeps⟩
  obtain ⟨c2, went, read, still⟩ :=
    fetches.runs w.link.code c1 x ((Grows.emit _ load_fits).within.trans within_load) holds
  have loaded := goes_emit (does_intLoad w.link.code index (UInt64.ofNat i) c2) within_load
  have sets := Sets.setReg c2 (UInt64.ofNat i) index_small
  generalize c2.setReg index (UInt64.ofNat i) = c3 at loaded sets
  have still3 := sets.still free
  have keeps3 := (keeps.trans (still.mono computes.delivers.pool).keeps).trans (still3.mono le2).keeps
  refine .goes (went.trans loaded) (still3.store.trans still.store) ?_
  have write := sim_arraySet (c := c3) within
  rw [keeps3.regs handle held, sets.value, still3.regs _ fetches.taken, read] at write
  refine write.bind ?_
  rintro _ k _ ⟨rfl, arrays, rfl⟩
  exact .pure ⟨rfl, keeps3.stack, keeps3.regs, keeps3.globals⟩

theorem emits_emitElements (regular : Regular w.scope) (name : String) (handle : UInt8) (elem : Ty) :
    (i : Nat) → (items : List Expr) →
    Emits (emitElements w.scope name handle elem i items) fun b _ b' => Tidy w.scope b →
      b.pool.isAllocated handle = true → w.StoresItems handle i items b b' ∧
        Legible w.scope w.meaning (Expr.listNames items) (w.meaning.ListTyped items) b.locals
  | i, [] => by
    refine .mono (.of_pure ()) ?_
    rintro b _ b' ⟨-, rfl⟩ - -
    exact ⟨.nil handle i b', forall_mem_nil _, fun _ => trivial⟩
  | i, item :: items => by
    have next := emits_emitElements regular name handle elem (i + 1) items
    refine .mono (.bind (emits_lowerValue regular item) fun v => .ite
      (.ite
        (.bind (emits_operand w.scope v) fun o => .bind (emits_allocate w.scope) fun index =>
          .bind (emits_onCode _) fun _ => .bind (emits_emitInsn _) fun _ =>
          .bind (emits_free index) fun _ => .bind (emits_release o) fun _ => next)
        (.bind (emits_complain w.scope _ _ item.span) fun _ => .bind (emits_drop v) fun _ => next))
      next) ?_
    rintro b _ b' ⟨v, b1, computes, rest⟩ tidy held
    have computes := computes tidy
    obtain ⟨-, ⟨-, o, b2, fetches, index, _, ⟨pool, taken, rfl⟩, _, _, rfl, _, _, rfl, _, _, rfl, _,
      _, rfl, next⟩ | ⟨-, _, _, impossible, -⟩⟩ | ⟨failed, -⟩ := rest
    · have first := StoresItems.single (i := i) held computes (fetches computes.delivers.placed) taken
      obtain ⟨next, known, typed⟩ := next (tidy.steady first.steady first.pool) (first.pool handle held)
      rw [first.steady.locals] at known typed
      exact ⟨first.append next tidy held, forall_mem_append.2 ⟨computes.reads.known, known⟩,
        fun sees => ⟨computes.reads.typed sees, typed sees⟩⟩
    · exact impossible.elim
    · simp [Lowered.isFailed, computes.delivers.found] at failed

variable {pool' : RegisterPool}

theorem steady_arrayNew {count : UInt8} (n : Nat)
    (taken : b.pool.allocate? = some (handle, pool)) (taken' : pool.allocate? = some (count, pool')) :
    Steady b { b with
      code := (b.code.loadInt count (UInt64.ofNat n)).emit (.arrayNew handle count)
      pool := pool'.free count } ∧
    b.pool ≤ pool'.free count ∧ (pool'.free count).isAllocated handle = true := by
  obtain ⟨member, -, used⟩ := allocate?_eq_some taken
  obtain ⟨member', free', used'⟩ := allocate?_eq_some taken'
  have handle_small := (mem_candidates member).1
  have count_small := (mem_candidates member').1
  have le : b.pool ≤ pool := fun q here => by simp only [used, here, ite_self]
  have le' : b.pool ≤ pool' := fun q here => by simp only [used', le q here, ite_self]
  refine ⟨?_, ?_, ?_⟩
  · exact (Steady.setCode ((Grows.emit _ (encodable_intLoad count_small _)).trans
      (.emit _ (.two handle_small count_small rfl)))).trans (.setPool _ _)
  · exact le_free le' count_small (isAllocated_eq_false_of_le le free')
  · have apart : handle ≠ count := by
      rintro rfl
      simp [used] at free'
    simp [isAllocated_free _ count_small, apart, used', used]

theorem Acts.createArray {l : Local} {slot : UInt16} {count : UInt8} {n : Nat}
    (tidy : Tidy w.scope b) (found : b.locals.lookup? name = some l) (at_slot : l.storage = .stack slot)
    (taken : b.pool.allocate? = some (handle, pool)) (taken' : pool.allocate? = some (count, pool'))
    (filled : w.StoresItems handle 0 items { b with
      code := (b.code.loadInt count (UInt64.ofNat n)).emit (.arrayNew handle count)
      pool := pool'.free count } b1) :
    w.Acts [] (fun locals => do
      let array ← Evaluation.createArray n
      w.meaning.fillArray locals array 0 items
      return locals.set name array) b { b1 with
        code := b1.code.emit (.localSet handle slot)
        pool := b1.pool.free handle } := by
  obtain ⟨made, le, held⟩ := steady_arrayNew n taken taken'
  obtain ⟨member, free, used⟩ := allocate?_eq_some taken
  obtain ⟨member', free', -⟩ := allocate?_eq_some taken'
  have handle_small := (mem_candidates member).1
  have count_small := (mem_candidates member').1
  have set_fits : (Instruction.localSet handle slot).Encodable := .one handle_small rfl
  have put : Steady b1 { b1 with
      code := b1.code.emit (.localSet handle slot), pool := b1.pool.free handle } :=
    (Steady.setCode (.emit _ set_fits)).trans (.setPool _ _)
  have steady := (made.trans filled.steady).trans put
  refine .of_steady tidy steady (le_free (le_trans le filled.pool) handle_small free) ?_
  intro sound rest locals c same
  have within := rest.code.trans sound.code
  have rest1 := (Precedes.of_steady put).trans rest
  have rest0 := (Precedes.of_steady steady).trans rest
  have within_new := (filled.steady.code.within.trans rest1.code).trans sound.code
  have within_load := (Grows.emit _ (.two handle_small count_small rfl)).within.trans within_new
  -- The length is loaded and the array created.
  have loaded := goes_emit (does_intLoad w.link.code count (UInt64.ofNat n) c) within_load
  have sets := Sets.setReg c (UInt64.ofNat n) count_small
  generalize c.setReg count (UInt64.ofNat n) = c1 at loaded sets
  have still : Still b.pool c c1 := sets.still (isAllocated_eq_false_of_le
    (fun q here => by simp only [used, here, ite_self]) free')
  refine .goes loaded still.store ((sim_arrayNew within_new sets.value).bind ?_)
  rintro array k _ ⟨rfl, arrays, rfl⟩
  have named := Core.reg_setReg_self { c1 with arrays } handle array
  have others := (Sets.setReg { c1 with arrays } array handle_small).still free
  generalize { c1 with arrays }.setReg handle array = c2 at named others
  have keeps : Keeps b.pool c c2 := still.keeps.trans ⟨others.stack, others.regs, others.keeps.globals⟩
  -- The items are stored.
  have fill := filled.sim sound rest1 locals c2 ((same.keeps tidy keeps).steady made)
  rw [named] at fill
  refine fill.bind ?_
  rintro _ k c3 ⟨rfl, keeps'⟩
  have held3 : c3.reg handle = array := (keeps'.regs handle held).trans named
  have same3 := same.keeps tidy (keeps.trans (keeps'.mono le))
  have inside : w.link.code.frame.base + slot.toNat < c3.stack.size := by
    have := tidy.slot name l slot found at_slot
    have := rest0.reserve
    have := sound.frame
    have := same3.high
    omega
  -- The array is put in its slot.
  refine .goes (goes_emit (Activation.does_localSet handle slot inside) within) rfl (.pure ⟨rfl, ?_⟩)
  refine (same3.setSlot tidy sound rest0 found at_slot ?_ ?_ ?_).steady steady
  · rw [held3]
  · exact fun _ _ => rfl
  · rfl

/-- The code of an array that is declared does what evaluation does. -/
def CreatesArray (w : Setting σ ω) (var : VarDecl) (n : Nat) (items : List Expr) (b b' : Body) : Prop :=
  w.Acts [var] (fun locals => do
      let array ← Evaluation.createArray n
      w.meaning.fillArray locals array 0 items
      return locals.set var.name.name array) b b' ∧
    Walks w.scope w.meaning [var.name.name] (AllStored w.meaning.owns · (Expr.listNames items))
      ((w.meaning.local? var.name.name).map Ty.isArray = some var.ty.isArray ∧ w.meaning.ListTyped items) b.locals
      b'.locals

theorem emits_createArray (regular : Regular w.scope) (var : VarDecl) (n : Nat) (items : List Expr) :
    Emits (createArray w.scope var n items) fun b _ b' => Tidy w.scope b → Unused w.scope b var.name.name →
      var.fullTy = { var.ty with arrayLen := n } → w.CreatesArray var n items b b' := by
  refine .mono (.bind (emits_stackSlot w.scope var.span) fun storage =>
    (?_ : Emits _ fun b1 _ b' => ∀ b, Housed w.scope b storage b1 → Tidy w.scope b → Unused w.scope b var.name.name →
      var.fullTy = { var.ty with arrayLen := n } → w.CreatesArray var n items b b')) ?_
  · cases storage with
    | register r => exact .of_throw _
    | stack slot =>
      refine .mono (.bind (.of_modify fun _ => rfl) fun _ => .bind (emits_allocate w.scope) fun handle =>
        .bind (emits_allocate w.scope) fun count => .bind (emits_onCode _) fun _ =>
        .bind (emits_emitInsn _) fun _ => .bind (emits_free count) fun _ =>
        .bind (emits_emitElements regular _ handle _ 0 items) fun _ => .bind (emits_emitInsn _) fun _ =>
        .bind (emits_free handle) fun _ => emits_markInitialized _) ?_
      rintro b1 _ b' ⟨_, _, rfl, handle, _, ⟨pool, taken, rfl⟩, count, _, ⟨pool', taken', rfl⟩, _, _, rfl,
        _, _, rfl, _, _, rfl, _, b2, filled, _, _, rfl, _, _, rfl, marked⟩ b housed tidy unused
        fullTy
      have declares := housed.declares tidy unused nofun
      rw [fullTy] at declares
      obtain ⟨made, le, held⟩ := steady_arrayNew n taken taken'
      obtain ⟨filled, legible⟩ := filled (declares.tidy.steady made le) held
      have found (l : Local) : (b1.locals.add var.name.name l).lookup? var.name.name = some l := by
        rw [SymbolTable.lookup?_add, if_pos rfl]
      have acts := (Acts.createArray declares.tidy (found _) rfl taken taken' filled).marked marked
      obtain ⟨-, code, -, endJumps, isFinished⟩ := housed.steady
      have walks := housed.walks unused declares.grown.toPrecedes
        (marked.walks acts.grown.toPrecedes filled.steady.locals (found _) (fun _ => rfl) legible)
      exact ⟨acts.after declares code endJumps isFinished, walks⟩
  · rintro b _ b' ⟨storage, b1, housed, acts⟩
    exact acts b housed

theorem items_of_arrayItems? {var : VarDecl} (list : arrayItems? var = some items) : var.items = items := by
  rw [arrayItems?] at list
  rw [VarDecl.items]
  split at list
  · next init =>
    cases list
    rw [init]
  · next init =>
    cases list
    rw [init]
  · cases list

theorem emits_emitArray (regular : Regular w.scope) (var : VarDecl) :
    Emits (emitArray w.scope var) fun b _ b' => Tidy w.scope b → Unused w.scope b var.name.name →
      var.ty.isArray = true → w.Introduces var b b' := by
  rw [emitArray]
  cases list : arrayItems? var with
  | none => exact .never (emits_complain w.scope _ _ var.span)
  | some items =>
    dsimp only
    split
    · exact .never (emits_complain w.scope _ _ var.span)
    · refine .mono (emits_createArray regular var _ items) ?_
      rintro b _ b' acts tidy unused array
      have same := items_of_arrayItems? list
      have unfolded : (fun locals => w.meaning.declare locals var) = fun locals => do
          let array ← Evaluation.createArray
            (if 0 < var.ty.arrayLen then var.ty.arrayLen else items.length)
          w.meaning.fillArray locals array 0 items
          return locals.set var.name.name array := by
        funext locals
        rw [Meaning.declare, if_pos array, arrayLength, same]
      have reads : var.reads = Expr.listNames items := by rw [reads, if_pos array, same]
      have stores : var.stores = [var.name.name] := by simp [stores, array]
      rw [Introduces, unfolded, reads, stores, Meaning.VarTyped, if_pos array, same]
      refine acts tidy unused ?_
      rw [fullTy, if_pos array, arrayLength, same]

theorem emits_emitVar (regular : Regular w.scope) (var : VarDecl) :
    Emits (emitVar w.scope var) fun b _ b' => Tidy w.scope b → w.Introduces var b b' := by
  refine .mono (.bind .of_get fun b0 => .ite (emits_complain w.scope _ _ var.name.span)
    (.ite (emits_complain w.scope _ _ var.name.span) (.ite (emits_complain w.scope _ _ var.span)
      (.ite (emits_emitArray regular var) (emits_emitScalar regular var))))) ?_
  rintro _ _ b' ⟨_, b, ⟨rfl, rfl⟩, ⟨-, impossible⟩ | ⟨new, ⟨-, impossible⟩ | ⟨outside,
    ⟨-, impossible⟩ | ⟨-, rest⟩⟩⟩⟩ tidy
  · exact impossible.elim
  · exact impossible.elim
  · exact impossible.elim
  · simp only [Bool.not_eq_true, Bool.or_eq_false_iff, SymbolTable.contains_eq_false] at outside
    have unused : Unused w.scope b var.name.name := ⟨Bool.eq_false_iff.2 new, outside.1, outside.2⟩
    obtain ⟨array, acts⟩ | ⟨scalar, acts⟩ := rest
    · exact acts tidy unused array
    · exact acts tidy unused (Bool.eq_false_iff.2 scalar)

/-! ## Assignments -/

theorem Acts.of_eq {y : Locals → Eval ω Locals} (acts : w.Acts vars x b b')
    (same : w.Sound → Precedes w.scope b' w.last → ∀ locals, y locals = x locals) : w.Acts vars y b b' where
  toDeclares := acts.toDeclares
  grows := acts.grows
  endJumps := acts.endJumps
  isFinished := acts.isFinished
  sim sound rest locals c matches_ := by
    rw [same sound rest]
    exact acts.sim sound rest locals c matches_

theorem emits_complainAssign (name : String) (ty : Ty) (v : Lowered) (span : Span) :
    Emits (complainAssign w.scope name ty v span) fun _ _ _ => False :=
  emits_complain w.scope _ _ span

/-- The code of an assignment to a name, which is not that of an array, does what evaluation does. -/
structure Assigns (w : Setting σ ω) (name : String) (value : Expr) (b b' : Body) : Prop where
  scalar : Scalar w.scope b name
  acts : w.Acts [] (fun locals => w.meaning.assignName locals name value) b b'
  walks : Walks w.scope w.meaning [name] (AllStored w.meaning.owns · value.names) (w.meaning.Typed value) b.locals
    b'.locals

theorem emits_assignLocal (regular : Regular w.scope) (name : String) (l : Local) (span : Span) (value : Expr) :
    Emits (assignLocal w.scope name l span value) fun b _ b' => Tidy w.scope b →
      b.locals.lookup? name = some l → w.Assigns name value b b' := by
  have refuses : ∀ v : Lowered, Emits
      (do
        complainAssign w.scope name l.ty v value.span
        drop v
        markInitialized name) fun _ _ _ => False := fun v =>
    .bind_never (emits_complainAssign name l.ty v value.span) fun _ =>
      .bind (emits_drop v) fun _ => emits_markInitialized _
  refine .of_ite (fun _ => .never (emits_complain w.scope _ _ span)) fun other =>
    .of_ite (fun _ => .never (emits_complain w.scope _ _ span)) fun free =>
    .mono (emits_keepValue regular value name l.storage refuses) ?_
  rintro b _ b' keeps tidy found
  obtain ⟨acts, walks⟩ := keeps tidy l found rfl fun constant => by
    rw [constant, Bool.not_eq_true] at free
    exact free
  refine ⟨.ofLocal found (Bool.eq_false_iff.2 other), acts.of_eq fun sound rest locals => ?_, walks⟩
  rw [Meaning.assignName, (sound.sees (acts.grown.toPrecedes.trans rest)).local_some name l found]

section
variable (regular : Regular w.scope)
include regular

theorem emits_assignGlobal {g : Global} (span : Span) (value : Expr)
    (at_i : w.scope.decls.globals.find? name = some i) (found : w.scope.decls.globals.lookup? name = some g) :
    Emits (assignGlobal w.scope name i g.ty span value) fun b _ b' => Tidy w.scope b →
      b.locals.lookup? name = none → w.Assigns name value b b' := by
  have outside : w.scope.decls.globals.lookup? name ≠ none := by rw [found]; exact nofun
  refine .of_ite (fun _ => .never (emits_complain w.scope _ _ span)) fun writable =>
    .mono (.bind (emits_lowerValue regular value) fun v => .ite
      (.ite (.bind (emits_operand w.scope v) fun o => .bind (emits_emitInsn _) fun _ =>
          emits_release o)
        (.bind (emits_complainAssign name g.ty v value.span) fun _ => emits_drop v))
      (.of_pure ())) ?_
  rintro b _ b' ⟨v, b1, computes, rest⟩ tidy missing
  have computes := computes tidy
  obtain ⟨-, ⟨-, o, b2, fetches, _, _, rfl, rfl⟩ | ⟨-, _, _, impossible, -⟩⟩ | ⟨failed, -⟩ := rest
  · have fetches := fetches computes.delivers.placed
    have fits : (Instruction.globalSet o.reg (UInt32.ofNat i)).Encodable := .one fetches.small rfl
    have set : Steady b2 { b2 with
        code := b2.code.emit (.globalSet o.reg (UInt32.ofNat i)), pool := o.leave b2.pool } :=
      (Steady.setCode (.emit _ fits)).trans (.setPool _ _)
    have steady := (computes.delivers.steady.trans fetches.steady).trans set
    have le := computes.delivers.pool
    refine ⟨.ofGlobal missing outside, .of_steady tidy steady ((fetches.spare computes.delivers.spare le).le_leave
      fetches.small (le_trans le fetches.pool)) ?_, .of_global at_i found (Bool.eq_false_iff.2 writable)
      missing steady.locals computes.reads.legible⟩
    intro sound rest locals c same
    have within := rest.code.trans sound.code
    have rest2 := (Precedes.of_steady set).trans rest
    have rest1 := (Precedes.of_steady fetches.steady).trans rest2
    have local_eq := (sound.sees ((Precedes.of_steady steady).trans rest)).local_none name missing (.inl outside)
    have global_eq := sound.names.global_some name i g at_i found
    have small := sound.few name i at_i
    have index : (UInt32.ofNat i).toNat = i := UInt32.toNat_ofNat_of_lt' small
    simp only [Meaning.assignName, local_eq, global_eq]
    refine (computes.sim sound rest1 locals c same).bind ?_
    rintro x k c1 ⟨rfl, holds, keeps⟩
    obtain ⟨c2, went, read, still⟩ :=
      fetches.runs w.link.code c1 x (rest2.code.trans sound.code) holds
    have keeps2 := keeps.trans (still.mono le).keeps
    have inside : (UInt32.ofNat i).toNat < c2.globals.size := by
      rw [index, keeps2.globals, same.globals]
      exact SymbolTable.lt_of_find? at_i
    have stored : Link.Gives w.link c2 (Eval.setGlobal i x) (.ok ())
        { c2 with globals := c2.globals.setIfInBounds (UInt32.ofNat i).toNat (c2.reg o.reg) } := by
      refine ⟨[], fun _ => rfl, fun more => ?_⟩
      simp only [Eval.setGlobal, Link.store, index, read, nil_append]
    have keeps3 : Keeps b.pool c
        { c2 with globals := c2.globals.setIfInBounds (UInt32.ofNat i).toNat (c2.reg o.reg) } :=
      ⟨keeps2.stack, keeps2.regs, Array.size_setIfInBounds.trans keeps2.globals⟩
    exact .goes went still.store (.of_goes (stored.bind (.pure locals _))
      (goes_emit (Activation.does_globalSet o.reg _ inside) within)
      ⟨rfl, (same.keeps tidy keeps3).steady steady⟩)
  · exact impossible.elim
  · simp [Lowered.isFailed, computes.delivers.found] at failed

theorem emits_assignName (name : String) (span : Span) (value : Expr) :
    Emits (assignName w.scope name span value) fun b _ b' => Tidy w.scope b → w.Assigns name value b b' := by
  refine .mono (.bind .of_get fun b0 => (?_ : Emits _ fun b _ b' => b0 = b → Tidy w.scope b →
    w.Assigns name value b b')) ?_
  · split
    · next l found =>
      refine .mono (emits_assignLocal regular name l span value) ?_
      rintro b _ b' acts rfl tidy
      exact acts tidy found
    · next missing =>
      split
      · next i g at_i found =>
        refine .mono (emits_assignGlobal regular span value at_i found) ?_
        rintro b _ b' acts rfl tidy
        exact acts tidy missing
      · exact .of_ite (fun _ => .never (emits_complain w.scope _ _ span)) fun _ =>
          .never (emits_complain w.scope _ _ span)
  · rintro b _ b' ⟨_, _, ⟨rfl, rfl⟩, acts⟩ tidy
    exact acts rfl tidy

/-- The three values of an assignment to an element are in their places when the last one is. -/
theorem emits_assignElement (array position value : Expr) (span span' : Span) :
    Emits (assignElement w.scope array position value span) fun b _ b' => Tidy w.scope b → w.Acts [] (fun locals => do
        w.meaning.assignElement locals array position value
        return locals) b b' ∧
      Walks w.scope w.meaning [] (AllStored w.meaning.owns · ((array.names ++ position.names) ++ value.names))
        (w.meaning.Typed (.index array position span') ∧ w.meaning.Typed value) b.locals b'.locals := by
  refine .mono (.bind (emits_lowerValue regular array) fun a =>
    .bind (emits_readBefore w.scope a position) fun a => .bind (emits_lowerValue regular position)
    fun i => .bind (emits_readBefore w.scope i value) fun i =>
    .bind (emits_lowerValue regular value) fun v => emits_storeElement w.scope a i v value.span span) ?_
  rintro b _ b' ⟨a, b1, first, a', b2, early, i, b3, second, i', b4, early', v, b5, third, written⟩ tidy
  have first := first tidy
  have early := early first.delivers.placed
  have first := first.early early
  have tidy2 := first.tidy tidy
  have second := second tidy2
  have early' := early' second.delivers.placed
  have second := second.early early'
  have tidy4 := second.tidy tidy2
  have third := third tidy4
  have placed := first.delivers.placed.mono second.delivers.pool
  obtain ⟨indexed, written⟩ := written first.delivers.found second.delivers.found
    third.delivers.found (placed.mono third.delivers.pool)
    (second.delivers.placed.mono third.delivers.pool) third.delivers.placed
  have le := le_trans first.delivers.pool second.delivers.pool
  have le' := le_trans le third.delivers.pool
  have steady := ((first.delivers.steady.trans second.delivers.steady).trans
    third.delivers.steady).trans written.steady
  have reads2 := first.delivers.steady.locals ▸ second.reads
  have reads3 := (first.delivers.steady.trans second.delivers.steady).locals ▸ third.reads
  have element := first.reads.index (v := ⟨.nothing, a'.ty.element, none⟩) span' reads2 indexed ⟨rfl, rfl⟩
  refine ⟨.of_steady tidy steady (written.pool le' first.delivers.spare
    (second.delivers.spare.mono first.delivers.pool) (third.delivers.spare.mono le)) ?_, .of_legible steady.locals
    ⟨forall_mem_append.2 ⟨element.known, reads3.known⟩,
      fun sees => ⟨element.typed sees, reads3.typed sees⟩⟩⟩
  intro sound rest locals c same
  have rest5 := (Precedes.of_steady written.steady).trans rest
  have rest4 := third.grown.trans rest5
  simp only [Meaning.assignElement, bind_assoc]
  refine first.sim_pair second sound tidy early.safe rest4 same fun c1 x y keeps holds holds' => ?_
  have same1 := (same.keeps tidy keeps).steady (first.delivers.steady.trans second.delivers.steady)
  refine (third.sim_quiet sound rest5 same1).bind ?_
  rintro z k c2 ⟨⟨rfl, holds'', keeps'⟩, quiet⟩
  have holds := holds.keeps placed keeps' fun j here => by
    -- An array is never a global.
    rw [first.global j here] at indexed
    cases indexed
  have holds' := holds'.keeps second.delivers.placed keeps' fun j here =>
    congrArg Store.globals (quiet (early'.safe j here))
  refine (written.sim (second.delivers.placed.mono third.delivers.pool) third.delivers.placed
    (rest.code.trans sound.code) holds holds' holds'').bind ?_
  rintro _ k c3 ⟨rfl, keeps''⟩
  exact .pure ⟨rfl, (same.keeps tidy ((keeps.trans (keeps'.mono le)).trans (keeps''.mono le'))).steady steady⟩

/-- The code of an assignment does what evaluation does. It is to no array as a whole. -/
theorem emits_emitAssign (target value : Expr) (span : Span) :
    Emits (emitAssign w.scope target value span) fun b _ b' => Tidy w.scope b →
      (∀ x ∈ (Stmt.assign target value span).targets, Scalar w.scope b x) ∧
        w.Acts [] (fun locals => w.meaning.assign locals target value) b b' ∧
        Walks w.scope w.meaning (Stmt.assign target value span).targets
          (AllStored w.meaning.owns · (target.assignReads value)) (w.meaning.AssignTyped target value) b.locals
          b'.locals := by
  have nothing : Emits (pure () : EmitM Unit) fun b _ b' => Tidy w.scope b →
      w.Acts [] (fun locals => pure locals) b b' ∧
        Walks w.scope w.meaning [] (AllStored w.meaning.owns · []) True b.locals b'.locals := by
    refine .mono (.of_pure ()) ?_
    rintro b _ b' ⟨-, rfl⟩ tidy
    exact ⟨.of_steady tidy (.refl _) le_rfl fun _ _ _ _ same => .pure ⟨rfl, same⟩,
      .of_legible rfl ⟨forall_mem_nil _, fun _ => trivial⟩⟩
  simp only [emitAssign, Meaning.assign, Stmt.targets, Expr.assignReads, Meaning.AssignTyped]
  cases target.peel with
  | name id span' =>
    refine .mono (emits_assignName regular id target.span value) ?_
    intro b _ b' assigns tidy
    obtain ⟨scalar, acts, walks⟩ := assigns tidy
    refine ⟨forall_mem_singleton.2 scalar, acts, walks.mono (fun _ order => order) fun sees typed => ⟨?_, typed⟩⟩
    exact scalar.local_isArray sees
  | index array position span' =>
    exact .mono (emits_assignElement regular array position value span span') fun _ _ _ acts tidy =>
      ⟨forall_mem_nil _, acts tidy⟩
  | _ => exact .mono nothing fun _ _ _ acts tidy => ⟨forall_mem_nil _, acts tidy⟩

end

end Setting

end Emission

end RegisterLang
