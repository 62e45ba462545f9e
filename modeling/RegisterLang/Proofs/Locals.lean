import RegisterLang.Proofs.Expressions

/-! # Declaring locals and storing in them

A declaration gives a local a slot or a register that no other local has. Storing a value in a local leaves
the others alone.
-/

namespace RegisterLang

open Machine Evaluation SymbolTable List

namespace Emission

open Instruction CodeBuffer

variable {σ ω : Type} (scope : Scope)

/-! ## What statements declare -/

/-- What is known of the locals of a body from their declarations. -/
def Body.keys (b : Body) : List (String × Ty × Bool) :=
  b.locals.toList.map fun (x, l) => (x, l.ty, l.isParam)

/-- What is known of a variable from its declaration. -/
def varKey (var : VarDecl) : String × Ty × Bool :=
  (var.name.name, var.fullTy, false)

theorem names_eq_keys (b : Body) : b.locals.names = b.keys.map Prod.fst := by
  simp [names, Body.keys]

/-- Statements that declare some variables were emitted. -/
structure Declares (vars : List VarDecl) (b b' : Body) : Prop where
  grown : Extends scope b b'
  tidy : Tidy scope b'
  keys : b'.keys = b.keys ++ vars.map varKey
  distinct : b.locals.names.Nodup → b'.locals.names.Nodup

variable {scope} {b b' : Body}

theorem Declares.trans {vars vars' : List VarDecl} {b'' : Body}
    (first : Declares scope vars b b') (second : Declares scope vars' b' b'') :
    Declares scope (vars ++ vars') b b'' where
  grown := first.grown.trans second.grown
  tidy := second.tidy
  keys := by rw [second.keys, first.keys, map_append, append_assoc]
  distinct distinct := second.distinct (first.distinct distinct)

theorem Declares.of_steady (tidy : Tidy scope b) (steady : Steady b b')
    (pool : b.pool ≤ b'.pool) : Declares scope [] b b' where
  grown := .of_steady steady pool
  tidy := tidy.steady steady pool
  keys := by simp [Body.keys, steady.locals]
  distinct distinct := by rw [steady.locals]; exact distinct

theorem Declares.leave (tidy : Tidy scope b) {code : CodeBuffer}
    (within : b.code.Within code) {endJumps : Nat} (jumps : b.endJumps ≤ endJumps) (isFinished : Bool) :
    Declares scope [] b { b with code, endJumps, isFinished } where
  grown := ⟨⟨within, .refl _, Nat.le_refl _, jumps, fun _ l found => ⟨l, found, .refl l⟩,
    fun _ _ missing found => by rw [missing] at found; cases found⟩, le_refl _,
    fun _ _ missing found => by rw [missing] at found; cases found⟩
  tidy := ⟨tidy.slot, tidy.home, tidy.apart, tidy.small, tidy.few⟩
  keys := (append_nil _).symm
  distinct := id

/-! ## A place for a new local -/

/-- Nothing that a body can refer to has the name yet. -/
structure Unused (scope : Scope) (b : Body) (x : String) : Prop where
  new : b.locals.contains x = false
  no_global : scope.decls.globals.lookup? x = none
  no_const : scope.decls.consts.lookup? x = none

/-- A new local was given a slot or a register. -/
inductive Housed (scope : Scope) (b : Body) : Storage → Body → Prop where
  | slot {k : UInt16} (slot : k.toNat = scope.stackArgs + b.localReserve)
      (small : scope.stackArgs + b.localReserve ≤ 65535) (few : b.localReserve + 1 ≤ 65535) :
      Housed scope b (.stack k) { b with localReserve := b.localReserve + 1 }
  | register {r : UInt8} {pool : RegisterPool} (fast : scope.settings.optLevel = .fast)
      (taken : b.pool.allocate? = some (r, pool)) :
      Housed scope b (.register r) { b with pool, homes := r :: b.homes }

variable (scope)

theorem emits_stackSlot (span : Span) :
    Emits (stackSlot scope span) fun b storage b' => Housed scope b storage b' := by
  have rest : ∀ reserve : Nat, Emits
      (if scope.stackArgs + reserve ≤ 65535 && reserve + 1 ≤ 65535 then do
        modify fun b => { b with localReserve := reserve + 1 }
        return Storage.stack (UInt16.ofNat (scope.stackArgs + reserve))
      else do
        complain scope .limitExceeded s!"function '{scope.name}' has too many stack slots" span
        return Storage.stack 0)
      fun b storage b' => reserve = b.localReserve → Housed scope b storage b' := by
    intro reserve
    refine .of_ite (fun few => ?_) fun _ =>
      .bind_never (emits_complain scope _ _ span) fun _ => .of_pure _
    refine .mono (.bind (.of_modify fun _ => rfl) fun _ => .of_pure _) ?_
    rintro b _ b' ⟨_, _, rfl, rfl, rfl⟩ rfl
    simp only [Bool.and_eq_true, decide_eq_true_eq] at few
    obtain ⟨small, few⟩ := few
    exact .slot (UInt16.toNat_ofNat_of_lt' (by change _ < 65536; omega)) small few
  refine .mono (.bind .of_get fun b0 => rest b0.localReserve) ?_
  rintro b storage b' ⟨_, _, ⟨rfl, rfl⟩, housed⟩
  exact housed rfl

theorem emits_placeLocal (span : Span) :
    Emits (placeLocal scope span) fun b storage b' => Housed scope b storage b' := by
  refine .mono (.bind .of_get fun b0 => .ite
    (.bind (emits_allocate scope) fun r => .bind (.of_modify fun _ => rfl) fun _ => .of_pure _)
    (emits_stackSlot scope span)) ?_
  rintro b storage b' ⟨_, _, ⟨rfl, rfl⟩, ⟨fast, r, _, ⟨pool, taken, rfl⟩, _, _, rfl, rfl, rfl⟩ | ⟨-, housed⟩⟩
  · simp only [Bool.and_eq_true, decide_eq_true_eq] at fast
    exact .register fast.1 taken
  · exact housed

variable {scope} {x : String} {m : Meaning ω} {l : Local}

namespace Housed

variable {b b1 : Body} {storage : Storage}

section
variable (housed : Housed scope b storage b1)
include housed

theorem steady :
    b1.locals = b.locals ∧ b1.code = b.code ∧ b1.strings = b.strings ∧ b1.endJumps = b.endJumps ∧
      b1.isFinished = b.isFinished := by
  cases housed <;> exact ⟨rfl, rfl, rfl, rfl, rfl⟩

theorem reserve : b.localReserve ≤ b1.localReserve := by
  cases housed with
  | slot _ _ _ => exact Nat.le_succ _
  | register _ _ => exact Nat.le_refl _

theorem pool : b.pool ≤ b1.pool := by
  cases housed with
  | slot _ _ _ => exact le_rfl
  | register _ taken =>
    obtain ⟨-, -, used⟩ := RegisterPool.allocate?_eq_some taken
    intro q here
    simp only [used, here, ite_self]

theorem ne_storage (tidy : Tidy scope b) (found : b.locals.lookup? x = some l) : l.storage ≠ storage := by
  rintro rfl
  generalize at_l : l.storage = storage at housed
  cases housed with
  | slot slot _ _ =>
    have inside := tidy.slot x l _ found at_l
    omega
  | register _ taken =>
    have used := tidy.home x l _ found at_l
    rw [(RegisterPool.allocate?_eq_some taken).2.1] at used
    cases used

theorem declares (tidy : Tidy scope b) {var : VarDecl}
    (unused : Unused scope b var.name.name) (scalar : ∀ r, storage = .register r → var.fullTy.isArray = false) :
    Declares scope [var] b { b1 with
      locals := b1.locals.add var.name.name ⟨var.fullTy, storage, false, false⟩ } := by
  obtain ⟨locals, code, strings, endJumps, -⟩ := housed.steady
  have missing := contains_eq_false.1 unused.new
  have lookup : ∀ x, (b1.locals.add var.name.name ⟨var.fullTy, storage, false, false⟩).lookup? x =
      if x = var.name.name then some ⟨var.fullTy, storage, false, false⟩ else b.locals.lookup? x := by
    intro x
    rw [lookup?_add, locals]
  have kept : ∀ x l, b.locals.lookup? x = some l → x ≠ var.name.name := by
    rintro x l found rfl
    rw [missing] at found
    cases found
  -- A local is the new one or one from before.
  have cases_of : ∀ x l, (b1.locals.add var.name.name
      ⟨var.fullTy, storage, false, false⟩).lookup? x = some l →
      x = var.name.name ∧ l = ⟨var.fullTy, storage, false, false⟩ ∨
        b.locals.lookup? x = some l := by
    intro x l found
    rw [lookup] at found
    split at found
    · next here =>
      cases found
      exact .inl ⟨here, rfl⟩
    · exact .inr found
  refine ⟨⟨⟨code ▸ .refl _, strings ▸ .refl _, housed.reserve,
    Nat.le_of_eq endJumps.symm, ?_, ?_⟩, housed.pool, ?_⟩, ⟨?_, ?_, ?_, ?_, ?_⟩, ?_, ?_⟩
  · intro x l found
    exact ⟨l, by rw [lookup, if_neg (kept x l found), found], .refl l⟩
  · intro x l absent found
    obtain ⟨rfl, -⟩ | found := cases_of x l found
    · exact ⟨unused.no_global, unused.no_const⟩
    · rw [absent] at found
      cases found
  · intro x l absent found
    obtain ⟨rfl, rfl⟩ | found := cases_of x l found
    · refine ⟨rfl, ?_, ?_⟩
      · rintro k rfl
        cases housed with
        | slot slot _ _ => exact Nat.le_of_eq slot.symm
      · rintro r rfl
        have scalar := scalar r rfl
        cases housed with
        | register fast taken => exact ⟨(RegisterPool.allocate?_eq_some taken).2.1, fast, scalar⟩
    · rw [absent] at found
      cases found
  · intro x l k found at_k
    obtain ⟨rfl, rfl⟩ | found := cases_of x l found
    · obtain rfl : storage = .stack k := at_k
      cases housed with
      | slot slot _ _ => rw [slot]; exact Nat.lt_succ_self _
    · exact Nat.lt_of_lt_of_le (tidy.slot x l k found at_k) (Nat.add_le_add_left housed.reserve _)
  · intro x l r found at_r
    obtain ⟨rfl, rfl⟩ | found := cases_of x l found
    · obtain rfl : storage = .register r := at_r
      cases housed with
      | register _ taken => simp [(RegisterPool.allocate?_eq_some taken).2.2]
    · exact housed.pool r (tidy.home x l r found at_r)
  · intro x y l l' found found' same
    obtain ⟨rfl, rfl⟩ | found := cases_of x l found
    · obtain ⟨rfl, rfl⟩ | found' := cases_of y l' found'
      · rfl
      · exact absurd same (housed.ne_storage tidy found')
    · obtain ⟨rfl, rfl⟩ | found' := cases_of y l' found'
      · exact absurd same.symm (housed.ne_storage tidy found)
      · exact tidy.apart x y l l' found found' same
  · cases housed with
    | slot _ small _ =>
      change scope.stackArgs + (b.localReserve + 1) ≤ 65536
      omega
    | register _ _ => exact tidy.small
  · cases housed with
    | slot _ _ few => exact few
    | register _ _ => exact tidy.few
  · simp [Body.keys, toList_add, locals, varKey]
  · intro distinct
    rw [locals]
    exact nodup_names_add distinct unused.new _

theorem walks {stores : List String} {ordered : List String → Prop} {typed : Prop}
    {ty : Ty} {t' : SymbolTable Local} (unused : Unused scope b x)
    (grown : Precedes scope b { b1 with locals := b1.locals.add x ⟨ty, storage, false, false⟩ })
    (walks : Walks scope m stores ordered typed (b1.locals.add x ⟨ty, storage, false, false⟩) t') :
    Walks scope m stores ordered ((m.local? x).map Ty.isArray = some ty.isArray ∧ typed) b.locals t' := by
  have sees (sees : Sees m scope (b1.locals.add x ⟨ty, storage, false, false⟩)) := Sees.back sees grown
  rw [housed.steady.1] at sees walks
  refine .after (contains_eq_false.1 unused.new) ?_ sees walks
  exact fun outer => outer.elim (absurd unused.no_global) (absurd unused.no_const)

end

end Housed

theorem Scalar.local_isArray (scalar : Scalar scope b x)
    (sees : Sees m scope b.locals) : ∀ ty, m.local? x = some ty → ty.isArray = false := by
  intro ty known
  cases scalar with
  | ofLocal found other =>
    cases (sees.local_some x _ found).symm.trans known
    exact other
  | ofGlobal missing outside => cases (sees.local_none x missing (.inl outside)).symm.trans known

/-! ## Locals that have a value -/

/-- A local was noted to have a value. -/
structure Marked (name : String) (b b' : Body) : Prop where
  body : b' = { b with locals := b'.locals }
  kept : ∀ x l, b.locals.lookup? x = some l → ∃ l', b'.locals.lookup? x = some l' ∧ l.Same l' ∧
    (l'.initialized = true ↔ l.initialized = true ∨ x = name)
  absent : ∀ x, b.locals.lookup? x = none → b'.locals.lookup? x = none
  keys : b'.keys = b.keys

theorem emits_markInitialized (name : String) : Emits (markInitialized name) fun b _ b' => Marked name b b' := by
  refine .mono (.of_modify fun b => by split <;> rfl) ?_
  rintro b _ b' rfl
  split
  · next index found =>
    have lookup := lookup?_modify found fun l : Local => { l with initialized := true }
    refine ⟨rfl, fun x l here => ?_, fun x missing => ?_, ?_⟩
    · by_cases same : x = name
      · subst same
        exact ⟨{ l with initialized := true }, by rw [lookup, if_pos rfl, here]; rfl, ⟨rfl, rfl, rfl⟩, by simp⟩
      · exact ⟨l, by rw [lookup, if_neg same, here], .refl l, by simp [same]⟩
    · by_cases same : x = name
      · subst same
        rw [lookup, if_pos rfl, missing]
        rfl
      · rw [lookup, if_neg same, missing]
    · refine ext_getElem? fun i => ?_
      simp only [Body.keys, SymbolTable.toList, SymbolTable.modify, getElem?_map,
        Array.getElem?_toList, Array.getElem?_modify]
      split <;> cases b.locals.entries[i]? <;> rfl
  · next missing =>
    refine ⟨rfl, fun x l here => ⟨l, here, .refl l, ?_⟩, fun _ missing => missing, rfl⟩
    have other : x ≠ name := by
      rintro rfl
      rw [lookup?_eq_none.2 missing] at here
      cases here
    simp [other]

namespace Marked

variable {b b' : Body} {name : String}

section
variable (marked : Marked name b b')
include marked

theorem back {l' : Local} (found' : b'.locals.lookup? x = some l') :
    ∃ l, b.locals.lookup? x = some l ∧ l.Same l' ∧ (l'.initialized = true ↔ l.initialized = true ∨ x = name) := by
  cases found : b.locals.lookup? x with
  | none =>
    rw [marked.absent x found] at found'
    cases found'
  | some l =>
    obtain ⟨l'', found'', same⟩ := marked.kept x l found
    cases found'.symm.trans found''
    exact ⟨l, rfl, same⟩

theorem code : b'.code = b.code := by rw [marked.body]

theorem pos : b'.pos = b.pos := by rw [Body.pos, marked.code, Body.pos]

theorem declares (tidy : Tidy scope b) : Declares scope [] b b' where
  grown := by
    refine ⟨⟨?_, ?_, ?_, ?_, fun x l found => ?_, ?_⟩, ?_, ?_⟩
    · rw [marked.body]
      exact .refl _
    · exact marked.body ▸ .refl _
    · exact Nat.le_of_eq (by rw [marked.body])
    · exact Nat.le_of_eq (by rw [marked.body])
    · obtain ⟨l', found', same, -⟩ := marked.kept x l found
      exact ⟨l', found', same⟩
    · intro x l missing found
      rw [marked.absent x missing] at found
      cases found
    · rw [marked.body]
    · intro x l missing found
      rw [marked.absent x missing] at found
      cases found
  tidy := by
    refine ⟨fun x l k found at_k => ?_, fun x l r found at_r => ?_, ?_, ?_, ?_⟩
    · obtain ⟨l0, found0, same, -⟩ := marked.back found
      rw [marked.body]
      exact tidy.slot x l0 k found0 (same.storage.symm.trans at_k)
    · obtain ⟨l0, found0, same, -⟩ := marked.back found
      rw [marked.body]
      exact tidy.home x l0 r found0 (same.storage.symm.trans at_r)
    · intro x y l l' found found' equal
      obtain ⟨l0, found0, same, -⟩ := marked.back found
      obtain ⟨l1, found1, same', -⟩ := marked.back found'
      exact tidy.apart x y l0 l1 found0 found1 (by rw [← same.storage, ← same'.storage, equal])
    · rw [marked.body]
      exact tidy.small
    · rw [marked.body]
      exact tidy.few
  keys := by rw [marked.keys, map_nil, append_nil]
  distinct distinct := by
    rw [names_eq_keys, marked.keys, ← names_eq_keys]
    exact distinct

end

/-- A value was computed and stored in a local. A constant must not have one yet. -/
theorem walks {b1 : Body} {names : List String} {typed : Prop}
    (marked : Marked name b1 b') (grown : Precedes scope b b') (same : b1.locals = b.locals)
    (found : b.locals.lookup? name = some l) (free : l.ty.isConst = true → l.initialized = false)
    (legible : Legible scope m names typed b.locals) :
    Walks scope m [name] (AllStored m.owns · names) typed b.locals b'.locals := by
  refine .of_one (·.back grown) (fun x l' found' initialized => ?_) ?_ legible (fun sees constant known => ?_)
    fun sees none => ?_
  · obtain ⟨l1, found1, -, noted⟩ := marked.back found'
    rw [mem_singleton]
    exact (noted.1 initialized).imp_left fun before => ⟨l1, same ▸ found1, before⟩
  · have noted (x : String) (l : Local) (found : b.locals.lookup? x = some l)
        (initialized : l.initialized = true ∨ x = name) : Known scope b'.locals x := by
      obtain ⟨l', found', -, noted⟩ := marked.kept x l (same ▸ found)
      exact .inl ⟨l', found', noted.2 initialized⟩
    rintro x ((⟨l, found, initialized⟩ | ⟨missing, outer⟩) | member)
    · exact noted x l found (.inl initialized)
    · exact .inr ⟨marked.absent x (same ▸ missing), outer⟩
    · cases mem_singleton.1 member
      exact noted name l found (.inr rfl)
  · rw [Meaning.isConst, sees.local_some name l found] at constant
    rcases known with ⟨l', found', initialized⟩ | ⟨missing, -⟩
    · cases found.symm.trans found'
      cases (free constant).symm.trans initialized
    · cases missing.symm.trans found
  · cases none.symm.trans (sees.local_some name l found)

end Marked

/-! ## Storing -/

/-- A value was stored in the place of a local. -/
structure StoresLocal (storage : Storage) (v : Lowered) (b b' : Body) : Prop where
  steady : Steady b b'
  pool : ∀ p, p ≤ b.pool → Spare p v → p ≤ b'.pool
  runs : ∀ {σ : Type} (a : Activation σ) (c : Core σ) (x : Value), b'.code.Within a.buffer →
    v.Holds a c x → (∀ k, storage = .stack k → a.frame.base + k.toNat < c.stack.size) →
    ∃ c', a.Goes b.pos c b'.pos c' ∧ c'.arrays = c.arrays ∧ c'.globals = c.globals ∧
      c'.world = c.world ∧ (∀ r, storage = .register r → Sets r x c c') ∧
      ∀ k, storage = .stack k → c'.stack = c.stack.setIfInBounds (a.frame.base + k.toNat) x ∧
        ∀ q, b.pool.isAllocated q = true → c'.reg q = c.reg q

variable (scope) in
theorem emits_storeLocal (storage : Storage) (v : Lowered) :
    Emits (storeLocal scope storage v) fun b _ b' => Placed b v →
      (∀ r, storage = .register r → r.toNat < registerCount) → StoresLocal storage v b b' := by
  cases storage with
  | register r =>
    refine .mono (emits_loadInto r v) ?_
    rintro b _ b' fills placed small
    have fills := fills (small r rfl) placed
    refine ⟨fills.steady, fills.pool, fun a c x within holds _ => ?_⟩
    obtain ⟨c', went, sets⟩ := fills.runs a c x within holds
    refine ⟨c', went, sets.arrays, sets.globals, sets.world, ?_, nofun⟩
    rintro _ ⟨⟩
    exact sets
  | stack k =>
    refine .mono (.bind (emits_operand scope v) fun o => .bind (emits_emitInsn _) fun _ =>
      emits_release o) ?_
    rintro b _ b' ⟨o, b1, fetches, _, _, rfl, rfl⟩ placed -
    have fetches := fetches placed
    have fits : (Instruction.localSet o.reg k).Encodable := .one fetches.small rfl
    refine ⟨(fetches.steady.trans (.setCode (.emit _ fits))).trans (.setPool _ _), ?_, ?_⟩
    · intro p le spare
      exact (fetches.spare spare le).le_leave fetches.small (le_trans le fetches.pool)
    · intro σ a c x within holds inside
      obtain ⟨c1, went, read, still⟩ :=
        fetches.runs a c x ((Grows.emit _ fits).within.trans within) holds
      have inside1 : a.frame.base + k.toNat < c1.stack.size := by
        rw [still.stack]
        exact inside k rfl
      have does := Activation.does_localSet (a := a) o.reg k inside1
      refine ⟨_, went.trans (goes_emit does within), still.arrays, still.globals, still.world, nofun, ?_⟩
      rintro _ ⟨⟩
      refine ⟨?_, fun q used => still.regs q used⟩
      simp only [read, still.stack]

namespace Setting

variable {w : Setting σ ω} {locals : Locals}

theorem Matches.marked {c : Core σ} (same : w.Matches b locals c)
    (tidy : Tidy w.scope b) (sound : w.Sound) {name : String}
    (marked : Marked name b b') (rest : Precedes w.scope b' w.last) : w.Matches b' locals c :=
  same.skip sound (marked.declares tidy).grown (marked.declares tidy).tidy rest

/-- A value that was computed and stored in the place of a local is what the local holds. -/
theorem Computes.sim_store {e : Expr} {b1 b2 : Body} {v : Lowered}
    (computes : w.Computes e b v b1) (stores : StoresLocal l.storage v b1 b2) (sound : w.Sound)
    (tidy : Tidy w.scope b) (found : b.locals.lookup? x = some l)
    (rest : Precedes w.scope b2 w.last) {c : Core σ} (same : w.Matches b locals c) :
    w.link.Sim b.pos c (do let y ← w.meaning.value locals e; return locals.set x y)
      fun locals' k c' => k = b2.pos ∧ w.Matches b2 locals' c' := by
  have rest1 := (Precedes.of_steady stores.steady).trans rest
  have steady := computes.delivers.steady.trans stores.steady
  refine (computes.sim sound rest1 locals c same).bind ?_
  rintro y k c1 ⟨rfl, holds, keeps⟩
  have same1 := same.keeps tidy keeps
  have inside : ∀ k, l.storage = .stack k → w.link.code.frame.base + k.toNat < c1.stack.size := by
    intro k at_k
    have := tidy.slot x l k found at_k
    have := ((Precedes.of_steady computes.delivers.steady).trans rest1).reserve
    have := sound.frame
    have := same1.high
    omega
  obtain ⟨c2, went, arrays, globals, world, sets, stack⟩ :=
    stores.runs w.link.code c1 y (rest.code.trans sound.code) holds inside
  have store : w.link.store c2 = w.link.store c1 := by
    rw [Link.store, Link.store, arrays, globals, world]
  refine .goes went store (.pure ⟨rfl, ?_⟩)
  cases at_x : l.storage with
  | register r => exact (same1.setHome tidy found at_x (sets r at_x)).steady steady
  | stack k =>
    obtain ⟨stack, regs⟩ := stack k at_x
    have rest0 := (Precedes.of_steady steady).trans rest
    refine (same1.setSlot tidy sound rest0 found at_x stack ?_ ?_).steady steady
    · exact fun q used => regs q (computes.delivers.pool q used)
    · rw [globals]

end Setting

end Emission

end RegisterLang
