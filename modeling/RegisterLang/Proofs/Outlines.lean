import RegisterLang.Proofs.Quiet
import RegisterLang.Proofs.Tables

/-! # What two emissions of the same text have in common

Registers, slots and instructions are a matter of the settings; the mistakes in a text are not. The
outline of a body is what remains of it when the places of values are left out: the strings with the
report, the types of the locals, and how many returns there were. Two emissions of an expression that start
from the same outline end in the same one, whatever their settings are, as long as both come to an end.

A function with too many slots is the one mistake that depends on the settings. It is reported where it is
found, and reports are kept, so that an emission that ends without this mistake never made it.
-/

namespace RegisterLang

open SymbolTable

namespace SymbolTable

variable {α β : Type} {t t' : SymbolTable α} {view : α → β}

/-- The entries of a table as far as `view` shows them. -/
def viewed (view : α → β) (t : SymbolTable α) : Array (String × β) :=
  t.entries.map fun entry => (entry.1, view entry.2)

theorem size_viewed (view : α → β) (t : SymbolTable α) : (t.viewed view).size = t.size :=
  Array.size_map

theorem find?_eq_viewed (view : α → β) (t : SymbolTable α) (name : String) :
    t.find? name = lastNamed (t.viewed view) name (t.viewed view).size := by
  rw [find?_eq_lastNamed, size_viewed]
  apply lastNamed_congr
  intro i _
  rw [viewed, Array.getElem?_map, Option.map_map]
  rfl

theorem get?_viewed (view : α → β) (t : SymbolTable α) (index : Nat) :
    (t.get? index).map view = (t.viewed view)[index]?.map Prod.snd := by
  rw [get?, viewed, Array.getElem?_map, Option.map_map, Option.map_map]
  rfl

section
variable (same : t.viewed view = t'.viewed view)
include same

theorem size_congr : t.size = t'.size := by
  rw [← size_viewed view, same, size_viewed]

theorem find?_congr (name : String) : t.find? name = t'.find? name := by
  rw [find?_eq_viewed view, same, ← find?_eq_viewed]

theorem contains_congr (name : String) : t.contains name = t'.contains name := by
  rw [contains, contains, find?_congr same]

theorem get?_congr (index : Nat) : (t.get? index).map view = (t'.get? index).map view := by
  rw [get?_viewed, same, ← get?_viewed]

theorem lookup?_congr (name : String) : (t.lookup? name).map view = (t'.lookup? name).map view := by
  rw [lookup?, lookup?, find?_congr same]
  cases t'.find? name with
  | none => rfl
  | some index => exact get?_congr same index

end

theorem eq_none_or_eq_some_of_map_eq {o o' : Option α} (same : o.map view = o'.map view) :
    o = none ∧ o' = none ∨ ∃ a a', o = some a ∧ o' = some a' ∧ view a = view a' := by
  cases o with
  | none => exact .inl ⟨rfl, Option.map_eq_none_iff.1 same.symm⟩
  | some a =>
    obtain ⟨a', here, shown⟩ := Option.map_eq_some_iff.1 same.symm
    exact .inr ⟨a, a', rfl, here, shown.symm⟩

theorem viewed_add (view : α → β) (t : SymbolTable α) (name : String) (a : α) :
    (t.add name a).viewed view = (t.viewed view).push (name, view a) :=
  Array.map_push

theorem viewed_modify (t : SymbolTable α) (index : Nat) {f : α → α} (f' : β → β)
    (shown : ∀ a, view (f a) = f' (view a)) : (t.modify index f).viewed view =
      (t.viewed view).modify index fun entry => (entry.1, f' entry.2) := by
  apply Array.ext_getElem?
  intro i
  simp only [viewed, modify, Array.getElem?_map, Array.getElem?_modify]
  split
  · cases t.entries[i]? with
    | none => rfl
    | some entry => simp [shown]
  · rfl

end SymbolTable

namespace Report

/-- No function is reported to have too many slots. -/
def SlotsFit (r : Report) : Prop :=
  ∀ d ∈ r.errors, d.code = .limitExceeded →
    ∀ name : String, d.message ≠ s!"function '{name}' has too many stack slots"

theorem SlotsFit.of_error {r : Report} {d : Diagnostic} (fits : (r.error d).SlotsFit) : r.SlotsFit := by
  intro stored member
  apply fits stored
  rw [error]
  split
  · exact Array.mem_push_of_mem d member
  · exact member

theorem mem_error {r : Report} (room : r.atLimit = false) (d : Diagnostic) : d ∈ (r.error d).errors := by
  have few : r.totalErrors < limit := by simpa [atLimit] using room
  rw [error]
  split
  · exact Array.mem_push_self
  · next full => exact absurd (Nat.lt_of_le_of_lt r.stored_le few) full

end Report

namespace Emission

variable {α β γ δ : Type} {v v' : Lowered} {gives : α → Prop}

theorem Strings.slotsFit_intern {s : Strings} {source : SourceText} {text : String} {span : Span}
    (fits : (s.intern source text span).2.report.SlotsFit) : s.report.SlotsFit := by
  by_cases long : maxLength < text.utf8ByteSize
  · simp only [intern, if_pos long] at fits
    split at fits
    · exact Report.SlotsFit.of_error fits
    · exact Report.SlotsFit.of_error fits
  · simp only [intern, if_neg long] at fits
    split at fits
    · exact fits
    · exact fits

/-! ## Outlines -/

/-- A local without its home. -/
def Local.unplaced (l : Local) : Local :=
  { l with storage := .stack 0 }

/-- What a body under construction has to do with the text alone. -/
structure Outline where
  strings : Strings
  locals : Array (String × Local)
  returns : Nat

def Body.outline (b : Body) : Outline :=
  ⟨b.strings, b.locals.viewed Local.unplaced, b.returns⟩

theorem Quiet.outline_eq {x : EmitM α} (quiet : Quiet x gives) {b c : Body} {a : α} (ran : x.run b = .ok (a, c)) :
    c.outline = b.outline := by
  obtain ⟨strings, rest⟩ := Prod.mk.inj (quiet b a c ran).2
  obtain ⟨locals, returns⟩ := Prod.mk.inj rest
  rw [Body.outline, strings, locals, returns, ← Body.outline]

/-- What a function has to do with the text alone. -/
structure Function.Outline where
  ret : Ty
  params : List Ty
  locals : Array (String × Local)
  native : Option NativeLink
  span : Span

def Function.outline (f : Function) : Function.Outline :=
  ⟨f.ret, f.params, f.locals.viewed Local.unplaced, f.native, f.span⟩

/-- The same declarations of a text, under two settings. -/
structure Declarations.Alike (d d' : Declarations) : Prop where
  globals : d.globals = d'.globals
  consts : d.consts = d'.consts
  functions : d.functions.viewed Function.outline = d'.functions.viewed Function.outline

/-- Two scopes for the same function of a text. -/
structure Scope.Alike (scope scope' : Scope) : Prop where
  source : scope.source = scope'.source
  name : scope.name = scope'.name
  ret : scope.ret = scope'.ret
  decls : scope.decls.Alike scope'.decls

/-! ## Two emissions side by side -/

/-- A body of a function for which no lack of slots was reported. -/
def Body.SlotsFit (b : Body) : Prop :=
  b.strings.report.SlotsFit

/-- A piece of emission keeps what was reported. -/
def KeepsReport (x : EmitM α) : Prop :=
  ∀ b a c, x.run b = .ok (a, c) → c.SlotsFit → b.SlotsFit

/-- Two pieces of emission keep what was reported, and from the same outline, if it is as required, they
come to the same outline and to results of the same view. -/
structure AgreeFrom (pre : Outline → Prop) (view : α → γ) (x x' : EmitM α) : Prop where
  keeps : KeepsReport x
  keeps' : KeepsReport x'
  agree : ∀ b b' a a' c c', b.outline = b'.outline → pre b.outline → x.run b = .ok (a, c) →
    x'.run b' = .ok (a', c') → c.SlotsFit → c'.SlotsFit → view a = view a' ∧ c.outline = c'.outline

/-- Two pieces of emission agree wherever they start. -/
abbrev Agree (view : α → γ) (x x' : EmitM α) : Prop :=
  AgreeFrom (fun _ => True) view x x'

theorem Body.slotsFit_congr {b c : Body} (same : c.outline = b.outline) (fits : c.SlotsFit) : b.SlotsFit := by
  have strings : c.strings = b.strings := congrArg Outline.strings same
  rwa [SlotsFit, ← strings]

namespace KeepsReport

variable {x : EmitM α}

theorem of_quiet (quiet : Quiet x gives) : KeepsReport x :=
  fun _ _ _ ran => Body.slotsFit_congr (quiet.outline_eq ran)

theorem of_modify {f : Body → Body} (keeps : ∀ b, (f b).SlotsFit → b.SlotsFit) : KeepsReport (modify f) := by
  intro b a c ran
  cases ran
  exact keeps b

theorem bind {f : α → EmitM β} (first : KeepsReport x) (second : ∀ a, KeepsReport (f a)) : KeepsReport (x >>= f) := by
  intro b a c ran fits
  rw [StateT.run_bind, bind_eq_ok] at ran
  obtain ⟨⟨r, m⟩, ran, next⟩ := ran
  exact first b r m ran (second r m a c next fits)

end KeepsReport

namespace AgreeFrom

variable {pre : Outline → Prop} {view : α → γ} {view' : β → δ} {x x' y y' : EmitM α}

theorem of_agree (agree : Agree view x x') : AgreeFrom pre view x x' :=
  ⟨agree.keeps, agree.keeps', fun b b' a a' c c' same _ => agree.agree b b' a a' c c' same trivial⟩

theorem of_eq (same : x = y) (same' : x' = y') (agrees : AgreeFrom pre view y y') : AgreeFrom pre view x x' := by
  rwa [same, same']

theorem of_quiet {gives' : α → Prop} (quiet : Quiet x gives) (quiet' : Quiet x' gives')
    (same : ∀ a a', gives a → gives' a' → view a = view a') : AgreeFrom pre view x x' where
  keeps := .of_quiet quiet
  keeps' := .of_quiet quiet'
  agree b b' a a' c c' start _ ran ran' _ _ := by
    refine ⟨same a a' (quiet b a c ran).1 (quiet' b' a' c' ran').1, ?_⟩
    rw [quiet.outline_eq ran, quiet'.outline_eq ran', start]

theorem of_silent [silent : Silent x] [silent' : Silent x'] (same : ∀ a a', view a = view a') :
    AgreeFrom pre view x x' :=
  .of_quiet silent.quiet silent'.quiet fun a a' _ _ => same a a'

theorem of_pure {a a' : α} (same : view a = view a') : AgreeFrom pre view (pure a) (pure a') := by
  have quiet (a : α) : Quiet (pure a) (· = a) := .of_pure rfl
  apply AgreeFrom.of_quiet (quiet a) (quiet a')
  intro r r' here here'
  rw [here, here', same]

theorem bind {f f' : α → EmitM β} (first : AgreeFrom pre view x x')
    (second : ∀ a a', view a = view a' → Agree view' (f a) (f' a')) : AgreeFrom pre view' (x >>= f) (x' >>= f') where
  keeps := .bind first.keeps fun r => (second r r rfl).keeps
  keeps' := .bind first.keeps' fun r => (second r r rfl).keeps'
  agree b b' a a' c c' start holds ran ran' fits fits' := by
    rw [StateT.run_bind, bind_eq_ok] at ran ran'
    obtain ⟨⟨r, m⟩, ran, next⟩ := ran
    obtain ⟨⟨r', m'⟩, ran', next'⟩ := ran'
    -- What was reported in between is still there in the end, so nothing of it is a lack of slots.
    have between := (second r r rfl).keeps m a c next fits
    have between' := (second r' r' rfl).keeps' m' a' c' next' fits'
    obtain ⟨same, met⟩ := first.agree b b' r r' m m' start holds ran ran' between between'
    exact (second r r' same).agree m m' a a' c c' met trivial next next' fits fits'

theorem seq {y y' : EmitM β} (first : AgreeFrom pre view x x') (second : Agree view' y y') :
    AgreeFrom pre view' (x >>= fun _ => y) (x' >>= fun _ => y') :=
  first.bind fun _ _ _ => second

theorem skip {ρ : Type} {z z' : EmitM ρ} {f f' : ρ → EmitM α} [silent : Silent z] [silent' : Silent z']
    (second : ∀ r r', AgreeFrom pre view (f r) (f' r')) : AgreeFrom pre view (z >>= f) (z' >>= f') where
  keeps := .bind (.of_quiet silent.quiet) fun r => (second r r).keeps
  keeps' := .bind (.of_quiet silent'.quiet) fun r => (second r r).keeps'
  agree b b' a a' c c' start holds ran ran' := by
    rw [StateT.run_bind, bind_eq_ok] at ran ran'
    obtain ⟨⟨r, m⟩, ran, next⟩ := ran
    obtain ⟨⟨r', m'⟩, ran', next'⟩ := ran'
    have kept := silent.quiet.outline_eq ran
    have met : m.outline = m'.outline := by rw [kept, silent'.quiet.outline_eq ran', start]
    exact (second r r').agree m m' a a' c c' met (kept ▸ holds) next next'

theorem past {ρ : Type} {z z' : EmitM ρ} [Silent z] [Silent z'] (second : AgreeFrom pre view x x') :
    AgreeFrom pre view (z >>= fun _ => x) (z' >>= fun _ => x') :=
  .skip fun _ _ => second

theorem bind_get {f f' : Body → EmitM α}
    (second : ∀ s s', s.outline = s'.outline → AgreeFrom pre view (f s) (f' s')) :
    AgreeFrom pre view (get >>= f) (get >>= f') where
  keeps b a c ran := (second b b rfl).keeps b a c ran
  keeps' b a c ran := (second b b rfl).keeps' b a c ran
  agree b b' a a' c c' start holds ran ran' :=
    (second b b' start).agree b b' a a' c c' start holds ran ran'

theorem of_modify {f f' : Body → Body} (keeps : ∀ b, (f b).SlotsFit → b.SlotsFit)
    (keeps' : ∀ b, (f' b).SlotsFit → b.SlotsFit)
    (same : ∀ b b', b.outline = b'.outline → (f b).outline = (f' b').outline) :
    AgreeFrom pre id (modify f) (modify f') where
  keeps := .of_modify keeps
  keeps' := .of_modify keeps'
  agree b b' a a' c c' start _ ran ran' _ _ := by
    cases ran
    cases ran'
    exact ⟨rfl, same b b' start⟩

theorem of_ite {p p' : Prop} [Decidable p] [Decidable p'] (same : p ↔ p')
    (yes : AgreeFrom pre view x x') (no : AgreeFrom pre view y y') :
    AgreeFrom pre view (if p then x else y) (if p' then x' else y') := by
  by_cases holds : p
  · rw [if_pos holds, if_pos (same.1 holds)]
    exact yes
  · rw [if_neg holds, if_neg fun holds' => holds (same.2 holds')]
    exact no

end AgreeFrom

open Lowered (unplaced isFailed_congr ty_congr)

open AgreeFrom (of_ite of_quiet of_modify bind_get skip past)

variable {scope scope' : Scope}

theorem agree_readBefore (same : v.unplaced = v'.unplaced) (later : Expr) :
    Agree unplaced (readBefore scope v later) (readBefore scope' v' later) := by
  apply of_quiet (quiet_readBefore scope v later) (quiet_readBefore scope' v' later)
  intro w w' here here'
  rw [here, here', same]

/-! ## Values -/

section

variable (alike : scope.Alike scope') {pre : Outline → Prop}

include alike

theorem agree_complain (code : Code) {message message' : String} (span : Span)
    (same : message = message') :
    AgreeFrom pre id (complain scope code message span) (complain scope' code message' span) := by
  apply of_modify
  · intro b fits
    exact Report.SlotsFit.of_error fits
  · intro b fits
    exact Report.SlotsFit.of_error fits
  · intro b b' start
    obtain ⟨strings, locals, returns⟩ := Outline.mk.inj start
    simp only [Body.outline, strings, locals, returns, same, alike.source]

theorem agree_refuse {view : α → γ} (code : Code) (message : String) (span : Span) {a a' : α}
    (same : view a = view a') : AgreeFrom pre view (complain scope code message span >>= fun _ => pure a)
      (complain scope' code message span >>= fun _ => pure a') :=
  .bind (agree_complain alike code span rfl) fun _ _ _ => .of_pure same

theorem agree_reject (code : Code) (message : String) (span : Span) :
    AgreeFrom pre unplaced (reject scope code message span) (reject scope' code message span) :=
  agree_refuse alike code message span rfl

theorem agree_asValue (span : Span) (same : v.unplaced = v'.unplaced) :
    AgreeFrom pre unplaced (asValue scope span v) (asValue scope' span v') := by
  have value {scope : Scope} {v : Lowered} (some : v.place ≠ .nothing) (plain : v.place ≠ .flags) :
      asValue scope span v = pure v := by
    unfold asValue
    split
    · next here => exact absurd here plain
    · next here => exact absurd here some
    · rfl
  rcases Lowered.place_cases same with ⟨here, here'⟩ | ⟨here, here'⟩ | ⟨here, here'⟩ | ⟨here, here'⟩
  · rw [value (by simp [here]) (by simp [here]), value (by simp [here']) (by simp [here'])]
    exact .of_pure same
  · simp only [asValue, here, here']
    exact agree_reject alike _ _ span
  · simp only [asValue, here, here']
    exact agree_reject alike _ _ span
  · rw [value here.2.1 here.2.2, value here'.2.1 here'.2.2]
    exact .of_pure same

theorem agree_value {x x' : EmitM Lowered} {f f' : Lowered → EmitM α} {view : α → γ} (span : Span)
    (first : AgreeFrom pre unplaced x x')
    (second : ∀ v v', v.unplaced = v'.unplaced → Agree view (f v) (f' v')) :
    AgreeFrom pre view (x >>= fun v => asValue scope span v >>= f) (x' >>= fun v => asValue scope' span v >>= f') :=
  first.bind fun _ _ same => (agree_asValue alike span same).bind second

theorem agree_lowerString (text : String) (span : Span) :
    Agree unplaced (lowerString scope text span) (lowerString scope' text span) where
  keeps b a c ran := by
    cases ran
    exact Strings.slotsFit_intern
  keeps' b a c ran := by
    cases ran
    exact Strings.slotsFit_intern
  agree b b' a a' c c' start _ ran ran' _ _ := by
    obtain ⟨strings, locals, returns⟩ := Outline.mk.inj start
    cases ran
    cases ran'
    simp only [Body.outline, strings, locals, returns, alike.source, and_self]

theorem agree_lowerName (name : String) (span : Span) :
    Agree unplaced (lowerName scope name span) (lowerName scope' name span) := by
  apply bind_get
  intro s s' start
  have entries := lookup?_congr (Outline.mk.inj start).2.1 name
  rcases eq_none_or_eq_some_of_map_eq entries with
    ⟨here, here'⟩ | ⟨l, l', here, here', same⟩
  · rw [here, here']
    dsimp only
    rw [alike.decls.globals, alike.decls.consts, contains_congr alike.decls.functions]
    split
    · exact .of_pure rfl
    split
    · exact .of_pure rfl
    · exact agree_reject alike _ _ span
  · rw [here, here']
    obtain ⟨ty, -, initialized, -⟩ := Local.mk.inj same
    apply of_ite (by rw [initialized])
    · exact agree_reject alike _ _ span
    · rw [ty]
      cases l.storage with
      | _ => cases l'.storage with
        | _ => exact .of_pure rfl

/-! ## Operators -/

theorem agree_binaryType {l l' r r' : Lowered} (left : l.unplaced = l'.unplaced) (op : BinOp)
    (right : r.unplaced = r'.unplaced) (span : Span) :
    Agree id (binaryType scope l op r span) (binaryType scope' l' op r' span) := by
  unfold binaryType
  rw [ty_congr left, ty_congr right, Lowered.commonType?_congr left right]
  apply of_ite Iff.rfl
  · exact agree_refuse alike _ _ span rfl
  · split
    · exact .of_pure rfl
    · exact agree_refuse alike _ _ span rfl

theorem agree_applyBinary (op : BinOp) {l l' r r' : Lowered} (left : l.unplaced = l'.unplaced)
    (right : r.unplaced = r'.unplaced) (span : Span) :
    Agree unplaced (applyBinary scope op l r span) (applyBinary scope' op l' r' span) := by
  have dropped : Agree unplaced (dropAll [l, r] >>= fun _ => pure Lowered.failed)
      (dropAll [l', r'] >>= fun _ => pure Lowered.failed) :=
    .past (.of_pure rfl)
  apply of_ite (by rw [isFailed_congr left, isFailed_congr right])
  · exact dropped
  apply AgreeFrom.bind (agree_binaryType alike left op right span)
  rintro ty _ rfl
  cases ty with
  | none => exact dropped
  | some ty =>
    apply of_ite Iff.rfl
    · apply of_quiet (quiet_compareValues scope op ty l r) (quiet_compareValues scope' op ty l' r')
      intro v v' here here'
      rw [here, here']
    · apply of_quiet (quiet_combine scope op ty l r) (quiet_combine scope' op ty l' r')
      intro v v' here here'
      rw [here, here']

theorem agree_negateValue (same : v.unplaced = v'.unplaced) (span : Span) :
    Agree unplaced (negateValue scope v span) (negateValue scope' v' span) := by
  apply of_ite (by rw [isFailed_congr same])
  · exact .of_pure same
  apply of_ite (by rw [ty_congr same])
  · apply AgreeFrom.seq (agree_complain alike _ span (by rw [ty_congr same]))
    exact .past (.of_pure rfl)
  · apply skip
    intro src src'
    apply skip
    intro dst dst'
    rw [ty_congr same]
    exact .past (.of_pure rfl)

/-! ## Elements of arrays -/

theorem agree_checkElement (array : Ty) {position position' : Lowered}
    (same : position.unplaced = position'.unplaced) (span : Span) :
    Agree id (checkElement scope array position span) (checkElement scope' array position' span) := by
  unfold checkElement
  rw [ty_congr same]
  apply of_ite Iff.rfl
  · exact agree_refuse alike _ _ span rfl
  apply of_ite Iff.rfl
  · exact agree_refuse alike _ _ span rfl
  · exact .of_pure rfl

theorem agree_readElement {array array' position position' : Lowered}
    (first : array.unplaced = array'.unplaced) (second : position.unplaced = position'.unplaced) (span : Span) :
    Agree unplaced (readElement scope array position span) (readElement scope' array' position' span) := by
  have dropped : Agree unplaced (dropAll [array, position] >>= fun _ => pure Lowered.failed)
      (dropAll [array', position'] >>= fun _ => pure Lowered.failed) :=
    .past (.of_pure rfl)
  apply of_ite (by rw [isFailed_congr first, isFailed_congr second])
  · exact dropped
  rw [ty_congr first]
  apply AgreeFrom.bind (agree_checkElement alike array'.ty second span)
  rintro fine _ rfl
  apply of_ite Iff.rfl
  · exact dropped
  apply skip
  intro a a'
  apply skip
  intro i i'
  apply skip
  intro dst dst'
  apply past
  apply past
  exact .past (.of_pure rfl)

/-! ## Calls -/

/-- Whether arguments travel in registers makes no difference to their mistakes. -/
theorem agree_placeArgument (callee : String) (registerArgs registerArgs' i : Nat) (expected : Ty) (span : Span)
    (same : v.unplaced = v'.unplaced) {args args' : Arguments} (failed : args.hasFailed = args'.hasFailed) :
    Agree Arguments.hasFailed (placeArgument scope callee registerArgs i expected span v args)
      (placeArgument scope' callee registerArgs' i expected span v' args') := by
  have placed (scope : Scope) (registerArgs : Nat) (v : Lowered) (args : Arguments) :
      Quiet (if i < registerArgs && v.isDirect then
          return { args with deferred := args.deferred ++ [(UInt8.ofNat (i + 1), v)] }
        else do
          let o ← operand scope v
          emitInsn (.push o.reg)
          release o
          if i < registerArgs then
            return { args with waiting := UInt8.ofNat (i + 1) :: args.waiting }
          return args : EmitM Arguments) fun placed => placed.hasFailed = args.hasFailed := by
    apply Quiet.of_ite
    · intro _
      exact .of_pure rfl
    intro _
    apply Quiet.bind
    intro o
    apply Quiet.seq
    apply Quiet.seq
    exact .of_ite (fun _ => .of_pure rfl) fun _ => .of_pure rfl
  apply of_ite (by rw [isFailed_congr same])
  · exact .of_pure rfl
  apply of_ite (by rw [ty_congr same, Lowered.isLiteral_congr same])
  · apply AgreeFrom.seq (agree_complain alike _ span (by rw [ty_congr same]))
    exact .past (.of_pure rfl)
  · apply of_quiet (placed scope registerArgs v args) (placed scope' registerArgs' v' args')
    intro w w' here here'
    rw [here, here', failed]

theorem agree_resolveCall (callee : Ident) (count : Nat) (span : Span) :
    Agree (Option.map (Prod.map id Function.outline))
      (resolveCall scope callee count span) (resolveCall scope' callee count span) := by
  unfold resolveCall
  have entries := lookup?_congr alike.decls.functions callee.name
  rw [find?_congr alike.decls.functions]
  cases scope'.decls.functions.find? callee.name with
  | none => exact agree_refuse alike _ _ callee.span rfl
  | some index =>
    rcases eq_none_or_eq_some_of_map_eq entries with
      ⟨here, here'⟩ | ⟨f, f', here, here', same⟩
    · rw [here, here']
      exact agree_refuse alike _ _ callee.span rfl
    · have params : f.params = f'.params := congrArg Function.Outline.params same
      rw [here, here']
      dsimp only
      rw [params]
      apply of_ite Iff.rfl
      · exact .of_pure (by simp only [Option.map_some, Prod.map_apply, same])
      · exact agree_refuse alike _ _ span rfl

/-! ## Expressions -/

mutual

/-- An expression has the same type and the same mistakes whatever the settings are. -/
theorem agree_lowerExpr : (e : Expr) → Agree unplaced (lowerExpr scope e) (lowerExpr scope' e)
  | .int _ _ | .float _ _ => .of_pure rfl
  | .str text span => agree_lowerString alike text span
  | .name id span => agree_lowerName alike id span
  | .group inner _ => agree_lowerExpr inner
  | .call callee args span => by
    rw [lowerExpr, lowerExpr]
    apply AgreeFrom.bind (agree_resolveCall alike callee args.length span)
    intro found found' same
    rcases eq_none_or_eq_some_of_map_eq same with
      ⟨rfl, rfl⟩ | ⟨⟨index, f⟩, ⟨index', f'⟩, rfl, rfl, outlines⟩
    · exact .of_pure rfl
    · have params : f'.params = f.params := congrArg (·.2.params) outlines.symm
      have ret : f'.ret = f.ret := congrArg (·.2.ret) outlines.symm
      apply bind_get
      intro s s' _
      apply past
      rw [params, ret]
      apply AgreeFrom.bind (agree_lowerArgs callee.name f.registerArgs f'.registerArgs 0 f.params args)
      intro placed placed' failed
      apply of_quiet (quiet_finishCall scope index f.ret s.pool.allocated placed)
        (quiet_finishCall scope' index' f.ret s'.pool.allocated placed')
      intro v v' here here'
      rw [here, here', failed]
  | .binary op left right span => by
    rw [lowerExpr, lowerExpr]
    apply agree_value alike left.span (agree_lowerExpr left)
    intro l l' same
    apply AgreeFrom.bind (agree_readBefore same right)
    intro l l' first
    apply agree_value alike right.span (agree_lowerExpr right)
    intro r r' second
    exact agree_applyBinary alike op first second span
  | .unary .not _ span => agree_reject alike _ _ span
  | .unary .neg operand span => by
    rw [lowerExpr, lowerExpr]
    cases negatedLiteral? operand with
    | some v => exact .of_pure rfl
    | none =>
      apply agree_value alike operand.span (agree_lowerExpr operand)
      intro v v' same
      exact agree_negateValue alike same span
  | .index array position span => by
    rw [lowerExpr, lowerExpr]
    apply agree_value alike array.span (agree_lowerExpr array)
    intro a a' same
    apply AgreeFrom.bind (agree_readBefore same position)
    intro a a' first
    apply agree_value alike position.span (agree_lowerExpr position)
    intro i i' second
    exact agree_readElement alike first second span
  | .list _ span => agree_reject alike _ _ span
  | .dot _ field _ => agree_reject alike _ _ field.span

theorem agree_lowerArgs (callee : String) (registerArgs registerArgs' i : Nat) :
    (params : List Ty) → (args : List Expr) →
    Agree Arguments.hasFailed (lowerArgs scope callee registerArgs i params args)
      (lowerArgs scope' callee registerArgs' i params args)
  | expected :: params, arg :: args => by
    rw [lowerArgs, lowerArgs]
    apply AgreeFrom.bind (agree_lowerArgs callee registerArgs registerArgs' (i + 1) params args)
    intro placed placed' failed
    apply agree_value alike arg.span (agree_lowerExpr arg)
    intro v v' same
    exact agree_placeArgument alike callee registerArgs registerArgs' i expected arg.span same failed
  | [], _ | _ :: _, [] => by
    unfold lowerArgs
    exact .of_pure rfl

end

theorem agree_lowerValue (e : Expr) : Agree unplaced (lowerValue scope e) (lowerValue scope' e) :=
  .bind (agree_lowerExpr alike e) fun _ _ same => agree_asValue alike e.span same

end

end Emission

end RegisterLang
