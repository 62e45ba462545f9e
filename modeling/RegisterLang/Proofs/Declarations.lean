import RegisterLang.Proofs.Functions

/-! # What declarations stand for

When no mistake is reported, every global and function of a program is declared once, in the order of the
text. Main statement: `faithful_of_clean`, what is known of all declarations of such a program.
-/

namespace RegisterLang.Emission

open Evaluation List SymbolTable

namespace Declared

variable {d d' : Declared} {table : Array String} {decl : FunctionDecl}

/-- How many mistakes were reported. -/
def errors (d : Declared) : Nat :=
  d.strings.report.totalErrors

/-- A declaration never takes a report back, and does what is asked when it reports no mistake. -/
def Steps (d d' : Declared) (does : Prop) : Prop :=
  d.errors ≤ d'.errors ∧ (d'.errors = d.errors → does)

namespace Steps

variable {d d' d'' : Declared} {does does' : Prop}

theorem refl (holds : does) : Steps d d does :=
  ⟨Nat.le_refl _, fun _ => holds⟩

theorem mono (steps : Steps d d' does) (weaker : does → does') : Steps d d' does' :=
  ⟨steps.1, fun same => weaker (steps.2 same)⟩

theorem trans (first : Steps d d' does) (second : Steps d' d'' does') : Steps d d'' (does ∧ does') := by
  obtain ⟨more, clean⟩ := first
  obtain ⟨more', clean'⟩ := second
  exact ⟨Nat.le_trans more more', fun same => ⟨clean (by omega), clean' (by omega)⟩⟩

theorem complain (d : Declared) (code : Code) (message : String) (span : Span) :
    Steps d (d.complain code message span) does :=
  ⟨Nat.le_succ _, fun same => absurd same (Nat.succ_ne_self _)⟩

theorem then_complain (steps : Steps d d' does) (code : Code) (message : String) (span : Span) :
    Steps d (d'.complain code message span) does' :=
  (steps.trans (.complain d' code message span)).mono And.right

end Steps

/-! ## Globals and constants -/

/-- Interning a text only adds to the strings. -/
structure Interns (d d' : Declared) : Prop where
  same : d' = { d with strings := d'.strings }
  table : Strings.Grows d.strings.table d'.strings.table

namespace Interns

variable {d d' d'' : Declared}

theorem refl (d : Declared) : Interns d d :=
  ⟨rfl, .refl _⟩

theorem decls (interns : Interns d d') : d'.decls = d.decls := by
  rw [interns.same]

theorem trans (first : Interns d d') (second : Interns d' d'') : Interns d d'' := by
  refine ⟨?_, first.table.trans second.table⟩
  rw [second.same, first.same]

end Interns

/-- The index of a string of a table. -/
def IsIndex (table : Array String) (index : UInt32) : Prop :=
  ∃ i < table.size, index = UInt32.ofNat i

variable {index : UInt32} {bits : UInt64} {ty : Ty} {decls : Declarations} {functions : List FunctionDecl}

theorem IsIndex.append (inside : IsIndex table index) (more : Array String) : IsIndex (table ++ more) index := by
  obtain ⟨i, lt, same⟩ := inside
  exact ⟨i, by rw [Array.size_append]; omega, same⟩

/-- The index at which a string of a table is found. -/
def FoundAt (table : Array String) (text : String) (index : UInt32) : Prop :=
  ∃ i, index = UInt32.ofNat i ∧ table.findIdx? (· = text) = some i

theorem FoundAt.isIndex {text : String} (found : FoundAt table text index) : IsIndex table index := by
  obtain ⟨i, same, found⟩ := found
  exact ⟨i, (Array.findIdx?_eq_some_iff_getElem.1 found).1, same⟩

theorem FoundAt.append {text : String} (found : FoundAt table text index) (more : Array String) :
    FoundAt (table ++ more) text index := by
  obtain ⟨i, same, found⟩ := found
  exact ⟨i, same, by rw [Array.findIdx?_append, found]; rfl⟩

theorem steps_intern (d : Declared) (text : String) (span : Span) :
    Steps d (d.intern text span).2 (Interns d (d.intern text span).2 ∧
      FoundAt (d.intern text span).2.strings.table text (d.intern text span).1) :=
  ⟨Strings.totalErrors_intern d.strings d.source text span, fun same =>
    ⟨⟨rfl, (Strings.interned same).table⟩, (Strings.interned same).first⟩⟩

/-- The bits and the type of a literal. -/
inductive Literal (d : Declared) (init : Expr) : Bool → UInt64 → Ty → Declared → Prop where
  | number {allowStrings : Bool} {ty : Ty} (kind : ty.primitive = .int ∨ ty.primitive = .float)
      (gives : ∀ {ω : Type} (m : Meaning ω) locals, m.eval locals init = pure (.value (literalBits init))) :
      Literal d init allowStrings (literalBits init) ty d
  | text {t : String} {span : Span} (literal : init.peel = .str t span) :
      Literal d init true (d.intern t init.span).1.toUInt64 .constString (d.intern t init.span).2

theorem literal_of_literal? {init : Expr} {allowStrings : Bool}
    (found : d.literal? init allowStrings = some ((bits, ty), d')) : Literal d init allowStrings bits ty d' := by
  have number : ∀ {ty : Ty}, ty.primitive = .int ∨ ty.primitive = .float →
      (∀ {ω : Type} (m : Meaning ω) locals, m.eval locals init = pure (.value (literalBits init))) →
      Literal d init allowStrings (literalBits init) ty d := .number
  rw [literal?] at found
  rw [literalBits] at number
  split at found
  · next v _ same =>
    cases found
    rw [same] at number
    exact number (.inl rfl) fun m locals => by rw [← Setting.eval_peel, same]; rfl
  · next bits _ same =>
    cases found
    rw [same] at number
    exact number (.inr rfl) fun m locals => by rw [← Setting.eval_peel, same]; rfl
  · next operand _ same =>
    rw [same] at number
    dsimp only at number
    have gives : ∀ {ω : Type} (m : Meaning ω) locals, m.eval locals init = (do
        let x ← m.value locals operand.peel
        return .value (negate (m.describe operand.peel).ty x)) := by
      intro ω m locals
      rw [← Setting.eval_peel, same, Setting.eval_neg, Meaning.value, Meaning.value, Setting.eval_peel,
        Setting.describe_peel]
    split at found
    · next v _ same' =>
      cases found
      rw [same'] at number gives
      exact number (.inl rfl) gives
    · next bits _ same' =>
      cases found
      rw [same'] at number gives
      exact number (.inr rfl) gives
    · cases found
  · next t _ same =>
    split at found
    · next allowed =>
      cases found
      subst allowed
      exact .text same
    · cases found
  · cases found

theorem Literal.steps {init : Expr} {allowStrings : Bool} (literal : Literal d init allowStrings bits ty d') :
    Steps d d' (Interns d d' ∧ ((ty.primitive = .int ∨ ty.primitive = .float) ∧
          (∀ {ω : Type} (m : Meaning ω) locals, m.eval locals init = pure (.value bits)) ∨
        ∃ t span index, init.peel = .str t span ∧ bits = UInt32.toUInt64 index ∧
          FoundAt d'.strings.table t index)) := by
  cases literal with
  | number kind gives => exact .refl ⟨.refl d, .inl ⟨kind, gives⟩⟩
  | @text t _ literal => exact (steps_intern d t init.span).mono fun ⟨interns, found⟩ =>
    ⟨interns, .inr ⟨t, _, _, literal, rfl, found⟩⟩

theorem accepts_number {value : Ty} (literal : Bool) (text : ty.isConstString = true)
    (kind : value.primitive = .int ∨ value.primitive = .float) : ty.accepts value literal = false := by
  simp only [Ty.isConstString, Bool.and_eq_true, decide_eq_true_eq, Bool.or_eq_true] at text
  obtain ⟨⟨⟨byte, -⟩, shape⟩, -⟩ := text
  have no_scalar : ty.isScalar = false := by
    obtain pointer | array := shape
    · simp [Ty.isScalar, pointer]
    · simp [Ty.isScalar, array]
  obtain int | float := kind
  · simp [Ty.accepts, Ty.agrees, Ty.isConstString, Ty.isAny, Ty.isInteger, no_scalar, int, byte]
  · simp [Ty.accepts, Ty.agrees, Ty.isConstString, Ty.isAny, Ty.isInteger, no_scalar, float, byte]

/-- The bits that a literal of a type is folded to: its value, or the index of its text. -/
inductive Folds (table : Array String) (e : Expr) (ty : Ty) (bits : UInt64) : Prop where
  | number (kind : ty.isConstString = false)
      (gives : ∀ {ω : Type} (m : Meaning ω) locals, m.eval locals e = pure (.value bits))
  | text {t : String} {span : Span} {index : UInt32} (literal : e.peel = .str t span)
      (same : bits = index.toUInt64) (found : FoundAt table t index)

theorem Folds.append {e : Expr} (folds : Folds table e ty bits) (more : Array String) :
    Folds (table ++ more) e ty bits := by
  cases folds with
  | number kind gives => exact .number kind gives
  | text literal same found => exact .text literal same (found.append more)

/-- What an initializer that was accepted gives. -/
structure Initializes (d : Declared) (init : Expr) (ty : Ty) (allowStrings : Bool) (bits : UInt64)
    (d' : Declared) : Prop where
  interns : Interns d d'
  value : allowStrings = false → d' = d ∧ bits = literalBits init
  folds : Folds d'.strings.table init ty bits
  small : ty.isScalar = true → ty.primitive = .byte → bits ≤ 0xFF

theorem steps_literalValue (d : Declared) (init : Expr) (ty : Ty) (name : String) (allowStrings : Bool) :
    Steps d (d.literalValue init ty name allowStrings).2
      (∃ bits, (d.literalValue init ty name allowStrings).1 = some bits ∧
        Initializes d init ty allowStrings bits (d.literalValue init ty name allowStrings).2) := by
  rw [literalValue]
  split
  · exact .complain d _ _ _
  · next bits litTy d' found =>
    have literal := literal_of_literal? found
    split
    · exact literal.steps.then_complain _ _ _
    · next accepted =>
      split
      · exact literal.steps.then_complain _ _ _
      · next small =>
        refine literal.steps.mono fun ⟨interns, kind⟩ => ⟨bits, rfl, interns, ?_, ?_, ?_⟩
        · rintro rfl
          cases literal
          exact ⟨rfl, rfl⟩
        · obtain ⟨number, gives⟩ | ⟨t, span, index, literal, same, found⟩ := kind
          · refine .number (Bool.eq_false_iff.2 fun text => ?_) gives
            simp [accepts_number _ text number] at accepted
          · exact .text literal same found
        · intro scalar byte
          simpa [scalar, byte] using small

/-- The globals and constants of some items are declared. -/
structure Items (d : Declared) (vars : List VarDecl) (consts : List ConstDecl) : Prop where
  globals : d.decls.globals.toList = vars.map fun v => (v.name.name, ⟨v.ty, initialValue v⟩)
  const_names : d.decls.consts.names = consts.map (·.name.name)
  apart : (d.decls.globals.names ++ d.decls.consts.names).Nodup
  scalar : ∀ v ∈ vars, v.ty.isArray = false
  small : ∀ v ∈ vars, v.ty.isScalar = true → v.ty.primitive = .byte → initialValue v ≤ 0xFF
  folded : ∀ x c, d.decls.consts.lookup? x = some c →
    ∃ const ∈ consts, const.name.name = x ∧ c.ty = const.ty ∧ Folds d.strings.table const.value c.ty c.bits
  functions : d.decls.functions = .empty
  short : ∀ t ∈ d.strings.table, t.utf8ByteSize ≤ Strings.maxLength

theorem not_mem_of_isTaken {name : String} (free : decls.isTaken name = false) :
    name ∉ decls.functions.names ++ (decls.globals.names ++ decls.consts.names) := by
  simpa [Declarations.isTaken, mem_names, and_assoc] using free

variable {vars : List VarDecl} {consts : List ConstDecl}

theorem Items.global (items : Items d vars consts) {var : VarDecl}
    (free : d.decls.isTaken var.name.name = false) (scalar : var.ty.isArray = false)
    (small : var.ty.isScalar = true → var.ty.primitive = .byte → initialValue var ≤ 0xFF) :
    Items { d with decls := { d.decls with
      globals := d.decls.globals.add var.name.name ⟨var.ty, initialValue var⟩ } }
      (vars ++ [var]) consts where
  globals := by
    rw [toList_add, items.globals, map_append]
    rfl
  const_names := items.const_names
  apart := by
    rw [names_add, append_assoc, singleton_append, nodup_middle, nodup_cons]
    exact ⟨mt (mem_append_right _) (not_mem_of_isTaken free), items.apart⟩
  scalar := by
    simpa [or_imp, forall_and] using ⟨items.scalar, scalar⟩
  small := by
    simpa [or_imp, forall_and] using ⟨items.small, small⟩
  folded := items.folded
  functions := items.functions
  short := items.short

theorem Items.interns (items : Items d vars consts) (interns : Interns d d') : Items d' vars consts := by
  have decls := interns.decls
  obtain ⟨more, table⟩ := interns.table.append
  refine ⟨?_, ?_, ?_, items.scalar, items.small, ?_, ?_, interns.table.short items.short⟩
  · rw [decls]
    exact items.globals
  · rw [decls]
    exact items.const_names
  · rw [decls]
    exact items.apart
  · intro x c found
    rw [decls] at found
    obtain ⟨const, member, name, ty, folds⟩ := items.folded x c found
    exact ⟨const, member, name, ty, table ▸ folds.append more⟩
  · rw [decls]
    exact items.functions

theorem Items.const (items : Items d vars consts) {decl : ConstDecl} {c : ConstValue}
    (free : d.decls.isTaken decl.name.name = false)
    (ty : c.ty = decl.ty) (folds : Folds d.strings.table decl.value c.ty c.bits) :
    Items { d with decls := { d.decls with consts := d.decls.consts.add decl.name.name c } } vars
      (consts ++ [decl]) where
  globals := items.globals
  const_names := by
    rw [names_add, items.const_names, map_append]
    rfl
  apart := by
    rw [names_add, ← append_assoc, nodup_middle, append_nil, nodup_cons]
    exact ⟨mt (mem_append_right _) (not_mem_of_isTaken free), items.apart⟩
  scalar := items.scalar
  small := items.small
  folded y c' found := by
    rw [lookup?_add] at found
    split at found
    · next here =>
      cases found
      exact ⟨decl, mem_append_right _ (mem_singleton_self _), here.symm, ty, folds⟩
    · obtain ⟨const, member, rest⟩ := items.folded y c' found
      exact ⟨const, mem_append_left _ member, rest⟩
  functions := items.functions
  short := items.short

theorem steps_declareGlobal (d : Declared) (var : VarDecl) :
    Steps d (d.declareGlobal var) (∀ vars consts, Items d vars consts →
      Items (d.declareGlobal var) (vars ++ [var]) consts) := by
  rw [declareGlobal]
  split
  · exact .complain d _ _ _
  next free =>
  split
  · exact .complain d _ _ _
  split
  · exact .complain d _ _ _
  next scalar =>
  have free : d.decls.isTaken var.name.name = false := by simpa using free
  have scalar : var.ty.isArray = false := by simpa using scalar
  cases init : var.init with
  | none =>
    have zero : initialValue var = 0 := by rw [initialValue, init]
    exact .refl fun vars consts items => zero ▸ items.global free scalar fun _ _ => zero ▸ by decide
  | some e =>
    have value : initialValue var = literalBits e := by rw [initialValue, init]
    obtain ⟨more, clean⟩ := steps_literalValue d e var.ty var.name.name false
    refine ⟨more, fun same vars consts items => ?_⟩
    obtain ⟨bits, result, initializes⟩ := clean same
    obtain ⟨kept, rfl⟩ := initializes.value rfl
    dsimp only
    rw [result, kept, ← value]
    exact items.global free scalar (value ▸ initializes.small)

theorem steps_declareConst (d : Declared) (const : ConstDecl) :
    Steps d (d.declareConst const) (∀ vars consts, Items d vars consts →
      Items (d.declareConst const) vars (consts ++ [const])) := by
  rw [declareConst]
  split
  · exact .complain d _ _ _
  next free =>
  have steps := steps_literalValue d const.value const.ty const.name.name true
  split
  · next result =>
    rw [result] at steps
    exact steps.mono nofun
  · next bits d' result =>
    rw [result] at steps
    refine steps.mono ?_
    rintro ⟨_, ⟨⟩, initializes⟩ vars consts items
    refine (items.interns initializes.interns).const ?_ rfl initializes.folds
    rw [initializes.interns.decls]
    simpa using free

/-- The variables that an item declares. -/
def itemVars : Item → List VarDecl
  | .var var => [var]
  | .const _ | .function _ => []

/-- The constants that an item declares. -/
def itemConsts : Item → List ConstDecl
  | .const const => [const]
  | .var _ | .function _ => []

theorem steps_declareItem (d : Declared) (item : Item) :
    Steps d (d.declareItem item) (∀ vars consts, Items d vars consts →
      Items (d.declareItem item) (vars ++ itemVars item) (consts ++ itemConsts item)) := by
  cases item with
  | var var =>
    simp only [itemConsts, append_nil]
    exact steps_declareGlobal d var
  | const const =>
    simp only [itemVars, append_nil]
    exact steps_declareConst d const
  | function decl =>
    simp only [itemVars, itemConsts, append_nil]
    exact .refl fun _ _ items => items

theorem steps_declareItems (d : Declared) (list : List Item) :
    Steps d (list.foldl declareItem d) (∀ vars consts, Items d vars consts →
      Items (list.foldl declareItem d) (vars ++ list.flatMap itemVars) (consts ++ list.flatMap itemConsts)) := by
  induction list generalizing d with
  | nil => exact .refl fun vars consts items => by simpa using items
  | cons item list ih =>
    refine ((steps_declareItem d item).trans (ih (d.declareItem item))).mono ?_
    rintro ⟨first, rest⟩ vars consts items
    rw [flatMap_cons, ← append_assoc, flatMap_cons, ← append_assoc]
    exact rest _ _ (first vars consts items)

theorem globals_eq_flatMap (program : Program) : program.globals = program.items.flatMap itemVars := by
  rw [Program.globals]
  induction program.items with
  | nil => rfl
  | cons item items ih =>
    cases item <;> simp [itemVars, ih]

theorem consts_eq_flatMap (program : Program) : program.consts = program.items.flatMap itemConsts := by
  rw [Program.consts]
  induction program.items with
  | nil => rfl
  | cons item items ih =>
    cases item <;> simp [itemConsts, ih]

/-! ## Functions -/

theorem steps_declareLink (d : Declared) (decl : FunctionDecl) :
    Steps d (d.declareLink decl).2 (Interns d (d.declareLink decl).2 ∧
      (d.declareLink decl).1.isSome = decl.linkage.isSome ∧ ∀ link, (d.declareLink decl).1 = some link →
        IsIndex (d.declareLink decl).2.strings.table link.library ∧
        IsIndex (d.declareLink decl).2.strings.table link.symbol) := by
  rw [declareLink]
  cases decl.linkage with
  | none => exact .refl ⟨.refl d, rfl, nofun⟩
  | some link =>
    have first := steps_intern d link.library link.span
    have second := steps_intern (d.intern link.library link.span).2 (link.symbol.getD decl.name.name) link.span
    refine (first.trans second).mono ?_
    rintro ⟨⟨interns, library⟩, interns', symbol⟩
    refine ⟨interns.trans interns', rfl, ?_⟩
    rintro _ ⟨⟩
    obtain ⟨more, table⟩ := interns'.table.append
    exact ⟨table ▸ library.isIndex.append more, symbol.isIndex⟩

theorem steps_checkParam (d : Declared) (earlier : SymbolTable Local) (param : Param) :
    Steps d (d.checkParam earlier param) (d.checkParam earlier param = d ∧ earlier.contains param.name.name = false ∧
        param.name.name ∉ d.decls.globals.names) := by
  rw [checkParam]
  split
  · refine .then_complain (?_ : Steps d _ True) _ _ _
    split
    · exact .complain d _ _ _
    split
    · exact .complain d _ _ _
    · exact .refl trivial
  · split
    · exact .complain d _ _ _
    next new =>
    split
    · exact .complain d _ _ _
    · next outside => exact .refl ⟨rfl, by simpa using new, by simpa [mem_names] using outside⟩

theorem steps_declareParams (registerArgs stackArgs p : Nat) (params : List Param)
    (locals : SymbolTable Local) (d : Declared) : Steps d (declareParams registerArgs stackArgs p params locals d).2
      ((declareParams registerArgs stackArgs p params locals d).2 = d ∧
        (declareParams registerArgs stackArgs p params locals d).1.toList = locals.toList ++
          (params.zipIdx p).map (fun (param, i) =>
            (param.name.name, ⟨param.ty, paramStorage registerArgs stackArgs i, true, true⟩)) ∧
        (locals.names.Nodup → (declareParams registerArgs stackArgs p params locals d).1.names.Nodup) ∧
        ∀ param ∈ params, param.name.name ∉ d.decls.globals.names) := by
  induction params generalizing p locals d with
  | nil => exact .refl ⟨rfl, (append_nil _).symm, id, by simp⟩
  | cons param params ih =>
    rw [declareParams]
    refine ((steps_checkParam d locals param).trans (ih _ _ _)).mono ?_
    rintro ⟨⟨same, new, outside⟩, same', list, distinct, rest⟩
    refine ⟨same'.trans same, ?_, fun earlier => distinct (nodup_names_add earlier new _), ?_⟩
    · rw [list, toList_add, zipIdx_cons, append_assoc]
      rfl
    · rw [same] at rest
      exact forall_mem_cons.2 ⟨outside, rest⟩

theorem steps_conventionOf (d : Declared) (decl : FunctionDecl) (native : Bool) :
    Steps d (d.conventionOf decl native).2 ((d.conventionOf decl native).2 = d ∧
      (native = true → (d.conventionOf decl native).1.registerArgs decl.params.length = decl.params.length)) := by
  rw [conventionOf]
  split
  · split
    · exact .complain d _ _ _
    · next few => exact .refl ⟨rfl, fun _ => Nat.min_eq_left (Nat.le_of_not_lt few)⟩
  · next other => exact .refl ⟨rfl, fun native => absurd native other⟩

/-- A function is known to its callers as its declaration says. -/
structure Describes (decl : FunctionDecl) (f : Function) (table : Array String) : Prop where
  takes : f.Takes decl.params
  ret : f.ret = decl.ret
  params : f.params = decl.params.map Param.ty
  native : f.native.isSome = decl.linkage.isSome
  direct : f.native.isSome = true → f.stackArgs = 0
  linked : ∀ link, f.native = some link → IsIndex table link.library ∧ IsIndex table link.symbol

theorem Describes.append {f : Function} (describes : Describes decl f table) (more : Array String) :
    Describes decl f (table ++ more) where
  takes := describes.takes
  ret := describes.ret
  params := describes.params
  native := describes.native
  direct := describes.direct
  linked link found :=
    ⟨(describes.linked link found).1.append more, (describes.linked link found).2.append more⟩

theorem registerArgs_le (c : Convention) (count : Nat) :
    c.registerArgs count ≤ maxRegisterArgs ∧ c.registerArgs count ≤ count := by
  cases c with
  | stack => exact ⟨Nat.zero_le _, Nat.zero_le _⟩
  | register | mixed => exact ⟨Nat.min_le_right _ _, Nat.min_le_left _ _⟩

/-- Declaring a function that is not a prototype adds it to the functions. -/
inductive AddsFunction (d : Declared) (decl : FunctionDecl) : Option Nat → Declared → Prop where
  | mk {f : Function} {strings : Strings}
      (free : d.decls.isTaken decl.name.name = false)
      (outside : ∀ param ∈ decl.params, param.name.name ∉ d.decls.globals.names)
      (table : Strings.Grows d.strings.table strings.table)
      (describes : Describes decl f strings.table) :
      AddsFunction d decl (some d.decls.functions.size) { d with
        strings, decls := { d.decls with functions := d.decls.functions.add decl.name.name f } }

theorem steps_declareFunction (d : Declared) (decl : FunctionDecl) :
    Steps d (d.declareFunction decl).2 (if decl.isPrototype then d.declareFunction decl = (none, d)
      else AddsFunction d decl (d.declareFunction decl).1 (d.declareFunction decl).2) := by
  rw [declareFunction]
  dsimp only
  split
  · next prototype =>
    rw [FunctionDecl.isPrototype, if_pos prototype]
    exact .refl rfl
  next callable =>
  rw [FunctionDecl.isPrototype]
  split
  · exact .complain d _ _ _
  next taken =>
  have linked := steps_declareLink d decl
  generalize d.declareLink decl = link at linked
  obtain ⟨native, d1⟩ := link
  have chosen := steps_conventionOf d1 decl native.isSome
  generalize d1.conventionOf decl native.isSome = convention at chosen
  obtain ⟨convention, d2⟩ := convention
  split
  · exact (linked.trans chosen).then_complain _ _ _
  next fit =>
  have params := steps_declareParams (convention.registerArgs decl.params.length)
    (decl.params.length - convention.registerArgs decl.params.length) 0 decl.params .empty d2
  generalize declareParams (convention.registerArgs decl.params.length)
    (decl.params.length - convention.registerArgs decl.params.length) 0 decl.params .empty d2 =
    declared at params
  obtain ⟨locals, d3⟩ := declared
  refine ((linked.trans chosen).trans params).mono ?_
  rintro ⟨⟨⟨interns, isNative, inside⟩, rfl, direct⟩, rfl, list, distinct, outside⟩
  obtain ⟨few, le⟩ := registerArgs_le convention decl.params.length
  have table := interns.table
  rw [interns.decls] at outside
  rw [interns.same]
  refine .mk (by simpa using taken) outside table ⟨⟨fun i => ?_, distinct nodup_nil, ?_, few, ?_⟩, rfl, rfl, isNative,
    fun native => ?_, inside⟩
  · rw [← Array.getElem?_toList]
    change locals.toList[i]? = _
    rw [list]
    simp [toList, empty, getElem?_zipIdx]
    rfl
  · exact Nat.add_sub_of_le le
  · exact Nat.le_of_not_lt fit
  · exact Nat.sub_eq_zero_of_le (Nat.le_of_eq (direct native).symm)

/-- Some functions are declared, each at its place in the list. -/
structure Callable (decls : Declarations) (table : Array String) (functions : List FunctionDecl) :
    Prop where
  size : decls.functions.size = functions.length
  apart : (decls.functions.names ++ (decls.globals.names ++ decls.consts.names)).Nodup
  outside : ∀ decl ∈ functions, ∀ param ∈ decl.params, param.name.name ∉ decls.globals.names
  entry : ∀ (i : Nat) decl, functions[i]? = some decl → ∃ f,
    decls.functions.entries[i]? = some (decl.name.name, f) ∧ Describes decl f table

theorem Callable.distinct (callable : Callable decls table functions) : decls.functions.names.Nodup :=
  callable.apart.of_append_left

theorem Callable.nil (empty : decls.functions = .empty) (apart : (decls.globals.names ++ decls.consts.names).Nodup) :
    Callable decls table [] where
  size := by rw [empty]; rfl
  apart := by rw [empty]; exact apart
  outside := by simp
  entry i decl here := by cases here

theorem Callable.add {index : Option Nat} (callable : Callable d.decls d.strings.table functions)
    (adds : AddsFunction d decl index d') :
    index = some functions.length ∧ Callable d'.decls d'.strings.table (functions ++ [decl]) := by
  obtain @⟨f, strings, free, outside, ⟨⟨more, table⟩, -⟩, describes⟩ := adds
  have size : d.decls.functions.entries.size = functions.length := callable.size
  refine ⟨congrArg some callable.size, ?_, ?_, ?_, ?_⟩
  · simp [SymbolTable.size, SymbolTable.add, size]
  · rw [names_add, append_assoc, singleton_append, nodup_middle, nodup_cons]
    exact ⟨not_mem_of_isTaken free, callable.apart⟩
  · simpa [or_imp, forall_and] using ⟨callable.outside, outside⟩
  · intro i decl' here
    change ∃ f', (d.decls.functions.entries.push _)[i]? = _ ∧ _
    rw [Array.getElem?_push]
    rw [getElem?_append] at here
    split at here
    · next earlier =>
      obtain ⟨f', entry, describes'⟩ := callable.entry i decl' here
      refine ⟨f', by rw [if_neg (by omega), entry], ?_⟩
      rw [table]
      exact describes'.append more
    · next later =>
      have last : i = functions.length := by
        have := (List.getElem?_eq_some_iff.1 here).1
        simp only [length_singleton] at this
        omega
      subst last
      rw [Nat.sub_self] at here
      cases here
      exact ⟨f, by rw [if_pos size.symm], describes⟩

/-- The indices of functions, of which `n` were declared before. -/
def number (n : Nat) : List FunctionDecl → List (Option Nat)
  | [] => []
  | decl :: decls =>
    if decl.isPrototype then none :: number n decls else some n :: number (n + 1) decls

/-- Declaring functions leaves the globals and constants alone. -/
structure Keeps (d d' : Declared) : Prop where
  settings : d'.settings = d.settings
  globals : d'.decls.globals = d.decls.globals
  consts : d'.decls.consts = d.decls.consts
  table : Strings.Grows d.strings.table d'.strings.table

theorem Keeps.refl (d : Declared) : Keeps d d :=
  ⟨rfl, rfl, rfl, .refl _⟩

theorem Keeps.trans {d'' : Declared} (first : Keeps d d') (second : Keeps d' d'') : Keeps d d'' :=
  ⟨second.settings.trans first.settings, second.globals.trans first.globals,
    second.consts.trans first.consts, first.table.trans second.table⟩

theorem AddsFunction.keeps {index : Option Nat} (adds : AddsFunction d decl index d') : Keeps d d' := by
  obtain ⟨-, -, table, -⟩ := adds
  exact ⟨rfl, rfl, rfl, table⟩

theorem steps_declareFunctions (decls : List FunctionDecl) (indices : List (Option Nat)) (d : Declared) :
    Steps d (declareFunctions decls indices d).2 (∀ functions, Callable d.decls d.strings.table functions →
      Keeps d (declareFunctions decls indices d).2 ∧ (declareFunctions decls indices d).1 =
        indices.reverse ++ number functions.length decls ∧ Callable (declareFunctions decls indices d).2.decls
        (declareFunctions decls indices d).2.strings.table (functions ++ decls.filter (!·.isPrototype))) := by
  induction decls generalizing indices d with
  | nil => exact .refl fun functions callable => ⟨.refl d, by simp [declareFunctions, number],
      by simpa [declareFunctions] using callable⟩
  | cons decl decls ih =>
    have first := steps_declareFunction d decl
    rw [declareFunctions]
    generalize d.declareFunction decl = declared at first
    obtain ⟨index, d'⟩ := declared
    refine (first.trans (ih (index :: indices) d')).mono ?_
    rintro ⟨first, rest⟩ functions callable
    split at first
    · next prototype =>
      cases first
      obtain ⟨keeps, same, callable'⟩ := rest functions callable
      refine ⟨keeps, ?_, ?_⟩
      · rw [same, number, if_pos prototype, reverse_cons, append_assoc]
        rfl
      · rwa [filter_cons_of_neg (by simp [prototype])]
    · next here =>
      obtain ⟨rfl, added⟩ := callable.add first
      obtain ⟨keeps, same, callable'⟩ := rest _ added
      refine ⟨first.keeps.trans keeps, ?_, ?_⟩
      · rw [same, number, if_neg here, reverse_cons, append_assoc, length_append]
        rfl
      · rw [filter_cons_of_pos (by simp [here])]
        rwa [append_assoc] at callable'

/-- The function to start with. -/
structure Entry (decls : Declarations) (entry : UInt32) : Prop where
  exists_main : ∃ index f, decls.functions.find? "Main" = some index ∧
    decls.functions.get? index = some f ∧ entry = UInt32.ofNat index ∧ f.native = none ∧ f.params = []

theorem steps_resolveEntry (d : Declared) (span : Span) :
    Steps d (d.resolveEntry span).2 ((d.resolveEntry span).2 = d ∧
      (d.settings.fileType = .executable → Entry d.decls (d.resolveEntry span).1)) := by
  rw [resolveEntry]
  split
  · next index found =>
    obtain ⟨f, entry⟩ := entry_of_find? found
    have here : d.decls.functions.get? index = some f := by rw [get?, entry]; rfl
    rw [here]
    dsimp only
    split
    · exact .complain d _ _ _
    next bytecode =>
    split
    · exact .complain d _ _ _
    next none =>
    refine .refl ⟨rfl, fun _ => ⟨index, f, found, here, rfl, ?_, ?_⟩⟩
    · simpa [Function.isNative] using bytecode
    · simpa using none
  · split
    · exact .complain d _ _ _
    · next other => exact .refl ⟨rfl, fun executable => absurd executable other⟩

/-! ## What holds with or without mistakes -/

/-- No global is an array and no function takes more arguments in registers than there are. -/
structure Ordinary (decls : Declarations) : Prop where
  scalar : ∀ x g, decls.globals.lookup? x = some g → g.ty.isArray = false
  few : ∀ x f, decls.functions.lookup? x = some f → f.registerArgs ≤ maxRegisterArgs

theorem Ordinary.regular {scope : Scope} (ordinary : Ordinary scope.decls) : Regular scope :=
  ⟨ordinary.scalar, ordinary.few⟩

theorem Ordinary.addGlobal (ordinary : Ordinary decls) (name : String) {g : Global} (scalar : g.ty.isArray = false) :
    Ordinary { decls with globals := decls.globals.add name g } where
  scalar x g' found := by
    rw [lookup?_add] at found
    split at found
    · cases found
      exact scalar
    · exact ordinary.scalar x g' found
  few := ordinary.few

theorem Ordinary.addFunction (ordinary : Ordinary decls) (name : String) {f : Function}
    (few : f.registerArgs ≤ maxRegisterArgs) : Ordinary { decls with functions := decls.functions.add name f } where
  scalar := ordinary.scalar
  few x f' found := by
    rw [lookup?_add] at found
    split at found
    · cases found
      exact few
    · exact ordinary.few x f' found

theorem decls_literalValue (d : Declared) (init : Expr) (ty : Ty) (name : String)
    (allowStrings : Bool) : (d.literalValue init ty name allowStrings).2.decls = d.decls := by
  rw [literalValue]
  split
  · rfl
  · next bits litTy d' found =>
    have same : d'.decls = d.decls := by
      cases literal_of_literal? found <;> rfl
    split
    · exact same
    · split <;> exact same

theorem decls_declareLink (d : Declared) (decl : FunctionDecl) : (d.declareLink decl).2.decls = d.decls := by
  rw [declareLink]
  split <;> rfl

theorem decls_conventionOf (d : Declared) (decl : FunctionDecl) (native : Bool) :
    (d.conventionOf decl native).2.decls = d.decls := by
  rw [conventionOf]
  split
  · split <;> rfl
  · rfl

theorem decls_checkParam (d : Declared) (earlier : SymbolTable Local) (param : Param) :
    (d.checkParam earlier param).decls = d.decls := by
  rw [checkParam]
  split
  · split
    · rfl
    · split <;> rfl
  · split
    · rfl
    · split <;> rfl

theorem decls_declareParams (registerArgs stackArgs p : Nat) (params : List Param)
    (locals : SymbolTable Local) (d : Declared) :
    (declareParams registerArgs stackArgs p params locals d).2.decls = d.decls := by
  induction params generalizing p locals d with
  | nil => rfl
  | cons param params ih => rw [declareParams, ih, decls_checkParam]

theorem ordinary_declareItem (ordinary : Ordinary d.decls) (item : Item) : Ordinary (d.declareItem item).decls := by
  cases item with
  | function decl => exact ordinary
  | const const =>
    rw [declareItem, declareConst]
    have same := decls_literalValue d const.value const.ty const.name.name true
    split
    · exact ordinary
    split
    · next found =>
      rw [found] at same
      exact same ▸ ordinary
    · next found =>
      rw [found] at same
      obtain ⟨scalar, few⟩ := same ▸ ordinary
      exact ⟨scalar, few⟩
  | var var =>
    rw [declareItem, declareGlobal]
    dsimp only
    split
    · exact ordinary
    split
    · exact ordinary
    split
    · exact ordinary
    next scalar =>
    have scalar : var.ty.isArray = false := by simpa using scalar
    cases var.init with
    | none => exact ordinary.addGlobal _ scalar
    | some init =>
      rw [decls_literalValue]
      exact ordinary.addGlobal _ scalar

theorem ordinary_declareFunction (ordinary : Ordinary d.decls) (decl : FunctionDecl) :
    Ordinary (d.declareFunction decl).2.decls := by
  rw [declareFunction]
  dsimp only
  split
  · exact ordinary
  split
  · exact ordinary
  split
  · change Ordinary ((d.declareLink decl).2.conventionOf decl _).2.decls
    rw [decls_conventionOf, decls_declareLink]
    exact ordinary
  · rw [decls_declareParams, decls_conventionOf, decls_declareLink]
    exact ordinary.addFunction _ (registerArgs_le _ _).1

theorem ordinary_declareFunctions (ordinary : Ordinary d.decls) (decls : List FunctionDecl)
    (indices : List (Option Nat)) : Ordinary (declareFunctions decls indices d).2.decls := by
  induction decls generalizing indices d with
  | nil => exact ordinary
  | cons decl decls ih =>
    exact ih (ordinary_declareFunction ordinary decl) _

theorem decls_resolveEntry (d : Declared) (span : Span) : (d.resolveEntry span).2.decls = d.decls := by
  rw [resolveEntry]
  split
  · split
    · split
      · rfl
      · split <;> rfl
    · rfl
  · split <;> rfl

theorem ordinary_declareProgram (source : SourceText) (settings : EmitSettings) (program : Program) :
    Ordinary (declareProgram source settings program).decls := by
  have items : ∀ (items : List Item) (d : Declared), Ordinary d.decls →
      Ordinary (items.foldl declareItem d).decls := by
    intro items
    induction items with
    | nil => exact fun d ordinary => ordinary
    | cons item items ih => exact fun d ordinary => ih _ (ordinary_declareItem ordinary item)
  rw [declareProgram]
  dsimp only
  rw [decls_resolveEntry]
  have empty : Ordinary .empty :=
    ⟨(fun x g found => nomatch found), (fun x f found => nomatch found)⟩
  exact ordinary_declareFunctions (items program.items _ empty) _ _

/-! ## Settings -/

/-- The same declarations under other settings. -/
def under (settings : EmitSettings) (d : Declared) : Declared :=
  { d with settings }

section
variable (settings : EmitSettings)

theorem literal?_under (d : Declared) (init : Expr) (allowStrings : Bool) :
    (d.under settings).literal? init allowStrings =
      (d.literal? init allowStrings).map fun (value, d) => (value, d.under settings) := by
  rw [literal?, literal?]
  split
  · rfl
  · rfl
  · split <;> rfl
  · split <;> rfl
  · rfl

theorem literalValue_under (d : Declared) (init : Expr) (ty : Ty)
    (name : String) (allowStrings : Bool) : (d.under settings).literalValue init ty name allowStrings =
      ((d.literalValue init ty name allowStrings).1,
        (d.literalValue init ty name allowStrings).2.under settings) := by
  rw [literalValue, literalValue, literal?_under]
  cases d.literal? init allowStrings with
  | none => rfl
  | some literal =>
    simp only [Option.map_some]
    split
    · rfl
    · split <;> rfl

theorem declareGlobal_under (d : Declared) (var : VarDecl) :
    (d.under settings).declareGlobal var = (d.declareGlobal var).under settings := by
  rw [declareGlobal, declareGlobal]
  change (if d.decls.isTaken var.name.name then _ else _) = _
  split
  · rfl
  split
  · rfl
  split
  · rfl
  cases var.init with
  | none => rfl
  | some init =>
    simp only [literalValue_under]
    rfl

theorem declareConst_under (d : Declared) (const : ConstDecl) :
    (d.under settings).declareConst const = (d.declareConst const).under settings := by
  rw [declareConst, declareConst]
  change (if d.decls.isTaken const.name.name then _ else _) = _
  split
  · rfl
  rw [literalValue_under]
  generalize d.literalValue const.value const.ty const.name.name true = result
  obtain ⟨bits, d'⟩ := result
  cases bits <;> rfl

theorem declareItems_under (d : Declared) (items : List Item) :
    items.foldl declareItem (d.under settings) = (items.foldl declareItem d).under settings := by
  induction items generalizing d with
  | nil => rfl
  | cons item items ih =>
    have first : (d.under settings).declareItem item = (d.declareItem item).under settings := by
      cases item with
      | function decl => rfl
      | var var => exact declareGlobal_under settings d var
      | const const => exact declareConst_under settings d const
    rw [foldl_cons, first, ih, foldl_cons]

end

end Declared

/-- The constants of a program with their bits; those of a string are its index. -/
def constants (source : SourceText) (program : Program) : SymbolTable ConstValue :=
  (program.items.foldl Declared.declareItem ⟨source, default, .empty, .empty⟩).decls.consts

/-- The strings that the constants of a program stand for. -/
def constantStrings (source : SourceText) (program : Program) : Array String :=
  (program.items.foldl Declared.declareItem ⟨source, default, .empty, .empty⟩).strings.table

/-- The declarations of a program say what the program says. -/
structure Faithful (source : SourceText) (settings : EmitSettings) (program : Program)
    (p : ProgramDecls) : Prop where
  globals : p.decls.globals.toList =
    program.globals.map fun v => (v.name.name, ⟨v.ty, initialValue v⟩)
  scalar : ∀ v ∈ program.globals, v.ty.isArray = false
  small : ∀ v ∈ program.globals, v.ty.isScalar = true → v.ty.primitive = .byte → initialValue v ≤ 0xFF
  consts : p.decls.consts = constants source program
  const_names : p.decls.consts.names = program.consts.map (·.name.name)
  folded : ∀ x c, p.decls.consts.lookup? x = some c → ∃ const ∈ program.consts, const.name.name = x ∧
    c.ty = const.ty ∧ Declared.Folds (constantStrings source program) const.value c.ty c.bits
  grows : Strings.Grows (constantStrings source program) p.strings.table
  short : ∀ t ∈ p.strings.table, t.utf8ByteSize ≤ Strings.maxLength
  callable : Declared.Callable p.decls p.strings.table program.callable
  indices : p.indices = Declared.number 0 program.functions
  entry : settings.fileType = .executable → Declared.Entry p.decls p.entry

variable {source : SourceText} {settings : EmitSettings} {program : Program}

open Declared in
theorem faithful_of_clean (clean : (declareProgram source settings program).strings.report.totalErrors = 0) :
    Faithful source settings program (declareProgram source settings program) := by
  let start : Declared := ⟨source, default, .empty, .empty⟩
  have under := declareItems_under settings start program.items
  have items := steps_declareItems (start.under settings) program.items
  have empty : Items (start.under settings) [] [] :=
    ⟨rfl, rfl, nodup_nil, by simp, by simp, (fun x c found => nomatch found), rfl,
      fun t member => nomatch Array.mem_toList_iff.2 member⟩
  rw [declareProgram] at clean ⊢
  change (program.items.foldl declareItem ⟨source, settings, .empty, .empty⟩) = _ at under
  change Steps _ (program.items.foldl declareItem ⟨source, settings, .empty, .empty⟩) (∀ vars consts, _ →
    Items (program.items.foldl declareItem ⟨source, settings, .empty, .empty⟩) _ _) at items
  generalize program.items.foldl declareItem ⟨source, settings, .empty, .empty⟩ = d at *
  have functions := steps_declareFunctions program.functions [] d
  dsimp only at clean ⊢
  generalize declareFunctions program.functions [] d = declared at *
  obtain ⟨indices, d'⟩ := declared
  have entry := steps_resolveEntry d' program.span
  generalize d'.resolveEntry program.span = resolved at *
  obtain ⟨⟨items, functions⟩, same, entry⟩ := ((items.trans functions).trans entry).2 clean
  subst same
  have items : Items d program.globals program.consts := by
    rw [globals_eq_flatMap, consts_eq_flatMap]
    exact items [] [] empty
  obtain ⟨keeps, numbered, callable⟩ := functions [] (.nil items.functions items.apart)
  have constants : constantStrings source program = d.strings.table := by
    rw [under]
    rfl
  refine ⟨?_, items.scalar, items.small, ?_, ?_, fun x c found => ?_, constants ▸ keeps.table,
    keeps.table.short items.short, callable, numbered, fun executable => entry ?_⟩
  · rw [keeps.globals, items.globals]
  · rw [keeps.consts, under]
    rfl
  · rw [keeps.consts, items.const_names]
  · rw [keeps.consts] at found
    rw [constants]
    exact items.folded x c found
  · rw [keeps.settings, under]
    exact executable

theorem Faithful.distinct {p : ProgramDecls} (faithful : Faithful source settings program p) :
    p.decls.globals.names.Nodup :=
  faithful.callable.apart.of_append_right.of_append_left

theorem Faithful.text {p : ProgramDecls} (faithful : Faithful source settings program p) (x : String) (c : ConstValue)
    (known : p.decls.consts.lookup? x = some c) (string : c.ty.isConstString = true) :
    ∃ index, c.bits = UInt32.toUInt64 index ∧ Declared.IsIndex (constantStrings source program) index := by
  obtain ⟨const, -, -, -, folds⟩ := faithful.folded x c known
  cases folds with
  | number kind => simp [string] at kind
  | text literal same found => exact ⟨_, same, found.isIndex⟩

end RegisterLang.Emission
