import Mathlib.Data.List.Forall2
import Mathlib.Data.List.Nodup
import RegisterLang.Emission.Expr
import RegisterLang.Proofs.Evaluation
import RegisterLang.Proofs.Tables

/-! # Names and types in the text

What expressions and statements read, what statements store to, and the types that they need. `Reads` says what
emission finds out about an expression in which it sees no mistake: its names stand for something, locals among
them count as initialized, its type is the one that evaluation sees, it indexes arrays only, and its calls pass what
the parameters accept.
-/

namespace RegisterLang

open Evaluation List Meaning

variable {ω : Type}

/-! ## Names in the text -/

mutual

/-- The names that an expression reads. -/
def Expr.names : Expr → List String
  | .int .. | .float .. | .str .. => []
  | .name id _ => [id]
  | .group inner _ => inner.names
  | .call _ args _ => Expr.listNames args
  | .binary _ left right _ => left.names ++ right.names
  | .unary _ operand _ => operand.names
  | .dot object _ _ => object.names
  | .list items _ => Expr.listNames items
  | .index array position _ => array.names ++ position.names

/-- The names that expressions read. -/
def Expr.listNames : List Expr → List String
  | [] => []
  | e :: es => e.names ++ Expr.listNames es

end

theorem Expr.names_peel : (e : Expr) → e.peel.names = e.names
  | .group inner _ => by
    exact names_peel inner
  | .int .. | .float .. | .str .. | .name .. | .call .. | .binary .. | .unary .. | .dot ..
  | .list .. | .index .. => rfl

namespace VarDecl

/-- The names that the initializer of a variable reads. -/
def reads (var : VarDecl) : List String :=
  if var.ty.isArray then Expr.listNames var.items else (var.init.map Expr.names).getD []

/-- The name of a variable whose declaration stores to it. -/
def stores (var : VarDecl) : List String :=
  if var.ty.isArray || var.init.isSome then [var.name.name] else []

end VarDecl

/-- The names that an assignment to an expression reads. Only names and elements are assigned to. -/
def Expr.assignReads (target value : Expr) : List String :=
  match target.peel with
  | .name _ _ => value.names
  | .index array position _ => array.names ++ position.names ++ value.names
  | _ => []

/-- The names that a statement reads, apart from those in its blocks. -/
def Stmt.reads : Stmt → List String
  | .var decl => decl.reads
  | .assign target value _ => target.assignReads value
  | .ret value _ => (value.map Expr.names).getD []
  | .branch (.mk cond _ _ _) => cond.names
  | .expr e _ => e.names
  | .block _ => []

mutual

/-- The names that a statement stores to, at any depth. -/
def Stmt.stores : Stmt → List String
  | .var decl => decl.stores
  | .assign target value span => (Stmt.assign target value span).targets
  | .ret _ _ | .expr _ _ => []
  | .branch chain => chain.stores
  | .block body => body.stores

/-- The names that statements store to. -/
def Stmt.listStores : List Stmt → List String
  | [] => []
  | stmt :: stmts => stmt.stores ++ Stmt.listStores stmts

/-- The names that a block stores to. -/
def Block.stores : Block → List String
  | .mk stmts _ => Stmt.listStores stmts

/-- The names that a conditional stores to. -/
def Conditional.stores : Conditional → List String
  | .mk _ body otherwise _ => body.stores ++ otherwise.stores

/-- The names that are stored to where a condition does not hold. -/
def Otherwise.stores : Otherwise → List String
  | .absent => []
  | .elif chain => chain.stores
  | .orElse body => body.stores

end

/-- Those of the names that are a function's own were stored to. -/
def AllStored (own : String → Bool) (stored names : List String) : Prop :=
  ∀ x ∈ names, own x = true → x ∈ stored

mutual

/-- Each own name that a statement reads was stored to before, or further up in the statement. -/
def Stmt.Ordered (own : String → Bool) (stored : List String) : Stmt → Prop
  | .var decl => AllStored own stored (Stmt.var decl).reads
  | .assign target value span => AllStored own stored (Stmt.assign target value span).reads
  | .ret value span => AllStored own stored (Stmt.ret value span).reads
  | .branch chain => chain.Ordered own stored
  | .expr e span => AllStored own stored (Stmt.expr e span).reads
  | .block body => body.Ordered own stored

/-- Each own name that statements read was stored to before, or further up in them. -/
def Stmt.ListOrdered (own : String → Bool) (stored : List String) : List Stmt → Prop
  | [] => True
  | stmt :: stmts => stmt.Ordered own stored ∧ Stmt.ListOrdered own (stored ++ stmt.stores) stmts

/-- Each own name that a block reads was stored to before, or further up in it. -/
def Block.Ordered (own : String → Bool) (stored : List String) : Block → Prop
  | .mk stmts _ => Stmt.ListOrdered own stored stmts

/-- Each own name that a conditional reads was stored to before, or further up in it. -/
def Conditional.Ordered (own : String → Bool) (stored : List String) : Conditional → Prop
  | .mk cond body otherwise _ => AllStored own stored cond.names ∧ body.Ordered own stored ∧
    otherwise.Ordered own (stored ++ body.stores)

/-- Each own name that is read where a condition does not hold was stored to further up. -/
def Otherwise.Ordered (own : String → Bool) (stored : List String) : Otherwise → Prop
  | .absent => True
  | .elif chain => chain.Ordered own stored
  | .orElse body => body.Ordered own stored

end

/-! ## Types -/

namespace Evaluation.Meaning

variable (m : Meaning ω)

/-- Whether a name is the function's own. -/
def owns (x : String) : Bool :=
  (m.local? x).isSome

/-- A value of an expression may be passed where a type is expected. -/
def Accepted (ty : Ty) (e : Expr) : Prop :=
  ty.accepts (m.describe e).ty (m.describe e).isLiteral = true

mutual

/-- Inside of an expression, arrays only are indexed, and calls pass what the parameters accept. -/
def Typed : Expr → Prop
  | .int .. | .float .. | .str .. | .name .. => True
  | .group inner _ => Typed inner
  | .call callee args _ =>
    (∃ i decl, m.function? callee.name = some (i, decl) ∧
      List.Forall₂ (fun param arg => m.Accepted param.ty arg) decl.params args) ∧ ListTyped args
  | .binary _ left right _ => Typed left ∧ Typed right
  | .unary _ operand _ => Typed operand
  | .dot object _ _ => Typed object
  | .list items _ => ListTyped items
  | .index array position _ => (m.describe array).ty.isArray = true ∧ Typed array ∧ Typed position

/-- Inside of expressions, arrays only are indexed, and calls pass what the parameters accept. -/
def ListTyped : List Expr → Prop
  | [] => True
  | e :: es => Typed e ∧ ListTyped es

end

theorem typed_peel : (e : Expr) → m.Typed e.peel = m.Typed e
  | .group inner _ => by
    rw [Expr.peel, Typed]
    exact typed_peel inner
  | .int .. | .float .. | .str .. | .name .. | .call .. | .binary .. | .unary .. | .dot ..
  | .list .. | .index .. => rfl

/-- A variable is an array where it is declared as one, and its initializer has the types that it needs. -/
def VarTyped (var : VarDecl) : Prop :=
  (m.local? var.name.name).map Ty.isArray = some var.ty.isArray ∧
    if var.ty.isArray then m.ListTyped var.items else ∀ e, var.init = some e → m.Typed e

/-- An assignment to a name that is no array or to an element has the types that it needs. -/
def AssignTyped (target value : Expr) : Prop :=
  match target.peel with
  | .name id _ => (∀ ty, m.local? id = some ty → ty.isArray = false) ∧ m.Typed value
  | .index array position span => m.Typed (.index array position span) ∧ m.Typed value
  | _ => True

mutual

/-- The expressions of a statement have the types that they need, and a result fits the type `ret`. -/
def StmtTyped (ret : Ty) : Stmt → Prop
  | .var decl => m.VarTyped decl
  | .assign target value _ => m.AssignTyped target value
  | .ret none _ => ret.isVoid = true
  | .ret (some e) _ => m.Typed e ∧ m.Accepted ret e
  | .branch chain => ConditionalTyped ret chain
  | .expr e _ => m.Typed e
  | .block body => BlockTyped ret body

/-- The expressions of statements have the types that they need. -/
def StmtsTyped (ret : Ty) : List Stmt → Prop
  | [] => True
  | stmt :: stmts => StmtTyped ret stmt ∧ StmtsTyped ret stmts

/-- The expressions of a block have the types that they need. -/
def BlockTyped (ret : Ty) : Block → Prop
  | .mk stmts _ => StmtsTyped ret stmts

/-- The expressions of a conditional have the types that they need. -/
def ConditionalTyped (ret : Ty) : Conditional → Prop
  | .mk cond body otherwise _ => m.Typed cond ∧ BlockTyped ret body ∧ OtherwiseTyped ret otherwise

/-- The expressions of what follows a condition that does not hold have the types that they need. -/
def OtherwiseTyped (ret : Ty) : Otherwise → Prop
  | .absent => True
  | .elif chain => ConditionalTyped ret chain
  | .orElse body => BlockTyped ret body

end

/-- A name stands for a parameter or local that is a constant. -/
def isConst (x : String) : Bool :=
  (m.local? x).any Ty.isConst

/-- No constant occurs twice among some names. -/
def Once (names : List String) : Prop :=
  (names.filter m.isConst).Nodup

/-- None of the names stands for a global that is a constant. -/
def Writable (names : List String) : Prop :=
  ∀ x ∈ names, m.local? x = none → ∀ i ty, m.global? x = some (i, ty) → ty.isConst = false

variable {m} {x : String}

theorem once_append_singleton {names : List String} :
    m.Once (names ++ [x]) ↔ m.Once names ∧ (m.isConst x = true → x ∉ names) := by
  unfold Once
  rw [filter_append, nodup_append]
  by_cases constant : m.isConst x = true
  · simp only [filter_cons_of_pos constant, filter_nil, nodup_singleton, true_and, mem_filter,
      mem_singleton, constant, true_implies]
    refine and_congr_right fun _ => ⟨fun apart member => ?_, fun absent y ⟨member, _⟩ z same equal => ?_⟩
    · exact apart x ⟨member, constant⟩ x rfl rfl
    · exact absent (same ▸ equal ▸ member)
  · simp [filter_cons_of_neg constant, constant]

end Evaluation.Meaning

namespace Emission

/-! ## Names -/

/-- A global or a constant has the name. -/
def Scope.Outer (scope : Scope) (x : String) : Prop :=
  scope.decls.globals.lookup? x ≠ none ∨ scope.decls.consts.lookup? x ≠ none

/-- A name that can be read: a local that counts as initialized, or a global or constant that no local
hides. -/
def Known (scope : Scope) (t : SymbolTable Local) (x : String) : Prop :=
  (∃ l, t.lookup? x = some l ∧ l.initialized = true) ∨ t.lookup? x = none ∧ scope.Outer x

/-- Evaluation sees the names that are declared so far as emission does. -/
structure Sees (m : Meaning ω) (scope : Scope) (t : SymbolTable Local) : Prop where
  local_some : ∀ x l, t.lookup? x = some l → m.local? x = some l.ty
  local_none : ∀ x, t.lookup? x = none → scope.Outer x → m.local? x = none
  global_some : ∀ x i g, scope.decls.globals.find? x = some i → scope.decls.globals.lookup? x = some g →
    m.global? x = some (i, g.ty)
  global_none : ∀ x, scope.decls.globals.lookup? x = none → m.global? x = none
  const_eq : ∀ x, m.const? x = scope.decls.consts.lookup? x
  function_some : ∀ x i f, scope.decls.functions.find? x = some i →
    scope.decls.functions.lookup? x = some f → ∃ decl : FunctionDecl,
      m.function? x = some (i, decl) ∧ decl.ret = f.ret ∧ decl.params.map (·.ty) = f.params

/-! ## Expressions -/

/-- What is known of an expression that was emitted without mistakes. -/
structure Reads (scope : Scope) (m : Meaning ω) (e : Expr) (v : Lowered) (t : SymbolTable Local) : Prop where
  known : ∀ x ∈ e.names, Known scope t x
  described : Sees m scope t → m.describe e = ⟨v.ty, v.isLiteral⟩
  typed : Sees m scope t → m.Typed e

/-- What is known of arguments that were emitted without mistakes. -/
structure ArgumentsRead (scope : Scope) (m : Meaning ω) (params : List Ty) (es : List Expr)
    (t : SymbolTable Local) : Prop where
  known : ∀ x ∈ Expr.listNames es, Known scope t x
  accepted : Sees m scope t → List.Forall₂ m.Accepted params es
  typed : Sees m scope t → m.ListTyped es

theorem isLiteral_constant (bits : UInt64) (ty : Ty) : (Lowered.constant bits ty).isLiteral = ty.isInteger := by
  rw [Lowered.isLiteral, Lowered.intConstant?, Lowered.constant]
  cases ty.isInteger <;> rfl

variable {scope : Scope} {m : Meaning ω} {e left right : Expr} {v v' l r : Lowered} {t : SymbolTable Local} {ty : Ty}

namespace Reads

theorem of_literal {bits : UInt64} (names : e.names = []) (described : m.describe e = ⟨ty, ty.isInteger⟩)
    (typed : m.Typed e) : Reads scope m e (.constant bits ty) t where
  known x member := absurd (names ▸ member) not_mem_nil
  described _ := described.trans (by rw [isLiteral_constant]; rfl)
  typed _ := typed

theorem of_local {x : String} {here : Local} {place : Place} (found : t.lookup? x = some here)
    (initialized : here.initialized = true) (variable_ : (⟨place, here.ty, none⟩ : Lowered).isLiteral = false)
    (span : Span) : Reads scope m (.name x span) ⟨place, here.ty, none⟩ t where
  known y member := mem_singleton.1 member ▸ .inl ⟨here, found, initialized⟩
  described sees := by
    rw [describe, describeName, sees.local_some x here found, variable_]
  typed _ := trivial

theorem of_global {x : String} {i : Nat} {g : Global} {place : UInt32} (missing : t.lookup? x = none)
    (at_i : scope.decls.globals.find? x = some i) (found : scope.decls.globals.lookup? x = some g) (span : Span) :
    Reads scope m (.name x span) ⟨.global place, g.ty, none⟩ t := by
  have outer : scope.Outer x := .inl (by rw [found]; exact nofun)
  refine ⟨fun y member => mem_singleton.1 member ▸ .inr ⟨missing, outer⟩, fun sees => ?_, fun _ => trivial⟩
  rw [describe, describeName, sees.local_none x missing outer, sees.global_some x i g at_i found]
  rfl

theorem of_const {x : String} {k : ConstValue} (missing : t.lookup? x = none)
    (no_global : scope.decls.globals.lookup? x = none) (found : scope.decls.consts.lookup? x = some k) (span : Span) :
    Reads scope m (.name x span) (.constant k.bits k.ty) t := by
  have outer : scope.Outer x := .inr (by rw [found]; exact nofun)
  refine ⟨fun y member => mem_singleton.1 member ▸ .inr ⟨missing, outer⟩, fun sees => ?_, fun _ => trivial⟩
  rw [describe, describeName, sees.local_none x missing outer, sees.global_none x no_global,
    sees.const_eq, found, isLiteral_constant]
  rfl

theorem congr (reads : Reads scope m e v t) (ty : v'.ty = v.ty) (literal : v'.isLiteral = v.isLiteral) :
    Reads scope m e v' t where
  known := reads.known
  described sees := by rw [reads.described sees, ty, literal]
  typed := reads.typed

theorem binary {op : BinOp} (span : Span) (first : Reads scope m left l t) (second : Reads scope m right r t)
    (common : commonType? l r = some ty)
    (result : v.ty = (if op.isComparison then .int else ty) ∧ v.isLiteral = false) :
    Reads scope m (.binary op left right span) v t where
  known := forall_mem_append.2 ⟨first.known, second.known⟩
  described sees := by
    have common : Evaluation.commonType? (m.describe left) (m.describe right) = some ty := by
      rw [first.described sees, second.described sees]
      exact common
    rw [describe, common, result.1, result.2]
    split <;> rfl
  typed sees := ⟨first.typed sees, second.typed sees⟩

theorem negatedLiteral {operand : Expr} (span : Span) (literal : negatedLiteral? operand = some v) :
    Reads scope m (.unary .neg operand span) v t := by
  have names : (Expr.unary .neg operand span).names = operand.peel.names := (Expr.names_peel operand).symm
  have typed : m.Typed (.unary .neg operand span) = m.Typed operand.peel := (m.typed_peel operand).symm
  rw [negatedLiteral?] at literal
  split at literal
  · next x _ peeled =>
    cases literal
    rw [peeled] at names typed
    refine .of_literal names ?_ (typed ▸ trivial)
    rw [describe, peeled]
    rfl
  · next bits _ peeled =>
    cases literal
    rw [peeled] at names typed
    refine .of_literal names ?_ (typed ▸ trivial)
    rw [describe, peeled]
    rfl
  · cases literal

theorem negate {operand : Expr} (span : Span) (other : negatedLiteral? operand = none)
    (reads : Reads scope m operand v t) (result : v'.ty = .scalar v.ty.primitive ∧ v'.isLiteral = false) :
    Reads scope m (.unary .neg operand span) v' t where
  known := reads.known
  described sees := by
    rw [negatedLiteral?] at other
    rw [describe, reads.described sees, result.1, result.2]
    generalize operand.peel = peeled at other ⊢
    cases peeled with
    | int | float => cases other
    | _ => rfl
  typed := reads.typed

theorem index {array position : Expr} (span : Span) (first : Reads scope m array l t)
    (second : Reads scope m position r t) (isArray : l.ty.isArray = true)
    (result : v.ty = l.ty.element ∧ v.isLiteral = false) : Reads scope m (.index array position span) v t where
  known := forall_mem_append.2 ⟨first.known, second.known⟩
  described sees := by
    rw [describe, first.described sees, result.1, result.2]
  typed sees := ⟨by rw [first.described sees]; exact isArray, first.typed sees, second.typed sees⟩

theorem call {callee : Ident} {args : List Expr} {index : Nat} {f : Function} (span : Span)
    (at_index : scope.decls.functions.find? callee.name = some index)
    (found : scope.decls.functions.lookup? callee.name = some f) (arguments : ArgumentsRead scope m f.params args t)
    (result : v.ty = f.ret ∧ v.isLiteral = false) : Reads scope m (.call callee args span) v t where
  known := arguments.known
  described sees := by
    obtain ⟨decl, function, ret, -⟩ := sees.function_some callee.name index f at_index found
    rw [describe, function, result.1, result.2, ← ret]
  typed sees := by
    obtain ⟨decl, function, -, params⟩ := sees.function_some callee.name index f at_index found
    refine ⟨⟨index, decl, function, ?_⟩, arguments.typed sees⟩
    have accepted := arguments.accepted sees
    rw [← params, forall₂_map_left_iff] at accepted
    exact accepted

end Reads

namespace ArgumentsRead

theorem nil : ArgumentsRead scope m [] [] t :=
  ⟨forall_mem_nil _, fun _ => .nil, fun _ => trivial⟩

theorem cons {params : List Ty} {es : List Expr} (reads : Reads scope m e v t)
    (accepted : ty.accepts v.ty v.isLiteral = true) (rest : ArgumentsRead scope m params es t) :
    ArgumentsRead scope m (ty :: params) (e :: es) t where
  known := forall_mem_append.2 ⟨reads.known, rest.known⟩
  accepted sees := .cons (by rw [Meaning.Accepted, reads.described sees]; exact accepted) (rest.accepted sees)
  typed sees := ⟨reads.typed sees, rest.typed sees⟩

end ArgumentsRead

/-! ## Statements -/

/-- The locals that count as initialized are among those that were stored to. -/
def Marks (t : SymbolTable Local) (stored : List String) : Prop :=
  ∀ x l, t.lookup? x = some l → l.initialized = true → x ∈ stored

/-- Names that can be read are those of locals that were stored to, and of no locals. -/
theorem Sees.allStored (sees : Sees m scope t) {stored names : List String} (marks : Marks t stored)
    (known : ∀ x ∈ names, Known scope t x) : AllStored m.owns stored names := by
  intro x member own
  rcases known x member with ⟨l, found, initialized⟩ | ⟨missing, outer⟩
  · exact marks x l found initialized
  · rw [owns, sees.local_none x missing outer] at own
    cases own

/-- What is known of a part of the text that only reads. -/
def Legible (scope : Scope) (m : Meaning ω) (names : List String) (typed : Prop) (t : SymbolTable Local) : Prop :=
  (∀ x ∈ names, Known scope t x) ∧ (Sees m scope t → typed)

theorem Reads.legible (reads : Reads scope m e v t) : Legible scope m e.names (m.Typed e) t :=
  ⟨reads.known, reads.typed⟩

/-- What a part of the text does to the table of locals, and what is known of it in the end. Only what it stores to
becomes initialized, and can be read behind it; no constant is among it that could be read before. -/
structure Walks (scope : Scope) (m : Meaning ω) (stores : List String) (ordered : List String → Prop) (typed : Prop)
    (t t' : SymbolTable Local) : Prop where
  sees : Sees m scope t' → Sees m scope t
  marked : ∀ x l', t'.lookup? x = some l' → l'.initialized = true →
    (∃ l, t.lookup? x = some l ∧ l.initialized = true) ∨ x ∈ stores
  known : ∀ x, Known scope t x ∨ x ∈ stores → Known scope t' x
  ordered : Sees m scope t' → ∀ stored, Marks t stored → ordered stored
  typed : Sees m scope t' → typed
  once : Sees m scope t' → ∀ stored, (∀ x ∈ stored, Known scope t x) → m.Once stored → m.Once (stored ++ stores)
  writable : Sees m scope t' → m.Writable stores

namespace Walks

variable {t1 t' : SymbolTable Local} {x : String} {names stores stores' : List String}
  {ordered ordered' : List String → Prop} {typed typed' : Prop}

theorem of_legible (same : t' = t) (legible : Legible scope m names typed t) :
    Walks scope m [] (AllStored m.owns · names) typed t t' where
  sees sees := same ▸ sees
  marked x l found initialized := .inl ⟨l, same ▸ found, initialized⟩
  known x known := same ▸ known.resolve_right not_mem_nil
  ordered sees _ marks := (same ▸ sees).allStored marks legible.1
  typed sees := legible.2 (same ▸ sees)
  once _ stored _ once := by rwa [append_nil]
  writable _ := forall_mem_nil _

theorem nothing (t : SymbolTable Local) : Walks scope m [] (fun _ => True) True t t :=
  have walks := of_legible rfl (⟨forall_mem_nil _, fun _ => trivial⟩ : Legible scope m [] True t)
  { walks with ordered := fun _ _ _ => trivial }

theorem of_one (sees : Sees m scope t' → Sees m scope t)
    (marked : ∀ y l', t'.lookup? y = some l' → l'.initialized = true →
      (∃ l, t.lookup? y = some l ∧ l.initialized = true) ∨ y ∈ [x])
    (known : ∀ y, Known scope t y ∨ y ∈ [x] → Known scope t' y) (legible : Legible scope m names typed t)
    (fresh : Sees m scope t → m.isConst x = true → ¬ Known scope t x)
    (writable : Sees m scope t → m.local? x = none → ∀ i ty, m.global? x = some (i, ty) → ty.isConst = false) :
    Walks scope m [x] (AllStored m.owns · names) typed t t' where
  sees := sees
  marked := marked
  known := known
  ordered here _ marks := (sees here).allStored marks legible.1
  typed here := legible.2 (sees here)
  once here stored known once := once_append_singleton.2
    ⟨once, fun constant member => fresh (sees here) constant (known x member)⟩
  writable here y member := by
    cases mem_singleton.1 member
    exact writable (sees here)

theorem of_global {i : Nat} {g : Global} (here : scope.decls.globals.find? x = some i)
    (isGlobal : scope.decls.globals.lookup? x = some g) (writable : g.ty.isConst = false)
    (missing : t.lookup? x = none) (same : t' = t) (legible : Legible scope m names typed t) :
    Walks scope m [x] (AllStored m.owns · names) typed t t' := by
  subst same
  have outer : scope.Outer x := .inl (by simp [isGlobal])
  refine .of_one id (fun _ l found initialized => .inl ⟨l, found, initialized⟩) ?_ legible (fun sees constant _ => ?_)
    fun sees _ j ty found => ?_
  · rintro y (known | member)
    · exact known
    · exact mem_singleton.1 member ▸ .inr ⟨missing, outer⟩
  · rw [isConst, sees.local_none x missing outer] at constant
    cases constant
  · cases found.symm.trans (sees.global_some x i g here isGlobal)
    exact writable

theorem mono (walks : Walks scope m stores ordered typed t t') (order : ∀ stored, ordered stored → ordered' stored)
    (type : Sees m scope t → typed → typed') : Walks scope m stores ordered' typed' t t' :=
  { walks with
    ordered := fun sees stored marks => order stored (walks.ordered sees stored marks)
    typed := fun sees => type (walks.sees sees) (walks.typed sees) }

theorem seq (first : Walks scope m stores ordered typed t t1) (second : Walks scope m stores' ordered' typed' t1 t') :
    Walks scope m (stores ++ stores') (fun stored => ordered stored ∧ ordered' (stored ++ stores))
      (typed ∧ typed') t t' where
  sees sees := first.sees (second.sees sees)
  marked x l' found' initialized := by
    rw [mem_append]
    rcases second.marked x l' found' initialized with ⟨l1, found1, initialized1⟩ | stored
    · exact (first.marked x l1 found1 initialized1).imp_right .inl
    · exact .inr (.inr stored)
  known x known := by
    rw [mem_append, ← or_assoc] at known
    exact second.known x (known.imp_left (first.known x))
  ordered sees stored marks := by
    refine ⟨first.ordered (second.sees sees) stored marks, second.ordered sees _ fun x l1 found initialized => ?_⟩
    rw [mem_append]
    exact (first.marked x l1 found initialized).imp_left fun ⟨l, found, initialized⟩ => marks x l found initialized
  typed sees := ⟨first.typed (second.sees sees), second.typed sees⟩
  once sees stored known once := by
    rw [← append_assoc]
    apply second.once sees
    · exact forall_mem_append.2
        ⟨fun x member => first.known x (.inl (known x member)), fun x member => first.known x (.inr member)⟩
    · exact first.once (second.sees sees) stored known once
  writable sees := forall_mem_append.2 ⟨first.writable (second.sees sees), second.writable sees⟩

theorem after {ty : Ty} {storage : Storage} (absent : t.lookup? x = none) (inner : ¬ scope.Outer x)
    (sees : Sees m scope (t.add x ⟨ty, storage, false, false⟩) → Sees m scope t)
    (walks : Walks scope m stores ordered typed (t.add x ⟨ty, storage, false, false⟩) t') :
    Walks scope m stores ordered ((m.local? x).map Ty.isArray = some ty.isArray ∧ typed) t t' := by
  have declared : Walks scope m [] (fun _ => True) ((m.local? x).map Ty.isArray = some ty.isArray) t
      (t.add x ⟨ty, storage, false, false⟩) := by
    refine ⟨sees, fun y l found initialized => ?_, fun y known => ?_, fun _ _ _ => trivial, fun sees => ?_,
      fun _ stored _ once => by rwa [append_nil], fun _ => forall_mem_nil _⟩
    · rw [SymbolTable.lookup?_add] at found
      split at found
      · cases found
        cases initialized
      · exact .inl ⟨l, found, initialized⟩
    · have known := known.resolve_right not_mem_nil
      have other : y ≠ x := by
        rintro rfl
        rcases known with ⟨l, found, -⟩ | ⟨-, outer⟩
        · cases absent.symm.trans found
        · exact inner outer
      unfold Known
      rw [SymbolTable.lookup?_add, if_neg other]
      exact known
    · rw [sees.local_some x _ (by rw [SymbolTable.lookup?_add, if_pos rfl])]
      rfl
  refine (declared.seq walks).mono (fun stored done => ?_) fun _ => id
  rw [append_nil] at done
  exact done.2

theorem conditional {cond : Expr} {body : Block} {otherwise : Otherwise} {ret : Ty} {t2 : SymbolTable Local}
    (span : Span) (tests : Walks scope m [] (AllStored m.owns · cond.names) (m.Typed cond) t t1)
    (first : Walks scope m body.stores (body.Ordered m.owns) (m.BlockTyped ret body) t1 t2)
    (second : Walks scope m otherwise.stores (otherwise.Ordered m.owns) (m.OtherwiseTyped ret otherwise) t2 t') :
    Walks scope m (Conditional.mk cond body otherwise span).stores
      ((Conditional.mk cond body otherwise span).Ordered m.owns)
      (m.ConditionalTyped ret (.mk cond body otherwise span)) t t' := by
  have walks := tests.seq (first.seq second)
  simp only [append_nil] at walks
  exact walks

end Walks

end Emission

end RegisterLang
