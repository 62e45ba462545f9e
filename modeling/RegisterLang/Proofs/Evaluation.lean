import RegisterLang.Ast
import RegisterLang.CodeBuffer.Selection
import RegisterLang.Emission.Scope
import RegisterLang.Machine.ArrayHeap

/-! # What programs mean

A program is evaluated directly from its tree. Operands are evaluated from left to right, arguments from
right to left. A local belongs to the whole function, wherever it is declared in it; what reading one that
nothing was stored in gives is a parameter, and so are the functions of libraries. Every evaluation ends:
there are no loops, and calls nest as deep as there is room.
-/

namespace RegisterLang

/-- The ways in which a program can end its run by a fault. -/
inductive Trap where
  | divisionByZero
  | callDepthExceeded
  | nullArray
  | staleArray
  | arrayIndexOutOfBounds
  | arrayTooLarge
  deriving DecidableEq, Repr

/-- The fault of a program that a fault of the machine is. The others are mistakes of the code or of the
host, or come from the step limit. -/
def Fault.trap? : Fault → Option Trap
  | divisionByZero .. => some .divisionByZero
  | callDepthExceeded .. => some .callDepthExceeded
  | nullArray => some .nullArray
  | staleArray .. => some .staleArray
  | arrayIndexOutOfBounds .. => some .arrayIndexOutOfBounds
  | arrayTooLarge .. => some .arrayTooLarge
  | noImage | noEntryPoint | link .. | invalidInstruction .. | fellOffEnd .. | badFunction ..
  | badGlobal .. | badString .. | badSlot .. | stackUnderflow .. | stepLimitExceeded .. => none

namespace BinOp

/-- The operation of an arithmetic operator; none for a comparison. -/
def arith? : BinOp → Option ArithOp
  | add => some .add
  | sub => some .sub
  | mul => some .mul
  | div => some .div
  | eq | notEq | less | greater | lessEq | greaterEq => none

/-- Whether a comparison holds of two values in a given order; they may have none. -/
def holdsOn (op : BinOp) (order : Option Ordering) : Bool :=
  match op with
  | eq => order = some .eq
  | notEq => order ≠ some .eq
  | less => order = some .lt
  | greater => order = some .gt
  | lessEq => order = some .lt || order = some .eq
  | greaterEq => order = some .gt || order = some .eq
  | add | sub | mul | div => false

end BinOp

namespace VarDecl

/-- The items of the list that an array starts with. -/
def items (var : VarDecl) : List Expr :=
  match var.init.map Expr.peel with
  | some (.list items _) => items
  | _ => []

/-- The length of an array: as declared, else as long as its list. -/
def arrayLength (var : VarDecl) : Nat :=
  if 0 < var.ty.arrayLen then var.ty.arrayLen else var.items.length

/-- The type of a variable, with the length of an array filled in. -/
def fullTy (var : VarDecl) : Ty :=
  if var.ty.isArray then { var.ty with arrayLen := var.arrayLength } else var.ty

end VarDecl

/-- A function without a body of its own or in a library. -/
def FunctionDecl.isPrototype (decl : FunctionDecl) : Bool :=
  decl.body.isNone && decl.linkage.isNone

/-- The functions that a program can call, in source order. -/
def Program.callable (program : Program) : List FunctionDecl :=
  program.functions.filter (!·.isPrototype)

/-- The constants of a program, in source order. -/
def Program.consts (program : Program) : List ConstDecl :=
  program.items.filterMap fun
    | .const decl => some decl
    | _ => none

mutual

/-- The variables that a statement declares, at any depth. -/
def Stmt.vars : Stmt → List VarDecl
  | .var decl => [decl]
  | .assign .. | .ret .. | .expr .. => []
  | .branch chain => chain.vars
  | .block body => body.vars

/-- The variables that statements declare. -/
def Stmt.listVars : List Stmt → List VarDecl
  | [] => []
  | stmt :: stmts => stmt.vars ++ Stmt.listVars stmts

/-- The variables that a block declares. -/
def Block.vars : Block → List VarDecl
  | .mk stmts _ => Stmt.listVars stmts

/-- The variables that a conditional declares. -/
def Conditional.vars : Conditional → List VarDecl
  | .mk _ body otherwise _ => body.vars ++ otherwise.vars

/-- The variables that are declared where a condition does not hold. -/
def Otherwise.vars : Otherwise → List VarDecl
  | .absent => []
  | .elif chain => chain.vars
  | .orElse body => body.vars

end

mutual

/-- The names that a statement assigns to, at any depth. -/
def Stmt.targets : Stmt → List String
  | .assign target _ _ =>
    match target.peel with
    | .name id _ => [id]
    | _ => []
  | .var _ | .ret _ _ | .expr _ _ => []
  | .branch chain => chain.targets
  | .block body => body.targets

/-- The names that statements assign to. -/
def Stmt.listTargets : List Stmt → List String
  | [] => []
  | stmt :: stmts => stmt.targets ++ Stmt.listTargets stmts

/-- The names that a block assigns to. -/
def Block.targets : Block → List String
  | .mk stmts _ => Stmt.listTargets stmts

/-- The names that a conditional assigns to. -/
def Conditional.targets : Conditional → List String
  | .mk _ body otherwise _ => body.targets ++ otherwise.targets

/-- The names that are assigned to where a condition does not hold. -/
def Otherwise.targets : Otherwise → List String
  | .absent => []
  | .elif chain => chain.targets
  | .orElse body => body.targets

end

namespace Evaluation

/-! ## Evaluations -/

/-- What outlives a call. -/
structure Store (ω : Type) where
  globals : Array Value
  arrays : ArrayHeap
  /-- The world outside of the program. -/
  world : ω

/-- Why an evaluation ends without a result. -/
inductive Stop where
  | trap (t : Trap)
  /-- A local was read that nothing was stored in. -/
  | unassigned
  /-- The program has no meaning. -/
  | stuck
  deriving DecidableEq, Repr

/-- An evaluation takes a store and values to choose where the language leaves the choice open. It gives a
result or the reason why there is none, and what is left of both. -/
def Eval (ω α : Type) : Type :=
  Store ω → List Value → Except Stop α × Store ω × List Value

variable {ω α β : Type}

namespace Eval

def pure (a : α) : Eval ω α :=
  fun store choices => (.ok a, store, choices)

def bind (x : Eval ω α) (f : α → Eval ω β) : Eval ω β := fun store choices =>
  match x store choices with
  | (.ok a, store, choices) => f a store choices
  | (.error stop, store, choices) => (.error stop, store, choices)

instance : Monad (Eval ω) where
  pure := pure
  bind := bind

instance : LawfulMonad (Eval ω) := by
  refine .mk' _ ?_ ?_ ?_
  · intro α x
    funext store choices
    change bind x (fun a => pure (id a)) store choices = x store choices
    rw [bind]
    obtain ⟨r | a, rest⟩ := x store choices <;> rfl
  · intros
    rfl
  · intro α β γ x f g
    funext store choices
    change bind (bind x f) g store choices = bind x (fun a => bind (f a) g) store choices
    rw [bind, bind, bind]
    obtain ⟨r | a, rest⟩ := x store choices <;> rfl

/-- End without a result. -/
def stop (reason : Stop) : Eval ω α :=
  fun store choices => (.error reason, store, choices)

/-- The next value to choose, zero when none is left. -/
def choose : Eval ω Value := fun store choices =>
  (.ok (choices.headD 0), store, choices.tail)

/-- The value of a global. -/
def getGlobal (index : Nat) : Eval ω Value := fun store choices =>
  match store.globals[index]? with
  | some v => (.ok v, store, choices)
  | none => (.error .stuck, store, choices)

/-- Store a value in a global. -/
def setGlobal (index : Nat) (v : Value) : Eval ω Unit := fun store choices =>
  (.ok (), { store with globals := store.globals.setIfInBounds index v }, choices)

/-- Use the arrays. -/
def onArrays (f : ArrayHeap → Except Fault α × ArrayHeap) : Eval ω α := fun store choices =>
  match f store.arrays with
  | (.ok a, arrays) => (.ok a, { store with arrays }, choices)
  | (.error fault, arrays) =>
    (.error (match fault.trap? with | some t => .trap t | none => .stuck), { store with arrays }, choices)

/-- Call a function of a library, which acts on the world. -/
def outside (f : ω → Value × ω) : Eval ω Value := fun store choices =>
  let (v, world) := f store.world
  (.ok v, { store with world }, choices)

end Eval

/-- Create an array of zeros. -/
def createArray (length : Nat) : Eval ω Value := do
  let handle ← Eval.onArrays fun h => h.create (UInt64.ofNat length)
  return Value.ofHandle handle

def readElement (array index : Value) : Eval ω Value :=
  Eval.onArrays fun h => h.get array.handle index

def writeElement (array index v : Value) : Eval ω Unit :=
  Eval.onArrays fun h => h.set array.handle index v

def destroyArray (array : Value) : Eval ω Unit :=
  Eval.onArrays fun h => h.destroy array.handle

/-! ## Names and types -/

/-- The values of the locals of a function, as far as something was stored in them. -/
abbrev Locals : Type := String → Option Value

namespace Locals

def set (locals : Locals) (name : String) (v : Value) : Locals :=
  fun other => if other = name then some v else locals other

@[simp] theorem set_self (locals : Locals) (name : String) (v : Value) : locals.set name v name = some v :=
  if_pos rfl

theorem set_of_ne (locals : Locals) {name other : String} (v : Value) (apart : other ≠ name) :
    locals.set name v other = locals other :=
  if_neg apart

variable {locals : Locals} {name other : String} {v w : Value}

theorem set_eq_some (stored : locals.set name v other = some w) :
    other = name ∧ w = v ∨ other ≠ name ∧ locals other = some w := by
  by_cases same : other = name
  · rw [same, set_self] at stored
    exact .inl ⟨same, (Option.some.inj stored).symm⟩
  · exact .inr ⟨same, set_of_ne locals v same ▸ stored⟩

theorem set_eq_none (missing : locals.set name v other = none) : other ≠ name ∧ locals other = none := by
  by_cases same : other = name
  · rw [same, set_self] at missing
    cases missing
  · exact ⟨same, set_of_ne locals v same ▸ missing⟩

end Locals

/-- What is known of an expression before it is evaluated. -/
structure Described where
  ty : Ty
  /-- Whether it counts as an integer literal where types are compared. -/
  isLiteral : Bool
  deriving DecidableEq, Repr

/-- The type in which two operands are combined. The type `Any` wins over others, and an integer literal
takes the type of the other integer. -/
def commonType? (l r : Described) : Option Ty :=
  if l.ty.agrees r.ty then some (.scalar l.ty.primitive)
  else if l.ty.primitive = .any || r.ty.primitive = .any then some .any
  else if l.isLiteral && r.ty.isInteger then some (.scalar r.ty.primitive)
  else if r.isLiteral && l.ty.isInteger then some (.scalar l.ty.primitive)
  else none

/-- What the body of a function can refer to. -/
structure Meaning (ω : Type) where
  /-- The types of the function's own parameters and locals. -/
  local? : String → Option Ty
  /-- The globals, with their index. -/
  global? : String → Option (Nat × Ty)
  const? : String → Option Emission.ConstValue
  /-- The functions, with their index. -/
  function? : String → Option (Nat × FunctionDecl)
  /-- Where the text of a string literal lies. -/
  text : String → Value
  /-- Where the string with an index lies. -/
  address : Nat → Value
  /-- What reading a local of a type gives that nothing was stored in. -/
  unassigned : Ty → Eval ω Value
  /-- Call the function with an index. -/
  invoke : Nat → List Value → Eval ω Value

namespace Meaning

variable (m : Meaning ω)

/-- What is known of a name: a local, else a global, else a constant. -/
def describeName (name : String) : Described :=
  match m.local? name with
  | some ty => ⟨ty, false⟩
  | none =>
    match m.global? name with
    | some (_, ty) => ⟨ty, false⟩
    | none =>
      match m.const? name with
      | some c => ⟨c.ty, c.ty.isInteger⟩
      | none => ⟨.unknown, false⟩

/-- What is known of an expression. -/
def describe : Expr → Described
  | .int v _ => ⟨.intLiteral (immediateWidth v), true⟩
  | .float _ _ => ⟨.float, false⟩
  | .str _ _ => ⟨.constString, false⟩
  | .name id _ => m.describeName id
  | .group inner _ => describe inner
  | .call callee _ _ =>
    match m.function? callee.name with
    | some (_, decl) => ⟨decl.ret, false⟩
    | none => ⟨.unknown, false⟩
  | .binary op l r _ =>
    if op.isComparison then ⟨.int, false⟩
    else ⟨(commonType? (describe l) (describe r)).getD .unknown, false⟩
  | .unary _ operand _ =>
    match operand.peel with
    | .int _ _ => ⟨.int, true⟩
    | .float _ _ => ⟨.float, false⟩
    | _ => ⟨.scalar (describe operand).ty.primitive, false⟩
  | .index array _ _ => ⟨(describe array).ty.element, false⟩
  | .list _ _ | .dot _ _ _ => ⟨.unknown, false⟩

end Meaning

/-! ## Expressions -/

/-- What an expression gives. -/
inductive Answer where
  | value (v : Value)
  /-- Nothing: a function without a result was called. -/
  | nothing
  /-- A comparison, and whether a conditional on it takes its first block. -/
  | comparison (first : Bool)
  deriving DecidableEq, Repr

/-- Require a value. -/
def Answer.get : Answer → Eval ω Value
  | value v => return v
  | nothing | comparison _ => Eval.stop .stuck

/-- The order of two values of a given kind. -/
def order? (kind : NumKind) (a b : Value) : Option Ordering :=
  match kind with
  | .signed => some (compare a.signed b.signed)
  | .unsigned => some (compare a.toNat b.toNat)
  | .float => Binary64.compare? a b

/-- Combine two values in a given type. A conditional on a comparison takes its first block unless the
opposite comparison holds; that makes a difference for numbers without an order only. -/
def applyBinary (op : BinOp) (ty : Ty) (a b : Value) : Eval ω Answer :=
  match op.arith? with
  | none => return .comparison (!op.inverse.holdsOn (order? ty.numKind a b))
  | some arith =>
    match Value.arith? arith ty.numKind a b with
    | some v => return .value v
    | none => Eval.stop (.trap .divisionByZero)

/-- The negative of a value of a given type. -/
def negate (ty : Ty) (a : Value) : Value :=
  if ty.isFloat then Binary64.negate a else -a

namespace Meaning

variable (m : Meaning ω)

/-- The value of a constant: an address for a string, else its bits. -/
def constValue (c : Emission.ConstValue) : Value :=
  if c.ty.isConstString then m.address c.bits.toUInt32.toNat else c.bits

/-- The value of a local. -/
def readLocal (locals : Locals) (name : String) (ty : Ty) : Eval ω Value :=
  match locals name with
  | some v => return v
  | none => m.unassigned ty

/-- The value of a name. -/
def readName (locals : Locals) (name : String) : Eval ω Value :=
  match m.local? name with
  | some ty => m.readLocal locals name ty
  | none =>
    match m.global? name with
    | some (index, _) => Eval.getGlobal index
    | none =>
      match m.const? name with
      | some c => return m.constValue c
      | none => Eval.stop .stuck

/-- Call a function by its name. -/
def call (callee : String) (args : List Value) : Eval ω Answer :=
  match m.function? callee with
  | none => Eval.stop .stuck
  | some (index, decl) =>
    if decl.params.length = args.length then do
      let v ← m.invoke index args
      return if decl.ret.isVoid then .nothing else .value v
    else Eval.stop .stuck

mutual

/-- Evaluate an expression. -/
def eval (locals : Locals) : Expr → Eval ω Answer
  | .int v _ => return .value v
  | .float bits _ => return .value bits
  | .str text _ => return .value (m.text text)
  | .name id _ => do
    let v ← m.readName locals id
    return .value v
  | .group inner _ => eval locals inner
  | .call callee args _ => do
    let vs ← evalArgs locals args
    m.call callee.name vs
  | .binary op l r _ => do
    let x ← eval locals l
    let a ← x.get
    let y ← eval locals r
    let b ← y.get
    match commonType? (m.describe l) (m.describe r) with
    | some ty => applyBinary op ty a b
    | none => Eval.stop .stuck
  | .unary .neg operand _ => do
    let x ← eval locals operand
    let a ← x.get
    return .value (negate (m.describe operand).ty a)
  | .index array position _ => do
    let x ← eval locals array
    let a ← x.get
    let y ← eval locals position
    let i ← y.get
    let v ← readElement a i
    return .value v
  | .unary .not _ _ | .list _ _ | .dot _ _ _ => Eval.stop .stuck

/-- Evaluate arguments, the last one first. -/
def evalArgs (locals : Locals) : List Expr → Eval ω (List Value)
  | [] => return []
  | arg :: args => do
    let vs ← evalArgs locals args
    let x ← eval locals arg
    let v ← x.get
    return v :: vs

end

/-- Evaluate an expression whose value is needed. -/
def value (locals : Locals) (e : Expr) : Eval ω Value := do
  let x ← m.eval locals e
  x.get

end Meaning

/-! ## Statements -/

/-- How evaluation goes on after a statement. -/
inductive Flow where
  | next
  /-- The function returns. -/
  | ret (v : Value)
  deriving DecidableEq, Repr

namespace Meaning

variable (m : Meaning ω)

/-- Store the items of a list in an array from number `i` on. -/
def fillArray (locals : Locals) (array : Value) : Nat → List Expr → Eval ω Unit
  | _, [] => return
  | i, item :: items => do
    let v ← m.value locals item
    writeElement array (UInt64.ofNat i) v
    fillArray locals array (i + 1) items

/-- Declare a variable. A scalar without an initializer is only declared. -/
def declare (locals : Locals) (var : VarDecl) : Eval ω Locals :=
  if var.ty.isArray then do
    let array ← createArray var.arrayLength
    m.fillArray locals array 0 var.items
    return locals.set var.name.name array
  else
    match var.init with
    | none => return locals
    | some init => do
      let v ← m.value locals init
      return locals.set var.name.name v

/-- Assign to a name: a local, else a global. -/
def assignName (locals : Locals) (name : String) (value : Expr) : Eval ω Locals := do
  let v ← m.value locals value
  match m.local? name with
  | some _ => return locals.set name v
  | none =>
    match m.global? name with
    | some (index, _) => do
      Eval.setGlobal index v
      return locals
    | none => Eval.stop .stuck

/-- Assign to an element of an array. -/
def assignElement (locals : Locals) (array position value : Expr) : Eval ω Unit := do
  let a ← m.value locals array
  let i ← m.value locals position
  let v ← m.value locals value
  writeElement a i v

/-- Assign to a name or an element. Nothing else can be assigned to. -/
def assign (locals : Locals) (target value : Expr) : Eval ω Locals :=
  match target.peel with
  | .name id _ => m.assignName locals id value
  | .index array position _ => do
    m.assignElement locals array position value
    return locals
  | _ => return locals

/-- Whether a condition takes the first block. -/
def condition (locals : Locals) (cond : Expr) : Eval ω Bool := do
  match ← m.eval locals cond with
  | .value v => return v ≠ 0
  | .comparison first => return first
  | .nothing => Eval.stop .stuck

/-- Evaluate a statement without blocks. -/
def evalPlain (locals : Locals) : Stmt → Eval ω (Locals × Flow)
  | .var var => do
    let locals ← m.declare locals var
    return (locals, .next)
  | .assign target value _ => do
    let locals ← m.assign locals target value
    return (locals, .next)
  | .ret none _ => return (locals, .ret 0)
  | .ret (some e) _ => do
    let v ← m.value locals e
    return (locals, .ret v)
  | .expr e _ => do
    let _ ← m.eval locals e
    return (locals, .next)
  | .branch _ | .block _ => return (locals, .next)

end Meaning

/-- Go on with something else, unless the function returns before it. -/
def Eval.andThen {σ : Type} (x : Eval ω (σ × Flow)) (rest : σ → Eval ω (σ × Flow)) : Eval ω (σ × Flow) := do
  let (s, flow) ← x
  match flow with
  | .next => rest s
  | .ret v => return (s, .ret v)

/-- How statements are executed, where `σ` is what a call keeps: its locals, and what is recorded beside them. -/
structure Executor (ω σ : Type) where
  /-- Execute a statement without blocks. -/
  plain : σ → Stmt → Eval ω (σ × Flow)
  /-- Whether a condition takes the first block. -/
  test : σ → Expr → Eval ω Bool
  /-- Go into a statement with blocks. -/
  enter : Stmt → σ → σ := fun _ => id
  /-- Pass over the first block of a conditional. -/
  pass : Block → σ → σ := fun _ => id
  /-- Execute the first block of a conditional and pass over the others. -/
  take : Otherwise → Eval ω (σ × Flow) → Eval ω (σ × Flow) := fun _ => id

namespace Executor

variable {σ : Type} (x : Executor ω σ)

mutual

/-- Execute a statement. -/
def stmt (s : σ) : Stmt → Eval ω (σ × Flow)
  | .var var => x.plain s (.var var)
  | .assign target value span => x.plain s (.assign target value span)
  | .ret value span => x.plain s (.ret value span)
  | .branch chain => conditional (x.enter (.branch chain) s) chain
  | .expr e span => x.plain s (.expr e span)
  | .block body => block (x.enter (.block body) s) body

/-- Execute statements up to the first that returns. -/
def stmts (s : σ) : List Stmt → Eval ω (σ × Flow)
  | [] => return (s, .next)
  | first :: rest => (stmt s first).andThen fun s => stmts s rest

/-- Execute a block. -/
def block (s : σ) : Block → Eval ω (σ × Flow)
  | .mk list _ => stmts s list

/-- Execute a conditional. -/
def conditional (s : σ) : Conditional → Eval ω (σ × Flow)
  | .mk cond body rest _ => do
    if ← x.test s cond then x.take rest (block s body)
    else otherwise (x.pass body s) rest

/-- Execute what follows a condition that does not hold. -/
def otherwise (s : σ) : Otherwise → Eval ω (σ × Flow)
  | .absent => return (s, .next)
  | .elif chain => conditional s chain
  | .orElse body => block s body

end

/-- An executor that records nothing. -/
def simple (plain : σ → Stmt → Eval ω (σ × Flow)) (test : σ → Expr → Eval ω Bool) : Executor ω σ where
  plain := plain
  test := test

end Executor

namespace Meaning

variable (m : Meaning ω)

/-- How the statements of a function are evaluated. -/
def executor : Executor ω Locals :=
  .simple m.evalPlain m.condition

/-- Evaluate statements up to the first that returns. -/
abbrev evalStmts (locals : Locals) (stmts : List Stmt) : Eval ω (Locals × Flow) :=
  m.executor.stmts locals stmts

end Meaning

/-! ## Programs -/

/-- The locals of a function that is called. -/
def bindParams : List Param → List Value → Locals
  | param :: params, arg :: args => (bindParams params args).set param.name.name arg
  | _, _ => fun _ => none

/-- The types of the parameters and locals of a function. -/
def localTypes (params : List Param) (body : Block) : List (String × Ty) :=
  params.map (fun p => (p.name.name, p.ty)) ++ body.vars.map fun v => (v.name.name, v.fullTy)

/-- Destroy the arrays of a function, in the order of their declarations. -/
def destroyOwned (locals : Locals) : List VarDecl → Eval ω Unit
  | [] => return
  | var :: vars => do
    match locals var.name.name, var.ty.isOwnedArray with
    | some array, true => destroyArray array
    | _, _ => pure ()
    destroyOwned locals vars

/-- The bits of a number, possibly negated. -/
def literalBits (e : Expr) : Value :=
  match e.peel with
  | .int v _ => v
  | .float bits _ => bits
  | .unary .neg operand _ =>
    match operand.peel with
    | .int v _ => -v
    | .float bits _ => Binary64.negate bits
    | _ => 0
  | _ => 0

/-- The value that a global starts with. -/
def initialValue (var : VarDecl) : Value :=
  match var.init with
  | none => 0
  | some init => literalBits init

/-- A program linked to what it needs from outside. -/
structure Linked (ω : Type) where
  /-- The functions with a body or a library. -/
  functions : List FunctionDecl
  globals : List VarDecl
  const? : String → Option Emission.ConstValue
  text : String → Value
  address : Nat → Value
  unassigned : Ty → Eval ω Value
  /-- Call a function of a library, given by its index. -/
  native : Nat → List Value → Eval ω Value

namespace Linked

variable (u : Linked ω)

/-- What the body of a function with the given locals can refer to. -/
def meaning (invoke : Nat → List Value → Eval ω Value) (locals : List (String × Ty)) :
    Meaning ω where
  local? name := locals.lookup name
  global? name :=
    (u.globals.findIdx? (·.name.name = name)).bind fun i => u.globals[i]?.map fun g => (i, g.ty)
  const? := u.const?
  function? name :=
    (u.functions.findIdx? (·.name.name = name)).bind fun i => u.functions[i]?.map fun f => (i, f)
  text := u.text
  address := u.address
  unassigned := u.unassigned
  invoke := invoke

/-- Destroy the arrays of a function and give its result. -/
def endBody (decl : FunctionDecl) (body : Block) (locals : Locals) (flow : Flow) : Eval ω Value := do
  destroyOwned locals body.vars
  match flow with
  | .ret v => return v
  | .next => if decl.ret.isVoid then return 0 else Eval.stop .stuck

/-- Run the body of a function, then destroy its arrays. -/
def runBody (invoke : Nat → List Value → Eval ω Value) (decl : FunctionDecl) (body : Block)
    (args : List Value) : Eval ω Value := do
  let m := u.meaning invoke (localTypes decl.params body)
  let (locals, flow) ← m.evalStmts (bindParams decl.params args) body.stmts
  endBody decl body locals flow

section

variable (body : (Nat → List Value → Eval ω Value) → FunctionDecl → Block → List Value → Eval ω Value)

/-- Call the function with an index, with `room` for so many more calls; `body` runs the body of a function. -/
def invokeWith : Nat → Nat → List Value → Eval ω Value
  | room, index, args =>
    match u.functions[index]? with
    | none => Eval.stop .stuck
    | some decl =>
      if decl.linkage.isSome then u.native index args
      else
        match decl.body, room with
        | none, _ => Eval.stop .stuck
        | some _, 0 => Eval.stop (.trap .callDepthExceeded)
        | some block, room + 1 => body (invokeWith room) decl block args

/-- Run the function that a program starts with. -/
def runWith (room : Nat) : Eval ω Value :=
  match u.functions.findIdx? (·.name.name = "Main") with
  | some index => u.invokeWith body room index []
  | none => Eval.stop .stuck

end

/-- Call the function with an index. -/
abbrev invoke : Nat → Nat → List Value → Eval ω Value :=
  u.invokeWith u.runBody

/-- Run the function that a program starts with. -/
abbrev run : Nat → Eval ω Value :=
  u.runWith u.runBody

end Linked

end Evaluation

end RegisterLang
