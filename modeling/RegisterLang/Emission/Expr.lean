import RegisterLang.Binary64.Basic
import RegisterLang.Emission.Body

/-! # Expressions to code

Operands are evaluated from left to right, arguments from right to left. Around a call the registers in
use are saved on the stack. An argument that takes other registers to compute waits on the stack, too,
until all are computed; constants and slots are loaded last.
-/

namespace RegisterLang.Emission

mutual

def containsCall : Expr → Bool
  | .call .. => true
  | .group inner _ => containsCall inner
  | .binary _ left right _ => containsCall left || containsCall right
  | .unary _ operand _ => containsCall operand
  | .index array position _ => containsCall array || containsCall position
  | .dot object _ _ => containsCall object
  | .list items _ => anyContainsCall items
  | .int .. | .float .. | .str .. | .name .. => false

def anyContainsCall : List Expr → Bool
  | [] => false
  | e :: es => containsCall e || anyContainsCall es

end

variable (scope : Scope)

/-! ## Values -/

/-- Require a value: the outcome of a comparison and a call without a result are not values. -/
def asValue (span : Span) (v : Lowered) : EmitM Lowered :=
  match v.place with
  | .flags =>
    reject scope .notImplemented "a comparison can only be used as an 'if' condition" span
  | .nothing => reject scope .typeMismatch "this call does not return a value" span
  | _ => return v

def lowerString (text : String) (span : Span) : EmitM Lowered := do
  let (index, strings) := (← get).strings.intern scope.source text span
  modify fun b => { b with strings }
  return .constant index.toUInt64 .constString

/-- The value of a name: a local, else a global, else a constant. -/
def lowerName (name : String) (span : Span) : EmitM Lowered := do
  match (← get).locals.lookup? name with
  | some l =>
    if !l.initialized then
      reject scope .uninitializedLocal s!"local '{name}' is used before it is initialized" span
    else
      match l.storage with
      | .register reg => return ⟨.home reg, l.ty, none⟩
      | .stack slot => return ⟨.slot slot, l.ty, none⟩
  | none =>
    match scope.decls.globals.find? name, scope.decls.globals.lookup? name with
    | some index, some g => return ⟨.global (UInt32.ofNat index), g.ty, none⟩
    | _, _ =>
      match scope.decls.consts.lookup? name with
      | some c => return .constant c.bits c.ty
      | none =>
        reject scope .undefinedIdentifier
          (if scope.decls.functions.contains name then
            s!"'{name}' is a function and cannot be used as a value"
          else s!"undefined identifier '{name}'") span

/-- Read a global now if evaluating `later` might change it. -/
def readBefore (v : Lowered) (later : Expr) : EmitM Lowered := do
  match v.place with
  | .global _ =>
    if containsCall later then
      match ← operand scope v with
      | .owned reg => return ⟨.temporary reg, v.ty, none⟩
      | .borrowed reg => return ⟨.home reg, v.ty, none⟩
    else return v
  | _ => return v

/-! ## Operators -/

/-- A value that operators apply to. -/
def isNumeric (t : Ty) : Bool :=
  t.isScalar && !t.isVoid && t.primitive ≠ .unknown

def commonType? (l r : Lowered) : Option Ty :=
  if l.ty.agrees r.ty then some (.scalar l.ty.primitive)
  else if l.ty.primitive = .any || r.ty.primitive = .any then some .any
  else if l.isLiteral && r.ty.isInteger then some (.scalar r.ty.primitive)
  else if r.isLiteral && l.ty.isInteger then some (.scalar l.ty.primitive)
  else none

/-- The type in which two operands are combined; none when a mistake was reported. -/
def binaryType (l : Lowered) (op : BinOp) (r : Lowered) (span : Span) : EmitM (Option Ty) := do
  if !isNumeric l.ty || !isNumeric r.ty then
    complain scope .invalidOperand
      s!"operator '{op.symbol}' needs numeric operands, found {l.ty.text} and {r.ty.text}" span
    return none
  match commonType? l r with
  | some ty => return some ty
  | none =>
    complain scope .typeMismatch
      s!"mismatched operand types {l.ty.text} and {r.ty.text} for '{op.symbol}'" span
    return none

def arithOp : BinOp → ArithOp
  | .add => .add
  | .sub => .sub
  | .mul => .mul
  | _ => .div

def combine (op : BinOp) (ty : Ty) (l r : Lowered) : EmitM Lowered := do
  let left ← operand scope l
  let dst ← resultReg scope left
  let kind := ty.numKind
  let immediate? := if kind = .float then none else r.intConstant?
  let code := (← get).code
  match immediate?.bind (code.arithImm? (arithOp op) dst left.reg) with
  | some code => modify fun b => { b with code }
  | none =>
    let right ← operand scope r
    onCode (·.arith (arithOp op) kind dst left.reg right.reg)
    release right
  return ⟨.temporary dst, ty, some op⟩

/-- Compare two values of a common type. Equality with zero, and signed order with zero, is a test of
one register; with the zero on the left the comparison is mirrored. -/
def compareValues (op : BinOp) (ty : Ty) (l r : Lowered) : EmitM Lowered := do
  let zeroTest := !ty.isUnsigned || op = .eq || op = .notEq
  if zeroTest && r.intConstant? = some 0 then
    let a ← operand scope l
    emitInsn (.testz a.reg)
    release a
    return ⟨.flags, .int, some op⟩
  else if zeroTest && l.intConstant? = some 0 then
    let b ← operand scope r
    emitInsn (.testz b.reg)
    release b
    return ⟨.flags, .int, some op.mirror⟩
  else
    let a ← operand scope l
    let b ← operand scope r
    onCode (·.compare ty a.reg b.reg)
    release b
    release a
    return ⟨.flags, .int, some op⟩

def applyBinary (op : BinOp) (l r : Lowered) (span : Span) : EmitM Lowered := do
  if l.isFailed || r.isFailed then
    dropAll [l, r]
    return .failed
  match ← binaryType scope l op r span with
  | none =>
    dropAll [l, r]
    return .failed
  | some ty => if op.isComparison then compareValues scope op ty l r else combine scope op ty l r

/-- The negative of a literal is a constant. -/
def negatedLiteral? (operand : Expr) : Option Lowered :=
  match operand.peel with
  | .int v _ => some (.constant (-v) .int)
  | .float bits _ => some (.constant (Binary64.negate bits) .float)
  | _ => none

def negateValue (v : Lowered) (span : Span) : EmitM Lowered := do
  if v.isFailed then return v
  if !(v.ty.isInteger || v.ty.isFloat || v.ty.isAny) then
    complain scope .notImplemented s!"unary '-' is not supported on {v.ty.text}" span
    drop v
    return .failed
  let src ← operand scope v
  let dst ← resultReg scope src
  onCode (·.negate v.ty dst src.reg)
  return ⟨.temporary dst, .scalar v.ty.primitive, none⟩

/-! ## Elements of arrays -/

/-- Report unless a value of type `array` has elements and `position` is a whole number. -/
def checkElement (array : Ty) (position : Lowered) (span : Span) : EmitM Bool := do
  if !array.isArray then
    complain scope .invalidOperand s!"cannot index a value of type {array.text}" span
    return false
  if !(position.ty.isInteger || position.ty.isAny) then
    complain scope .typeMismatch
      s!"array index must be an integer, found {position.ty.text}" span
    return false
  return true

def readElement (array position : Lowered) (span : Span) : EmitM Lowered := do
  if array.isFailed || position.isFailed then
    dropAll [array, position]
    return .failed
  if !(← checkElement scope array.ty position span) then
    dropAll [array, position]
    return .failed
  let a ← operand scope array
  let i ← operand scope position
  let dst ← allocate scope
  emitInsn (.arrayGet dst a.reg i.reg)
  release i
  release a
  return ⟨.temporary dst, array.ty.element, none⟩

/-! ## Calls -/

/-- The arguments of a call that were computed so far, from the last one on. -/
structure Arguments where
  hasFailed : Bool := false
  /-- Registers to load at the end, with their values, in the order of evaluation. -/
  deferred : List (UInt8 × Lowered) := []
  /-- Registers whose values wait on the stack, the last one pushed first. -/
  waiting : List UInt8 := []

/-- Put the value of argument `i` where it waits for the call. -/
def placeArgument (callee : String) (registerArgs i : Nat) (expected : Ty) (span : Span)
    (v : Lowered) (args : Arguments) : EmitM Arguments := do
  if v.isFailed then return { args with hasFailed := true }
  if !expected.accepts v.ty v.isLiteral then
    complain scope .typeMismatch
      s!"argument {i + 1} of '{callee}' expects {expected.text}, found {v.ty.text}" span
    drop v
    return { args with hasFailed := true }
  let reg := UInt8.ofNat (i + 1)
  if i < registerArgs && v.isDirect then
    return { args with deferred := args.deferred ++ [(reg, v)] }
  let o ← operand scope v
  emitInsn (.push o.reg)
  release o
  if i < registerArgs then return { args with waiting := reg :: args.waiting }
  return args

def pushAll (regs : List UInt8) : EmitM Unit :=
  regs.forM fun reg => emitInsn (.push reg)

def popAll (regs : List UInt8) : EmitM Unit :=
  regs.forM fun reg => emitInsn (.pop reg)

/-- Call a function once its arguments are computed, and restore the registers saved before. -/
def finishCall (index : Nat) (ret : Ty) (saved : List UInt8) (args : Arguments) :
    EmitM Lowered := do
  popAll args.waiting
  if args.hasFailed then
    args.deferred.forM fun (_, v) => drop v
    popAll saved.reverse
    return .failed
  args.deferred.forM fun (reg, v) => loadInto reg v
  onCode (·.call (UInt32.ofNat index))
  if ret.isVoid then
    popAll saved.reverse
    return ⟨.nothing, ret, none⟩
  let dst ← allocate scope
  onCode (·.mov dst returnReg)
  popAll saved.reverse
  return ⟨.temporary dst, ret, none⟩

def resolveCall (callee : Ident) (count : Nat) (span : Span) :
    EmitM (Option (Nat × Function)) := do
  match scope.decls.functions.find? callee.name, scope.decls.functions.lookup? callee.name with
  | some index, some f =>
    if f.params.length = count then return some (index, f)
    complain scope .wrongArgCount
      s!"'{callee.name}' takes {f.params.length} argument(s), found {count}" span
    return none
  | _, _ =>
    complain scope .undefinedFunction s!"call to undefined function '{callee.name}'" callee.span
    return none

/-! ## The walk over the tree -/

mutual

/-- Emit the code of an expression. The outcome may be in the flags, or nothing at all. -/
def lowerExpr : Expr → EmitM Lowered
  | .int v _ => return .constant v (.intLiteral (immediateWidth v))
  | .float bits _ => return .constant bits .float
  | .str text span => lowerString scope text span
  | .name id span => lowerName scope id span
  | .group inner _ => lowerExpr inner
  | .call callee args span => do
    match ← resolveCall scope callee args.length span with
    | none => return .failed
    | some (index, f) =>
      let saved := (← get).pool.allocated
      pushAll saved
      let placed ← lowerArgs callee.name f.registerArgs 0 f.params args
      finishCall scope index f.ret saved placed
  | .binary op left right span => do
    let l ← lowerExpr left
    let l ← asValue scope left.span l
    let l ← readBefore scope l right
    let r ← lowerExpr right
    let r ← asValue scope right.span r
    applyBinary scope op l r span
  | .unary .not _ span => reject scope .notImplemented "logical '!' is not supported" span
  | .unary .neg operand span => do
    match negatedLiteral? operand with
    | some v => return v
    | none =>
      let v ← lowerExpr operand
      let v ← asValue scope operand.span v
      negateValue scope v span
  | .index array position span => do
    let a ← lowerExpr array
    let a ← asValue scope array.span a
    let a ← readBefore scope a position
    let i ← lowerExpr position
    let i ← asValue scope position.span i
    readElement scope a i span
  | .list _ span =>
    reject scope .notImplemented
      "array literals are only supported as the initializer of an array variable" span
  | .dot _ field _ =>
    reject scope .notImplemented s!"field access '.{field.name}' is not supported" field.span

/-- Emit the code of the arguments from number `i` on, the last one first. -/
def lowerArgs (callee : String) (registerArgs : Nat) :
    Nat → List Ty → List Expr → EmitM Arguments
  | i, expected :: params, arg :: args => do
    let placed ← lowerArgs callee registerArgs (i + 1) params args
    let v ← lowerExpr arg
    let v ← asValue scope arg.span v
    placeArgument scope callee registerArgs i expected arg.span v placed
  | _, _, _ => return {}

end

def lowerValue (e : Expr) : EmitM Lowered := do
  asValue scope e.span (← lowerExpr scope e)

end RegisterLang.Emission
