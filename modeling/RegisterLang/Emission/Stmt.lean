import RegisterLang.Emission.Expr

/-! # Statements to code

A `return` that is not the last thing a function does jumps to its end, where the arrays of the function
are freed. A conditional jumps over the block that is not taken, so every jump goes forward.
-/

namespace RegisterLang.Emission

/-! ## Paths through statements -/

mutual

/-- Whether every path through a statement ends in a `return`. -/
def stmtReturns : Stmt → Bool
  | .ret _ _ => true
  | .block body => blockReturns body
  | .branch chain => conditionalReturns chain
  | .var _ | .assign _ _ _ | .expr _ _ => false

def stmtsReturn : List Stmt → Bool
  | [] => false
  | stmt :: stmts => stmtReturns stmt || stmtsReturn stmts

def blockReturns : Block → Bool
  | .mk stmts _ => stmtsReturn stmts

def conditionalReturns : Conditional → Bool
  | .mk _ body otherwise _ => blockReturns body && otherwiseReturns otherwise

def otherwiseReturns : Otherwise → Bool
  | .absent => false
  | .elif chain => conditionalReturns chain
  | .orElse body => blockReturns body

end

mutual

/-- Whether a statement is a `return`, or a block whose last statement is. -/
def stmtEndsInReturn : Stmt → Bool
  | .ret _ _ => true
  | .block body => blockEndsInReturn body
  | .var _ | .assign _ _ _ | .expr _ _ | .branch _ => false

def stmtsEndInReturn : List Stmt → Bool
  | [] => false
  | [stmt] => stmtEndsInReturn stmt
  | _ :: stmt :: stmts => stmtsEndInReturn (stmt :: stmts)

def blockEndsInReturn : Block → Bool
  | .mk stmts _ => stmtsEndInReturn stmts

end

/-- Where a statement stands in its function. -/
inductive Tail where
  /-- Other statements follow. -/
  | no
  /-- It is the last one of a block after which the function ends. -/
  | nested
  /-- It is the last one of the body. -/
  | body
  deriving DecidableEq, Repr, Inhabited

namespace Tail

/-- Where the last statement of a block stands, when the block stands here. -/
def inside : Tail → Tail
  | no => no
  | nested | body => nested

end Tail

variable (scope : Scope)

/-! ## Locals -/

def storeLocal (storage : Storage) (v : Lowered) : EmitM Unit := do
  match storage with
  | .register reg => loadInto reg v
  | .stack slot =>
    let o ← operand scope v
    emitInsn (.localSet o.reg slot)
    release o

/-- Declare a scalar local. One with an initializer counts as initialized even when the initializer has a
mistake, so that the mistake is reported once. -/
def emitScalar (var : VarDecl) : EmitM Unit := do
  let name := var.name.name
  let storage ← placeLocal scope var.span
  modify fun b => { b with locals := b.locals.add name ⟨var.ty, storage, false, false⟩ }
  if let some init := var.init then
    let v ← lowerValue scope init
    if !v.isFailed then
      if var.ty.accepts v.ty v.isLiteral then storeLocal scope storage v
      else
        complain scope .typeMismatch
          (s!"cannot initialize '{name}' of type {var.ty.text} " ++
            s!"with a value of type {v.ty.text}") init.span
        drop v
    markInitialized name

/-- Store the elements of an initializer from number `i` on. -/
def emitElements (name : String) (handle : UInt8) (elem : Ty) : Nat → List Expr → EmitM Unit
  | _, [] => return
  | i, item :: items => do
    let v ← lowerValue scope item
    if !v.isFailed then
      if elem.accepts v.ty v.isLiteral then
        let value ← operand scope v
        let index ← allocate scope
        onCode (·.loadInt index (UInt64.ofNat i))
        emitInsn (.arraySet handle index value.reg)
        free index
        release value
      else
        complain scope .typeMismatch
          s!"element {i} of '{name}' must be {elem.text}, found {v.ty.text}" item.span
        drop v
    emitElements name handle elem (i + 1) items

/-- The items of an array initializer; none when it is not a list. -/
def arrayItems? (var : VarDecl) : Option (List Expr) :=
  match var.init.map Expr.peel with
  | none => some []
  | some (.list items _) => some items
  | some _ => none

def arrayLengthError? (name : String) (declared items : Nat) : Option (Code × String) :=
  let len := if 0 < declared then declared else items
  if 0 < declared && declared < items then
    some (.typeMismatch,
      s!"array '{name}' holds {declared} element(s) but the initializer has {items}")
  else if len = 0 then
    some (.typeMismatch, s!"array '{name}' needs a length or a non-empty initializer")
  else if 65535 < len then
    some (.limitExceeded, s!"array '{name}' of {len} elements is too large")
  else none

/-- Create an array of `len` elements and store its items. -/
def createArray (var : VarDecl) (len : Nat) (items : List Expr) : EmitM Unit := do
  let name := var.name.name
  let .stack slot ← stackSlot scope var.span | throw (.internal .arrayInRegister)
  let ty := { var.ty with arrayLen := len }
  modify fun b => { b with locals := b.locals.add name ⟨ty, .stack slot, false, false⟩ }
  let handle ← allocate scope
  let count ← allocate scope
  onCode (·.loadInt count (UInt64.ofNat len))
  emitInsn (.arrayNew handle count)
  free count
  emitElements scope name handle ty.element 0 items
  emitInsn (.localSet handle slot)
  free handle
  markInitialized name

/-- Declare an array local. Its slot starts as zero, so the end of the function can free it even on a path
that never creates it. -/
def emitArray (var : VarDecl) : EmitM Unit := do
  let name := var.name.name
  match arrayItems? var with
  | none =>
    complain scope .notImplemented
      s!"array '{name}' can only be initialized with an array literal" var.span
  | some items =>
    match arrayLengthError? name var.ty.arrayLen items.length with
    | some (code, message) => complain scope code message var.span
    | none =>
      createArray scope var
        (if 0 < var.ty.arrayLen then var.ty.arrayLen else items.length) items

def emitVar (var : VarDecl) : EmitM Unit := do
  let name := var.name.name
  if (← get).locals.contains name then
    complain scope .redefinition s!"local '{name}' is already defined in this function"
      var.name.span
  else if scope.decls.globals.contains name || scope.decls.consts.contains name then
    complain scope .shadowedGlobal s!"local '{name}' shadows a global of the same name"
      var.name.span
  else if var.ty.isVoid then
    complain scope .unknownType s!"local '{name}' cannot have type Void" var.span
  else if var.ty.isArray then emitArray scope var
  else emitScalar scope var

/-! ## Assignments -/

def complainAssign (name : String) (ty : Ty) (v : Lowered) (span : Span) : EmitM Unit :=
  complain scope .typeMismatch
    s!"cannot assign a value of type {v.ty.text} to '{name}' of type {ty.text}" span

def assignLocal (name : String) (l : Local) (span : Span) (value : Expr) : EmitM Unit := do
  if l.ty.isArray then
    complain scope .notImplemented s!"cannot assign to the whole array '{name}'" span
  else if l.ty.isConst && l.initialized then
    complain scope .invalidAssignTarget s!"cannot assign to constant '{name}'" span
  else
    let v ← lowerValue scope value
    if !v.isFailed then
      if l.ty.accepts v.ty v.isLiteral then storeLocal scope l.storage v
      else
        complainAssign scope name l.ty v value.span
        drop v
    markInitialized name

def assignGlobal (name : String) (index : Nat) (ty : Ty) (span : Span) (value : Expr) :
    EmitM Unit := do
  if ty.isConst then
    complain scope .invalidAssignTarget s!"cannot assign to constant '{name}'" span
  else
    let v ← lowerValue scope value
    if !v.isFailed then
      if ty.accepts v.ty v.isLiteral then
        let o ← operand scope v
        emitInsn (.globalSet o.reg (UInt32.ofNat index))
        release o
      else
        complainAssign scope name ty v value.span
        drop v

def assignName (name : String) (span : Span) (value : Expr) : EmitM Unit := do
  match (← get).locals.lookup? name with
  | some l => assignLocal scope name l span value
  | none =>
    match scope.decls.globals.find? name, scope.decls.globals.lookup? name with
    | some index, some g => assignGlobal scope name index g.ty span value
    | _, _ =>
      if scope.decls.consts.contains name then
        complain scope .invalidAssignTarget s!"cannot assign to constant '{name}'" span
      else complain scope .undefinedIdentifier s!"undefined identifier '{name}'" span

/-- Store a value in an element, once all three are computed. -/
def storeElement (array position v : Lowered) (valueSpan span : Span) : EmitM Unit := do
  if array.isFailed || position.isFailed || v.isFailed then dropAll [array, position, v]
  else if !(← checkElement scope array.ty position span) then dropAll [array, position, v]
  else
    let elem := array.ty.element
    if !elem.accepts v.ty v.isLiteral then
      complain scope .typeMismatch
        s!"cannot store a value of type {v.ty.text} into an array of {elem.text}" valueSpan
      dropAll [array, position, v]
    else
      let a ← operand scope array
      let i ← operand scope position
      let o ← operand scope v
      emitInsn (.arraySet a.reg i.reg o.reg)
      release o
      release i
      release a

def assignElement (array position value : Expr) (span : Span) : EmitM Unit := do
  let a ← lowerValue scope array
  let a ← readBefore scope a position
  let i ← lowerValue scope position
  let i ← readBefore scope i value
  let v ← lowerValue scope value
  storeElement scope a i v value.span span

/-- Assign to a name or an element; other targets were reported when they were read. -/
def emitAssign (target value : Expr) (span : Span) : EmitM Unit :=
  match target.peel with
  | .name id _ => assignName scope id target.span value
  | .index array position _ => assignElement scope array position value span
  | _ => return

/-! ## Returns -/

def ownsArrays : EmitM Bool := do
  return (← get).locals.toList.any fun (_, l) => l.isOwnedArray

/-- Leave the value of a `return` in the result register, or return a slot directly where nothing else is
left to do. Says whether the function was ended. -/
def emitReturnValue (e : Expr) (tail : Tail) : EmitM Bool := do
  let v ← lowerValue scope e
  if v.isFailed then return false
  if !scope.ret.accepts v.ty v.isLiteral then
    complain scope .typeMismatch
      s!"'{scope.name}' returns {scope.ret.text}, found a value of type {v.ty.text}" e.span
    drop v
    return false
  let direct := tail = .body && (← get).endJumps = 0 && !(← ownsArrays)
  match v.place with
  | .slot slot =>
    if direct then
      emitInsn (.retLocal slot)
      modify fun b => { b with isFinished := true }
      return true
    loadInto returnReg v
    return false
  | _ =>
    loadInto returnReg v
    return false

def emitReturn (value : Option Expr) (span : Span) (tail : Tail) : EmitM Unit := do
  modify fun b => { b with returns := b.returns + 1 }
  let ended ←
    match value with
    | none =>
      if !scope.ret.isVoid then
        complain scope .typeMismatch
          s!"'{scope.name}' must return a value of type {scope.ret.text}" span
      pure false
    | some e =>
      if scope.ret.isVoid then
        complain scope .typeMismatch s!"'{scope.name}' does not return a value" e.span
        pure false
      else emitReturnValue scope e tail
  if !ended && tail = .no then
    onCode (·.jump .always scope.endLabel)
    modify fun b => { b with endJumps := b.endJumps + 1 }

/-! ## Conditionals -/

/-- The condition that holds after a comparison that was true. -/
def flagCondition : BinOp → Condition
  | .eq => .eq
  | .notEq => .ne
  | .less => .lt
  | .greater => .gt
  | .lessEq => .le
  | .greaterEq => .ge
  | .add | .sub | .mul | .div => .ne

/-- Jump to `elseLabel` when the condition does not hold. -/
def emitCondition (cond : Expr) (elseLabel : Label) : EmitM Unit := do
  let v ← lowerExpr scope cond
  match v.place with
  | .flags =>
    match v.lastOp with
    | some op => onCode (·.jump (flagCondition op).negate elseLabel)
    | none => throw (.internal .flagsWithoutComparison)
  | .failed => return
  | .nothing => complain scope .typeMismatch "the condition does not produce a value" cond.span
  | _ =>
    if !v.ty.isScalar || v.ty.isFloat then
      complain scope .invalidOperand s!"a condition of type {v.ty.text} cannot be tested" cond.span
      drop v
    else
      let o ← operand scope v
      emitInsn (.testz o.reg)
      release o
      onCode (·.jump .eq elseLabel)

/-! ## The walk over the tree -/

mutual

def emitStmt (tail : Tail) : Stmt → EmitM Unit
  | .var var => emitVar scope var
  | .assign target value span => emitAssign scope target value span
  | .ret value span => emitReturn scope value span tail
  | .branch chain => emitConditional tail chain
  | .expr e _ => do
    let v ← lowerExpr scope e
    drop v
  | .block body => emitBlock tail.inside body

/-- Emit the code of statements, the last of which stands at `tail`, until too many mistakes were
reported. -/
def emitStmts (tail : Tail) : List Stmt → EmitM Unit
  | [] => return
  | stmt :: stmts => do
    if ← atLimit then return
    emitStmt (if stmts.isEmpty then tail else .no) stmt
    emitStmts tail stmts

def emitBlock (tail : Tail) : Block → EmitM Unit
  | .mk stmts _ => emitStmts tail stmts

def emitConditional (tail : Tail) : Conditional → EmitM Unit
  | .mk cond body otherwise _ => do
    let elseLabel ← newLabel
    emitCondition scope cond elseLabel
    if otherwise.isAbsent then
      emitBlock tail.inside body
      onCode (·.bind elseLabel)
    else
      let endLabel ← newLabel
      emitBlock .no body
      if !blockEndsInReturn body then onCode (·.jump .always endLabel)
      onCode (·.bind elseLabel)
      emitOtherwise tail.inside otherwise
      onCode (·.bind endLabel)

def emitOtherwise (tail : Tail) : Otherwise → EmitM Unit
  | .absent => return
  | .elif chain => emitConditional tail chain
  | .orElse body => emitBlock tail body

end

end RegisterLang.Emission
