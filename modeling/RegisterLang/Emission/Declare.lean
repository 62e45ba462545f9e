import RegisterLang.Ast
import RegisterLang.Binary64.Basic
import RegisterLang.CodeBuffer.Selection
import RegisterLang.Emission.Scope
import RegisterLang.Emission.Strings

/-! # Declarations: what the items of a program stand for

Globals and constants are declared first, then functions, each in the order of the text. A function may
then be called before its body is emitted.
-/

namespace RegisterLang.Emission

structure Declared where
  source : SourceText
  settings : EmitSettings
  decls : Declarations
  strings : Strings
  deriving Inhabited

namespace Declared

def complain (d : Declared) (code : Code) (message : String) (span : Span) : Declared :=
  { d with strings := { d.strings with
      report := d.strings.report.complain d.source code message span } }

def intern (d : Declared) (text : String) (span : Span) : UInt32 × Declared :=
  let (index, strings) := d.strings.intern d.source text span
  (index, { d with strings })

/-! ## Globals and constants -/

/-- The bits and the type of a literal; a constant may be a string, too. -/
def literal? (d : Declared) (init : Expr) (allowStrings : Bool) :
    Option ((UInt64 × Ty) × Declared) :=
  match init.peel with
  | .int v _ => some ((v, .intLiteral (immediateWidth v)), d)
  | .float bits _ => some ((bits, .float), d)
  | .unary .neg operand _ =>
    match operand.peel with
    | .int v _ => some ((-v, .int), d)
    | .float bits _ => some ((Binary64.negate bits, .float), d)
    | _ => none
  | .str text _ =>
    if allowStrings then
      let (index, d) := d.intern text init.span
      some ((index.toUInt64, .constString), d)
    else none
  | _ => none

/-- The bits of an initializer for `name`, if it is a literal that fits. -/
def literalValue (d : Declared) (init : Expr) (ty : Ty) (name : String) (allowStrings : Bool) :
    Option UInt64 × Declared :=
  match d.literal? init allowStrings with
  | none =>
    (none, d.complain .invalidGlobalInitializer s!"'{name}' must be initialized with a literal"
      init.span)
  | some ((bits, litTy), d) =>
    if !ty.accepts litTy litTy.isInteger then
      (none, d.complain .typeMismatch
        s!"cannot initialize '{name}' of type {ty.text} with a value of type {litTy.text}" init.span)
    else if ty.isScalar && ty.primitive = .byte && 0xFF < bits then
      (none, d.complain .typeMismatch s!"value {bits} does not fit in Byte '{name}'" init.span)
    else (some bits, d)

def declareGlobal (d : Declared) (var : VarDecl) : Declared :=
  let name := var.name.name
  if d.decls.isTaken name then
    d.complain .redefinition s!"'{name}' is already defined" var.name.span
  else if var.ty.isVoid then
    d.complain .unknownType s!"global '{name}' cannot have type Void" var.span
  else if var.ty.isArray then
    d.complain .notImplemented s!"global '{name}': array globals are not supported" var.span
  else
    let (bits, d) :=
      match var.init with
      | none => (0, d)
      | some init =>
        let (bits, d) := d.literalValue init var.ty name false
        (bits.getD 0, d)
    { d with decls := { d.decls with globals := d.decls.globals.add name ⟨var.ty, bits⟩ } }

def declareConst (d : Declared) (const : ConstDecl) : Declared :=
  let name := const.name.name
  if d.decls.isTaken name then
    d.complain .redefinition s!"'{name}' is already defined" const.name.span
  else
    match d.literalValue const.value const.ty name true with
    | (none, d) => d
    | (some bits, d) =>
      { d with decls := { d.decls with consts := d.decls.consts.add name ⟨const.ty, bits⟩ } }

def declareItem (d : Declared) : Item → Declared
  | .var var => d.declareGlobal var
  | .const const => d.declareConst const
  | .function _ => d

/-! ## Functions -/

def declareLink (d : Declared) (decl : FunctionDecl) : Option NativeLink × Declared :=
  match decl.linkage with
  | none => (none, d)
  | some link =>
    let (library, d) := d.intern link.library link.span
    let (symbol, d) := d.intern (link.symbol.getD decl.name.name) link.span
    (some ⟨library, symbol⟩, d)

/-- Report what is wrong with a parameter, given those before it. -/
def checkParam (d : Declared) (earlier : SymbolTable Local) (param : Param) : Declared :=
  let name := param.name.name
  let d :=
    if earlier.contains name then
      d.complain .redefinition s!"parameter '{name}' is declared twice" param.name.span
    else if d.decls.globals.contains name then
      d.complain .shadowedGlobal s!"parameter '{name}' shadows a global of the same name"
        param.name.span
    else d
  if param.ty.isVoid then
    d.complain .unknownType s!"parameter '{name}' cannot have type Void" param.span
  else d

def paramStorage (registerArgs stackArgs p : Nat) : Storage :=
  if p < registerArgs then .register (UInt8.ofNat (p + 1))
  else .stack (UInt16.ofNat (paramSlot registerArgs stackArgs p))

/-- Add the parameters from number `p` on to the locals. -/
def declareParams (registerArgs stackArgs : Nat) :
    Nat → List Param → SymbolTable Local → Declared → SymbolTable Local × Declared
  | _, [], locals, d => (locals, d)
  | p, param :: params, locals, d =>
    let d := d.checkParam locals param
    let locals := locals.add param.name.name
      ⟨param.ty, paramStorage registerArgs stackArgs p, true, true⟩
    declareParams registerArgs stackArgs (p + 1) params locals d

/-- How a function receives its arguments; those of a library take registers only. -/
def conventionOf (d : Declared) (decl : FunctionDecl) (native : Bool) : Convention × Declared :=
  let count := decl.params.length
  if native then
    let d :=
      if maxRegisterArgs < count then
        d.complain .limitExceeded
          (s!"extern function '{decl.name.name}' takes {count} parameters; " ++
            s!"at most {maxRegisterArgs} are supported") decl.span
      else d
    (.register, d)
  else (.select count d.settings.optimize, d)

/-- Declare a function and give its index; none for a prototype or a function that is refused. -/
def declareFunction (d : Declared) (decl : FunctionDecl) : Option Nat × Declared :=
  let name := decl.name.name
  if decl.body.isNone && decl.linkage.isNone then (none, d)
  else if d.decls.isTaken name then
    (none, d.complain .redefinition s!"'{name}' is already defined" decl.name.span)
  else
    let (native, d) := d.declareLink decl
    let count := decl.params.length
    let (convention, d) := d.conventionOf decl native.isSome
    let registerArgs := convention.registerArgs count
    let stackArgs := count - registerArgs
    if 65535 < stackArgs then
      (none, d.complain .limitExceeded s!"function '{name}' has too many parameters" decl.span)
    else
      let (locals, d) := declareParams registerArgs stackArgs 0 decl.params .empty d
      let function : Function :=
        { ret := decl.ret
          params := decl.params.map Param.ty
          locals, convention, registerArgs, stackArgs, native
          span := decl.span }
      let index := d.decls.functions.size
      (some index,
        { d with decls := { d.decls with functions := d.decls.functions.add name function } })

/-- Declare functions in order; `indices` holds, last first, the indices of those before. -/
def declareFunctions : List FunctionDecl → List (Option Nat) → Declared →
    List (Option Nat) × Declared
  | [], indices, d => (indices.reverse, d)
  | decl :: decls, indices, d =>
    let (index, d) := d.declareFunction decl
    declareFunctions decls (index :: indices) d

/-- The index of the function to start with. Only an executable needs one. -/
def resolveEntry (d : Declared) (span : Span) : UInt32 × Declared :=
  match d.decls.functions.find? "Main" with
  | some index =>
    let d :=
      match d.decls.functions.get? index with
      | some f =>
        if f.isNative then
          d.complain .missingEntryPoint "'Main' cannot be an extern function" f.span
        else if 0 < f.params.length then
          d.complain .wrongArgCount
            s!"'Main' must not take parameters, found {f.params.length}" f.span
        else d
      | none => d
    (UInt32.ofNat index, d)
  | none =>
    if d.settings.fileType = .executable then
      (0, d.complain .missingEntryPoint "no 'Main' function; an executable needs an entry point"
        span)
    else (0, d)

end Declared

structure ProgramDecls where
  decls : Declarations
  strings : Strings
  /-- For each function of the text its index, unless it was a prototype or refused. -/
  indices : List (Option Nat)
  entry : UInt32
  deriving Inhabited

def declareProgram (source : SourceText) (settings : EmitSettings) (program : Program) :
    ProgramDecls :=
  let d := program.items.foldl Declared.declareItem ⟨source, settings, .empty, .empty⟩
  let (indices, d) := d.declareFunctions program.functions []
  let (entry, d) := d.resolveEntry program.span
  ⟨d.decls, d.strings, indices, entry⟩

end RegisterLang.Emission
