import RegisterLang.CodeBuffer.Layout
import RegisterLang.Emission.Declare
import RegisterLang.Emission.Stmt

/-! # Programs to codefiles

The items of a program are declared, then the body of every function is emitted and laid out. Mistakes
are reported and emission goes on; the codefile is of no use when there are any.
-/

namespace RegisterLang

namespace Emission

structure FinishedBody where
  localReserve : Nat
  code : List UInt8

def reserveHomes : List UInt8 → EmitM Unit
  | [] => return
  | reg :: regs => do
    match (← get).pool.reserve? reg with
    | some pool => modify fun b => { b with pool, homes := reg :: b.homes }
    | none => throw (.internal (.reservedTwice reg))
    reserveHomes regs

def homeRegs (locals : SymbolTable Local) : List UInt8 :=
  locals.toList.filterMap fun (_, l) =>
    match l.storage with
    | .register reg => some reg
    | .stack _ => none

def destroyArray (scope : Scope) : Storage → EmitM Unit
  | .register reg => emitInsn (.arrayDestroy reg)
  | .stack slot => do
    let scratch ← allocate scope
    emitInsn (.localGet scratch slot)
    emitInsn (.arrayDestroy scratch)
    free scratch

def emitEpilogue (scope : Scope) : EmitM Unit := do
  let arrays := (← get).locals.toList.filter fun (_, l) => l.isOwnedArray
  arrays.forM fun (_, l) => destroyArray scope l.storage
  emitInsn (if scope.ret.isVoid then .retVoid else .ret)

/-- Report a function with a result that may end without returning one. -/
def checkReturns (scope : Scope) (name : Ident) (body : Block) : EmitM Unit := do
  if !scope.ret.isVoid then
    if (← get).returns = 0 then
      complain scope .missingReturn
        s!"function '{scope.name}' must return a value of type {scope.ret.text}" name.span
    else if !blockReturns body then
      complain scope .missingReturn
        s!"not every path through '{scope.name}' returns a value" name.span

def emitBody (scope : Scope) (name : Ident) (body : Block) : EmitM Unit := do
  reserveHomes (homeRegs (← get).locals)
  emitStmts scope .body body.stmts
  checkReturns scope name body
  onCode (·.bind scope.endLabel)
  if !(← get).isFinished then emitEpilogue scope

def Body.initial (strings : Strings) (locals : SymbolTable Local) : Label × Body :=
  let (endLabel, code) := CodeBuffer.empty.newLabel
  (endLabel,
    { strings, locals, code
      localReserve := 0
      pool := .empty
      homes := []
      endJumps := 0
      returns := 0
      isFinished := false })

structure Emitted where
  strings : Strings
  /-- The body of every declared function, by index, once it was emitted. -/
  bodies : Array (Option FinishedBody)
  stats : Array FunctionStats

def emitFunction (source : SourceText) (settings : EmitSettings) (decls : Declarations)
    (name : Ident) (body : Block) (index : Nat) (f : Function) (done : Emitted) :
    Except EmissionError Emitted := do
  let (endLabel, start) := Body.initial done.strings f.locals
  let scope : Scope :=
    { source, settings, decls, endLabel
      name := name.name
      ret := f.ret
      stackArgs := f.stackArgs }
  let ((), b) ← (emitBody scope name body).run start
  let finished ← b.code.finish
  let stats : FunctionStats :=
    { name := name.name
      index := index
      convention := f.convention
      registerArgs := f.registerArgs
      stackArgs := f.stackArgs
      localReserve := b.localReserve
      codeSize := finished.bytes.length
      shortJumps := finished.shortJumps
      wideJumps := finished.wideJumps
      leakedRegisters := b.pool.inUse - b.homes.length }
  return {
    strings := b.strings
    bodies := done.bodies.setIfInBounds index (some ⟨b.localReserve, finished.bytes⟩)
    stats := done.stats.push stats }

/-- Emit the functions of a program that have a body, until too many mistakes were reported. -/
def emitFunctions (source : SourceText) (settings : EmitSettings) (decls : Declarations) :
    List (FunctionDecl × Option Nat) → Emitted → Except EmissionError Emitted
  | [], done => .ok done
  | (decl, index?) :: rest, done =>
    if done.strings.report.atLimit then .ok done
    else
      match index?, decl.body with
      | some index, some body =>
        match decls.functions.get? index with
        | none => .error (.internal (.noFunction index))
        | some f =>
          if f.isNative then emitFunctions source settings decls rest done
          else do
            let done ← emitFunction source settings decls decl.name body index f done
            emitFunctions source settings decls rest done
      | _, _ => emitFunctions source settings decls rest done

/-- The entry of a function in the codefile; one whose body was not emitted has no code. -/
def functionEntry (body? : Option FinishedBody) (f : Function) : FunctionEntry :=
  match f.native with
  | some link => .native link.library link.symbol
  | none =>
    match body? with
    | some body =>
      .bytecode (UInt16.ofNat body.localReserve) (UInt16.ofNat f.stackArgs) body.code
    | none => .bytecode 0 (UInt16.ofNat f.stackArgs) []

/-- The entry of a global in the codefile. Pointers have no kind of their own. -/
def globalEntry (g : Global) : GlobalEntry :=
  ⟨if g.ty.isScalar then g.ty.primitive else .any, g.bits⟩

end Emission

/-- All that emission gives. The codefile must not be used when the report has errors. -/
structure EmitOutput where
  codefile : Codefile
  report : Report
  /-- One entry for every function with code, in the order of emission. -/
  stats : List Emission.FunctionStats

namespace EmitOutput

def statsOf? (o : EmitOutput) (name : String) : Option Emission.FunctionStats :=
  o.stats.find? (·.name = name)

end EmitOutput

def emit (program : Program) (source : SourceText) (settings : EmitSettings) :
    Except EmissionError EmitOutput := do
  let declared := Emission.declareProgram source settings program
  let decls := declared.decls
  let done ← Emission.emitFunctions source settings decls
    (program.functions.zip declared.indices)
    ⟨declared.strings, .replicate decls.functions.size none, #[]⟩
  return {
    codefile :=
      { fileType := settings.fileType
        major := Codefile.versionMajor
        minor := Codefile.versionMinor
        entry := declared.entry
        functions := decls.functions.toList.zipIdx.map fun ((_, f), index) =>
          Emission.functionEntry done.bodies[index]?.join f
        globals := decls.globals.toList.map fun (_, g) => Emission.globalEntry g
        strings := done.strings.table.toList.map Utf8.encode }
    report := done.strings.report
    stats := done.stats.toList }

end RegisterLang
