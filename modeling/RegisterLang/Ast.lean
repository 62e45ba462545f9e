import RegisterLang.Source.Span
import RegisterLang.Ty

/-! # Programs as trees

A program is a list of items: functions, global variables and constants. Every node knows the span of
the text it was read from. Parentheses are kept, as `Expr.group`.
-/

namespace RegisterLang

structure Ident where
  name : String
  span : Span
  deriving DecidableEq, Repr, Inhabited

inductive BinOp where
  | add
  | sub
  | mul
  | div
  | eq
  | notEq
  | less
  | greater
  | lessEq
  | greaterEq
  deriving DecidableEq, Repr, Inhabited

namespace BinOp

def all : List BinOp :=
  [.add, .sub, .mul, .div, .eq, .notEq, .less, .greater, .lessEq, .greaterEq]

def isComparison : BinOp → Bool
  | add | sub | mul | div => false
  | eq | notEq | less | greater | lessEq | greaterEq => true

def inverse : BinOp → BinOp
  | eq => notEq
  | notEq => eq
  | less => greaterEq
  | greaterEq => less
  | greater => lessEq
  | lessEq => greater
  | op => op

/-- The comparison with its operands exchanged. -/
def mirror : BinOp → BinOp
  | less => greater
  | greater => less
  | lessEq => greaterEq
  | greaterEq => lessEq
  | op => op

def symbol : BinOp → String
  | add => "+"
  | sub => "-"
  | mul => "*"
  | div => "/"
  | eq => "=="
  | notEq => "!="
  | less => "<"
  | greater => ">"
  | lessEq => "<="
  | greaterEq => ">="

def ofSymbol? (symbol : String) : Option BinOp :=
  all.find? (·.symbol = symbol)

end BinOp

inductive UnaryOp where
  | neg
  | not
  deriving DecidableEq, Repr, Inhabited

inductive Expr where
  | int (value : UInt64) (span : Span)
  /-- A floating-point literal, by the bits of its value. -/
  | float (bits : UInt64) (span : Span)
  | str (text : String) (span : Span)
  | name (id : String) (span : Span)
  | group (inner : Expr) (span : Span)
  | call (callee : Ident) (args : List Expr) (span : Span)
  | binary (op : BinOp) (left right : Expr) (span : Span)
  | unary (op : UnaryOp) (operand : Expr) (span : Span)
  | dot (object : Expr) (field : Ident) (span : Span)
  | list (items : List Expr) (span : Span)
  | index (array position : Expr) (span : Span)
  deriving Repr, Inhabited

namespace Expr

def span : Expr → Span
  | int _ s | float _ s | str _ s | name _ s | group _ s | call _ _ s | binary _ _ _ s
  | unary _ _ s | dot _ _ s | list _ s | index _ _ s => s

def peel : Expr → Expr
  | group inner _ => peel inner
  | e => e

/-- Whether an expression can stand on the left of an assignment. -/
def isAssignable (e : Expr) : Bool :=
  match e.peel with
  | name _ _ | index _ _ _ => true
  | _ => false

end Expr

structure VarDecl where
  name : Ident
  ty : Ty
  init : Option Expr
  span : Span
  deriving Repr, Inhabited

mutual

inductive Stmt where
  | var (decl : VarDecl)
  | assign (target value : Expr) (span : Span)
  | ret (value : Option Expr) (span : Span)
  | branch (chain : Conditional)
  | expr (value : Expr) (span : Span)
  | block (body : Block)

inductive Block where
  | mk (stmts : List Stmt) (span : Span)

/-- An `if` or `elif`, with what follows when its condition fails. -/
inductive Conditional where
  | mk (cond : Expr) (body : Block) (otherwise : Otherwise) (span : Span)

inductive Otherwise where
  | absent
  | elif (chain : Conditional)
  | orElse (body : Block)

end

deriving instance Repr for Stmt, Block, Conditional, Otherwise

instance : Inhabited Block := ⟨.mk [] .absent⟩

instance : Inhabited Stmt := ⟨.block default⟩

instance : Inhabited Conditional := ⟨.mk default default .absent .absent⟩

instance : Inhabited Otherwise := ⟨.absent⟩

namespace Block

def stmts : Block → List Stmt
  | mk stmts _ => stmts

def span : Block → Span
  | mk _ span => span

end Block

namespace Otherwise

def isAbsent : Otherwise → Bool
  | absent => true
  | elif _ | orElse _ => false

end Otherwise

namespace Conditional

def span : Conditional → Span
  | mk _ _ _ span => span

end Conditional

namespace Stmt

def span : Stmt → Span
  | var d => d.span
  | assign _ _ s | ret _ s | expr _ s => s
  | branch chain => chain.span
  | block body => body.span

end Stmt

/-- The library and symbol that a function without a body is bound to. -/
structure Linkage where
  library : String
  /-- The symbol; the function's own name when absent. -/
  symbol : Option String
  span : Span
  deriving DecidableEq, Repr, Inhabited

structure Param where
  name : Ident
  ty : Ty
  span : Span
  deriving DecidableEq, Repr, Inhabited

structure FunctionDecl where
  name : Ident
  params : List Param
  ret : Ty
  /-- Absent for functions bound to a library and for prototypes. -/
  body : Option Block
  linkage : Option Linkage
  span : Span
  deriving Repr, Inhabited

structure ConstDecl where
  name : Ident
  ty : Ty
  value : Expr
  span : Span
  deriving Repr, Inhabited

inductive Item where
  | function (decl : FunctionDecl)
  | var (decl : VarDecl)
  | const (decl : ConstDecl)
  deriving Repr, Inhabited

structure Program where
  items : List Item
  span : Span
  deriving Repr, Inhabited

namespace Program

def functions (p : Program) : List FunctionDecl :=
  p.items.filterMap fun
    | .function d => some d
    | _ => none

def globals (p : Program) : List VarDecl :=
  p.items.filterMap fun
    | .var d => some d
    | _ => none

end Program

end RegisterLang
