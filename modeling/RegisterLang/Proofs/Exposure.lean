import RegisterLang.Proofs.Evaluation

/-! # Arrays in the text

What a function does with its arrays as wholes: which variables it can return, which it declares inside of
conditionals, and which it exposes, that is, passes to a call, returns, or stores to an element of.
-/

namespace RegisterLang

variable {decl : FunctionDecl} {body : Block}

/-! ## Arrays in the text -/

mutual

/-- The variables that an expression can take its value from as a whole, be it through calls. -/
def Expr.roots : Expr → List String
  | .name id _ => [id]
  | .group inner _ => inner.roots
  | .call _ args _ => Expr.listRoots args
  | .int .. | .float .. | .str .. | .binary .. | .unary .. | .dot .. | .list .. | .index .. => []

/-- The variables that expressions can take their values from as a whole. -/
def Expr.listRoots : List Expr → List String
  | [] => []
  | e :: es => e.roots ++ Expr.listRoots es

end

mutual

/-- The variables that a statement can return as a whole. -/
def Stmt.returned : Stmt → List String
  | .var _ | .assign .. | .ret none _ | .expr .. => []
  | .ret (some e) _ => e.roots
  | .branch chain => chain.returned
  | .block body => body.returned

/-- The variables that statements can return as a whole. -/
def Stmt.listReturned : List Stmt → List String
  | [] => []
  | stmt :: stmts => stmt.returned ++ Stmt.listReturned stmts

/-- The variables that a block can return as a whole. -/
def Block.returned : Block → List String
  | .mk stmts _ => Stmt.listReturned stmts

/-- The variables that a conditional can return as a whole. -/
def Conditional.returned : Conditional → List String
  | .mk _ body otherwise _ => body.returned ++ otherwise.returned

/-- The variables that can be returned as a whole where a condition does not hold. -/
def Otherwise.returned : Otherwise → List String
  | .absent => []
  | .elif chain => chain.returned
  | .orElse body => body.returned

end

mutual

/-- The variables that a statement declares inside of conditionals. -/
def Stmt.branchVars : Stmt → List VarDecl
  | .var _ | .assign .. | .ret .. | .expr .. => []
  | .branch chain => chain.vars
  | .block body => body.branchVars

/-- The variables that statements declare inside of conditionals. -/
def Stmt.listBranchVars : List Stmt → List VarDecl
  | [] => []
  | stmt :: stmts => stmt.branchVars ++ Stmt.listBranchVars stmts

/-- The variables that a block declares inside of conditionals. -/
def Block.branchVars : Block → List VarDecl
  | .mk stmts _ => Stmt.listBranchVars stmts

end

mutual

theorem Stmt.mem_vars_of_mem_branchVars {var : VarDecl} : (stmt : Stmt) → var ∈ stmt.branchVars → var ∈ stmt.vars
  | .var _, member | .assign .., member | .ret .., member | .expr .., member => nomatch member
  | .branch _, member => member
  | .block body, member => Block.mem_vars_of_mem_branchVars body member

theorem Stmt.mem_listVars_of_mem_listBranchVars {var : VarDecl} : (stmts : List Stmt) →
    var ∈ Stmt.listBranchVars stmts → var ∈ Stmt.listVars stmts
  | stmt :: stmts, member => by
    rw [Stmt.listBranchVars, List.mem_append] at member
    rw [Stmt.listVars, List.mem_append]
    exact member.imp (Stmt.mem_vars_of_mem_branchVars stmt) (Stmt.mem_listVars_of_mem_listBranchVars stmts)

theorem Block.mem_vars_of_mem_branchVars {var : VarDecl} : (body : Block) → var ∈ body.branchVars → var ∈ body.vars
  | .mk stmts _, member => Stmt.mem_listVars_of_mem_listBranchVars stmts member

end

namespace FunctionDecl

/-- The types of the result and the parameters of a function. -/
def signature (decl : FunctionDecl) : List Ty :=
  decl.ret :: decl.params.map Param.ty

/-- The variables that a function declares. -/
def vars (decl : FunctionDecl) : List VarDecl :=
  (decl.body.map Block.vars).getD []

/-- The arrays that a function destroys at its end. -/
def ownArrays (decl : FunctionDecl) : List String :=
  (decl.vars.filter (·.ty.isOwnedArray)).map (·.name.name)

/-- The variables that a function can return as a whole. -/
def returned (decl : FunctionDecl) : List String :=
  (decl.body.map Block.returned).getD []

/-- The variables that a function declares inside of conditionals. -/
def branchVars (decl : FunctionDecl) : List VarDecl :=
  (decl.body.map Block.branchVars).getD []

theorem vars_of_body (has : decl.body = some body) : decl.vars = body.vars := by
  rw [vars, has]
  rfl

theorem returned_of_body (has : decl.body = some body) : decl.returned = body.returned := by
  rw [returned, has]
  rfl

theorem branchVars_of_body (has : decl.body = some body) : decl.branchVars = body.branchVars := by
  rw [branchVars, has]
  rfl

/-- The types that a function is declared with. -/
def types (decl : FunctionDecl) : List Ty :=
  decl.signature ++ decl.vars.map VarDecl.ty

/-- A function that takes and gives arrays only where its signature has an array, and does not return what it
destroys. -/
structure ArraysApart (decl : FunctionDecl) : Prop where
  text : ∀ ty ∈ decl.signature, ty.isArray = true → ty.isConstString = false
  native : decl.linkage.isSome = true → decl.ret.isArray = false
  result : decl.ret.isArray = true → ∀ x ∈ decl.returned, x ∉ decl.ownArrays

instance (decl : FunctionDecl) : Decidable decl.ArraysApart :=
  decidable_of_iff ((∀ ty ∈ decl.signature, ty.isArray = true → ty.isConstString = false) ∧
      (decl.linkage.isSome = true → decl.ret.isArray = false) ∧
      (decl.ret.isArray = true → ∀ x ∈ decl.returned, x ∉ decl.ownArrays))
    ⟨fun ⟨text, native, result⟩ => ⟨text, native, result⟩, fun ⟨text, native, result⟩ => ⟨text, native, result⟩⟩

end FunctionDecl

/-! ## Variables that are exposed -/

mutual

/-- The variables that an expression exposes: it passes them to calls as a whole. -/
def Expr.exposed : Expr → List String
  | .int .. | .float .. | .str .. | .name .. => []
  | .group inner _ => inner.exposed
  | .call _ args _ => Expr.listRoots args ++ Expr.listExposed args
  | .binary _ left right _ => left.exposed ++ right.exposed
  | .unary _ operand _ => operand.exposed
  | .dot object _ _ => object.exposed
  | .list items _ => Expr.listExposed items
  | .index array position _ => array.exposed ++ position.exposed

/-- The variables that expressions expose. -/
def Expr.listExposed : List Expr → List String
  | [] => []
  | e :: es => e.exposed ++ Expr.listExposed es

end

/-- The variables that the initializer of a variable exposes. -/
def VarDecl.exposed (var : VarDecl) : List String :=
  if var.ty.isArray then Expr.listExposed var.items else (var.init.map Expr.exposed).getD []

/-- The variables that an assignment exposes, that of the element that is assigned to among them. -/
def Expr.assignExposed (target value : Expr) : List String :=
  match target.peel with
  | .name _ _ => value.exposed
  | .index array position _ => array.roots ++ array.exposed ++ position.exposed ++ value.exposed
  | _ => []

mutual

/-- The variables that a statement exposes, at any depth. -/
def Stmt.exposed : Stmt → List String
  | .var decl => decl.exposed
  | .assign target value _ => target.assignExposed value
  | .ret none _ => []
  | .ret (some e) _ => e.roots ++ e.exposed
  | .branch chain => chain.exposed
  | .expr e _ => e.exposed
  | .block body => body.exposed

/-- The variables that statements expose. -/
def Stmt.listExposed : List Stmt → List String
  | [] => []
  | stmt :: stmts => stmt.exposed ++ Stmt.listExposed stmts

/-- The variables that a block exposes. -/
def Block.exposed : Block → List String
  | .mk stmts _ => Stmt.listExposed stmts

/-- The variables that a conditional exposes. -/
def Conditional.exposed : Conditional → List String
  | .mk cond body otherwise _ => cond.exposed ++ body.exposed ++ otherwise.exposed

/-- The variables that are exposed where a condition does not hold. -/
def Otherwise.exposed : Otherwise → List String
  | .absent => []
  | .elif chain => chain.exposed
  | .orElse body => body.exposed

end

namespace FunctionDecl

/-- The variables that a function exposes. -/
def exposed (decl : FunctionDecl) : List String :=
  (decl.body.map Block.exposed).getD []

/-- A variable is a constant that its function does not expose. -/
def Secludes (decl : FunctionDecl) (var : VarDecl) : Prop :=
  var.ty.isConst = true ∧ var.name.name ∉ decl.exposed

/-- A name of a variable that a function secludes. -/
def Hides (decl : FunctionDecl) (x : String) : Prop :=
  ∃ var ∈ decl.vars, var.name.name = x ∧ decl.Secludes var

theorem exposed_of_body (has : decl.body = some body) : decl.exposed = body.exposed := by
  rw [exposed, has]
  rfl

end FunctionDecl

end RegisterLang
