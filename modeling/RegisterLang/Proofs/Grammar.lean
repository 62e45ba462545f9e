import RegisterLang.Ast.Parser.Expr

/-! # Trees as they are written

The surface grammar puts every operand at a level of precedence: a comparison joins two sums, a sum joins
products to its left, a product joins operands, an operand is a prefix operator before another one or a
term with calls, elements and fields behind it. A tree is well-formed when each of its parts stands where
the grammar allows it; a part that binds too loosely for its place has to stand in a group. The tokens of a
tree are what the grammar writes for it.
-/

namespace RegisterLang

open List

/-! ## Operators -/

namespace TokenKind

/-- How tightly a token ties what stands before it to what follows: comparisons one, sums two, products
three, calls, elements and fields four, and other tokens not at all. -/
def strength : TokenKind → Nat
  | eqEq | bangEq | less | greater | lessEq | greaterEq => 1
  | plus | minus => 2
  | star | slash => 3
  | lParen | lBracket | dot => 4
  | _ => 0

/-- The tokens that an expression can start with. -/
def opensExpr : TokenKind → Bool
  | intLit _ | floatLit _ | stringLit _ | identifier _ | lParen | lBracket | minus | bang => true
  | _ => false

/-- The tokens that a statement can start with. -/
def opensStmt : TokenKind → Bool
  | kwVar | kwReturn | kwIf | lBrace => true
  | k => k.opensExpr

/-- The tokens that an item can start with. -/
def opensItem : TokenKind → Bool
  | kwFn | kwVar | kwConst | atSign => true
  | _ => false

theorem opensStmt_of_opensExpr {k : TokenKind} (opens : k.opensExpr = true) : k.opensStmt = true := by
  cases k with
  | kwVar | kwReturn | kwIf | lBrace => rfl
  | _ => exact opens

end TokenKind

namespace BinOp

def token : BinOp → TokenKind
  | add => .plus
  | sub => .minus
  | mul => .star
  | div => .slash
  | eq => .eqEq
  | notEq => .bangEq
  | less => .less
  | greater => .greater
  | lessEq => .lessEq
  | greaterEq => .greaterEq

/-- The level of precedence of an operator: comparisons zero, sums one, products two. -/
def binds : BinOp → Nat
  | add | sub => 1
  | mul | div => 2
  | eq | notEq | less | greater | lessEq | greaterEq => 0

theorem binds_le (op : BinOp) : op.binds ≤ 2 := by
  cases op with
  | _ => decide

end BinOp

def UnaryOp.token : UnaryOp → TokenKind
  | neg => .minus
  | not => .bang

/-- Several things with commas between them. -/
def commaSeparated : List (List TokenKind) → List TokenKind
  | [] => []
  | [tokens] => tokens
  | tokens :: more :: rest => tokens ++ .comma :: commaSeparated (more :: rest)

/-! ## Types -/

namespace Ty

/-- A type that is written as a name with stars, and perhaps with `const` before and brackets behind. -/
def isWellFormed (t : Ty) : Bool :=
  t.depth ≤ maxDepth && t.isPointer = decide (0 < t.depth) && t.arrayLen < UInt32.size &&
    (t.isArray || t.arrayLen = 0) &&
    t.bits = if t.isPointer || t.isArray then 64 else t.primitive.naturalBits

/-- The type with `n` more stars behind it. -/
def starred (t : Ty) (n : Nat) : Ty :=
  { t with
    isPointer := t.isPointer || decide (0 < n)
    depth := t.depth + n
    bits := if n = 0 then t.bits else 64 }

theorem starred_zero (t : Ty) : t.starred 0 = t := by
  simp [starred]

theorem starred_pointerTo {t : Ty} {n : Nat} (few : t.depth + (n + 1) ≤ maxDepth) :
    t.pointerTo.starred n = t.starred (n + 1) := by
  have depth : min (t.depth + 1) maxDepth + n = t.depth + (n + 1) := by omega
  simp only [starred, pointerTo, depth, Nat.succ_pos, decide_true, Bool.true_or, Bool.or_true, ite_self,
    Nat.succ_ne_zero, if_false]

/-- A length of zero is left out. -/
def tokens (t : Ty) : List TokenKind :=
  (if t.isConst then [.kwConst] else []) ++ .typeName t.primitive :: (.replicate t.depth .star ++
    if t.isArray then
      .lBracket :: ((if t.arrayLen = 0 then [] else [.intLit (.ofNat t.arrayLen)]) ++ [.rBracket])
    else [])

end Ty

/-! ## Expressions -/

namespace Expr

/-- The level of precedence of an expression: its operator's, three after a prefix operator, and four
otherwise. -/
def binds : Expr → Nat
  | binary op _ _ _ => op.binds
  | unary _ _ _ => 3
  | int _ _ | float _ _ | str _ _ | name _ _ | group _ _ | call _ _ _ | dot _ _ _ | list _ _
  | index _ _ _ => 4

mutual

/-- The expression without its spans. -/
def spanless : Expr → Expr
  | int v _ => .int v .absent
  | float bits _ => .float bits .absent
  | str text _ => .str text .absent
  | name id _ => .name id .absent
  | group inner _ => .group inner.spanless .absent
  | call callee args _ => .call ⟨callee.name, .absent⟩ (spanlessAll args) .absent
  | binary op left right _ => .binary op left.spanless right.spanless .absent
  | unary op operand _ => .unary op operand.spanless .absent
  | dot object field _ => .dot object.spanless ⟨field.name, .absent⟩ .absent
  | list items _ => .list (spanlessAll items) .absent
  | index array position _ => .index array.spanless position.spanless .absent

def spanlessAll : List Expr → List Expr
  | [] => []
  | e :: es => e.spanless :: spanlessAll es

end

mutual

/-- Whether every operand binds as tightly as its place asks for. -/
def isOrdered : Expr → Bool
  | int _ _ | float _ _ | str _ _ | name _ _ => true
  | group inner _ => inner.isOrdered
  | call _ args _ => allOrdered args
  | binary op left right _ =>
    max 1 op.binds ≤ left.binds && op.binds < right.binds && left.isOrdered && right.isOrdered
  | unary _ operand _ => 3 ≤ operand.binds && operand.isOrdered
  | dot object _ _ => 4 ≤ object.binds && object.isOrdered
  | list items _ => allOrdered items
  | index array position _ => 4 ≤ array.binds && array.isOrdered && position.isOrdered

def allOrdered : List Expr → Bool
  | [] => true
  | e :: es => e.isOrdered && allOrdered es

end

mutual

/-- How many levels of expressions nest in an expression, itself included. Parentheses, brackets and prefix
operators open a level. -/
def nesting : Expr → Nat
  | int _ _ | float _ _ | str _ _ | name _ _ => 1
  | group inner _ => inner.nesting + 1
  | call _ args _ => nestingAll args + 1
  | binary _ left right _ => max left.nesting right.nesting
  | unary _ operand _ => operand.nesting + 1
  | dot object _ _ => object.nesting
  | list items _ => nestingAll items + 1
  | index array position _ => max array.nesting (position.nesting + 1)

def nestingAll : List Expr → Nat
  | [] => 0
  | e :: es => max e.nesting (nestingAll es)

end

mutual

/-- What is written for an expression. -/
def tokens : Expr → List TokenKind
  | int v _ => [.intLit v]
  | float bits _ => [.floatLit bits]
  | str text _ => [.stringLit text]
  | name id _ => [.identifier id]
  | group inner _ => .lParen :: (inner.tokens ++ [.rParen])
  | call callee args _ =>
    .identifier callee.name :: .lParen :: (commaSeparated (tokensAll args) ++ [.rParen])
  | binary op left right _ => left.tokens ++ op.token :: right.tokens
  | unary op operand _ => op.token :: operand.tokens
  | dot object field _ => object.tokens ++ [.dot, .identifier field.name]
  | list items _ => .lBracket :: (commaSeparated (tokensAll items) ++ [.rBracket])
  | index array position _ => array.tokens ++ .lBracket :: (position.tokens ++ [.rBracket])

def tokensAll : List Expr → List (List TokenKind)
  | [] => []
  | e :: es => e.tokens :: tokensAll es

end

/-- An expression that the grammar can produce. -/
def isWellFormed (e : Expr) : Bool :=
  e.isOrdered && e.nesting ≤ Parser.maxNesting

theorem spanlessAll_eq_map (es : List Expr) : spanlessAll es = es.map spanless := by
  induction es with
  | nil => rfl
  | cons e es ih => rw [spanlessAll, ih, map_cons]

theorem tokensAll_eq_map (es : List Expr) : tokensAll es = es.map tokens := by
  induction es with
  | nil => rfl
  | cons e es ih => rw [tokensAll, ih, map_cons]

theorem nesting_pos : (e : Expr) → 0 < e.nesting
  | int _ _ | float _ _ | str _ _ | name _ _ => by exact Nat.one_pos
  | group _ _ | call _ _ _ | unary _ _ _ | list _ _ => by exact Nat.succ_pos _
  | binary _ left _ _ => by exact Nat.lt_of_lt_of_le left.nesting_pos (Nat.le_max_left ..)
  | dot object _ _ => by exact object.nesting_pos
  | index array _ _ => by exact Nat.lt_of_lt_of_le array.nesting_pos (Nat.le_max_left ..)

theorem peel_spanless : (e : Expr) → e.spanless.peel = e.peel.spanless
  | group inner _ => by
    exact inner.peel_spanless
  | int _ _ | float _ _ | str _ _ | name _ _ | call _ _ _ | binary _ _ _ _ | unary _ _ _ | dot _ _ _
  | list _ _ | index _ _ _ => by simp only [spanless, peel]

theorem isAssignable_spanless (e : Expr) : e.spanless.isAssignable = e.isAssignable := by
  rw [isAssignable, isAssignable, peel_spanless]
  cases e.peel with
  | _ => simp only [spanless]

theorem exists_tokens_eq_cons : (e : Expr) → ∃ k ks, e.tokens = k :: ks ∧ k.opensExpr = true
  | int _ _ | float _ _ | str _ _ | name _ _ | group _ _ | call _ _ _ | list _ _ => by
    exact ⟨_, _, rfl, rfl⟩
  | unary op operand _ => by
    refine ⟨_, _, rfl, ?_⟩
    cases op with
    | _ => rfl
  | binary op left right _ => by
    obtain ⟨k, ks, here, opens⟩ := left.exists_tokens_eq_cons
    rw [tokens, here]
    exact ⟨k, _, rfl, opens⟩
  | dot object field _ => by
    obtain ⟨k, ks, here, opens⟩ := object.exists_tokens_eq_cons
    rw [tokens, here]
    exact ⟨k, _, rfl, opens⟩
  | index array position _ => by
    obtain ⟨k, ks, here, opens⟩ := array.exists_tokens_eq_cons
    rw [tokens, here]
    exact ⟨k, _, rfl, opens⟩

/-- An expression that binds most tightly does not start with a prefix operator. -/
theorem unaryOp?_of_tokens : (e : Expr) → e.isOrdered = true → 4 ≤ e.binds →
    ∀ k ks, e.tokens = k :: ks → Parser.unaryOp? k = none
  | int _ _, _, _ | float _ _, _, _ | str _ _, _, _ | name _ _, _, _ | group _ _, _, _ | call _ _ _, _, _
  | list _ _, _, _ => by
    intro k ks here
    cases here
    rfl
  | unary _ _ _, _, tight => absurd tight (show ¬ 4 ≤ 3 by decide)
  | binary op _ _ _, _, tight => absurd (Nat.le_trans tight op.binds_le) (by decide)
  | dot object field _, ordered, _ => by
    intro k ks here
    rw [isOrdered, Bool.and_eq_true, decide_eq_true_eq] at ordered
    obtain ⟨k', ks', start, -⟩ := object.exists_tokens_eq_cons
    rw [tokens, start] at here
    cases here
    exact object.unaryOp?_of_tokens ordered.2 ordered.1 k ks' start
  | index array position _, ordered, _ => by
    intro k ks here
    simp only [isOrdered, Bool.and_eq_true, decide_eq_true_eq] at ordered
    obtain ⟨k', ks', start, -⟩ := array.exists_tokens_eq_cons
    rw [tokens, start] at here
    cases here
    exact array.unaryOp?_of_tokens ordered.1.2 ordered.1.1 k ks' start

end Expr

/-! ## Statements -/

namespace Ident

def spanless (id : Ident) : Ident :=
  ⟨id.name, .absent⟩

end Ident

namespace VarDecl

def spanless (d : VarDecl) : VarDecl :=
  ⟨d.name.spanless, d.ty, d.init.map Expr.spanless, .absent⟩

def isWellFormed (d : VarDecl) : Bool :=
  d.ty.isWellFormed && d.init.all Expr.isWellFormed

def tokens (d : VarDecl) : List TokenKind :=
  .kwVar :: .identifier d.name.name :: .colon ::
    (d.ty.tokens ++ ((d.init.map fun e => .eq :: e.tokens).getD [] ++ [.semicolon]))

end VarDecl

mutual

def Stmt.spanless : Stmt → Stmt
  | .var decl => .var decl.spanless
  | .assign target value _ => .assign target.spanless value.spanless .absent
  | .ret value _ => .ret (value.map Expr.spanless) .absent
  | .branch chain => .branch chain.spanless
  | .expr value _ => .expr value.spanless .absent
  | .block body => .block body.spanless

def Stmt.spanlessAll : List Stmt → List Stmt
  | [] => []
  | stmt :: stmts => stmt.spanless :: Stmt.spanlessAll stmts

def Block.spanless : Block → Block
  | .mk stmts _ => .mk (Stmt.spanlessAll stmts) .absent

def Conditional.spanless : Conditional → Conditional
  | .mk cond body otherwise _ => .mk cond.spanless body.spanless otherwise.spanless .absent

def Otherwise.spanless : Otherwise → Otherwise
  | .absent => .absent
  | .elif chain => .elif chain.spanless
  | .orElse body => .orElse body.spanless

end

mutual

/-- A statement that the grammar can produce. An assignment goes to a name or to an element, perhaps in
parentheses. -/
def Stmt.isWellFormed : Stmt → Bool
  | .var decl => decl.isWellFormed
  | .assign target value _ => target.isWellFormed && target.isAssignable && value.isWellFormed
  | .ret value _ => value.all Expr.isWellFormed
  | .branch chain => chain.isWellFormed
  | .expr value _ => value.isWellFormed
  | .block body => body.isWellFormed

def Stmt.allWellFormed : List Stmt → Bool
  | [] => true
  | stmt :: stmts => stmt.isWellFormed && Stmt.allWellFormed stmts

def Block.isWellFormed : Block → Bool
  | .mk stmts _ => Stmt.allWellFormed stmts

def Conditional.isWellFormed : Conditional → Bool
  | .mk cond body otherwise _ => cond.isWellFormed && body.isWellFormed && otherwise.isWellFormed

def Otherwise.isWellFormed : Otherwise → Bool
  | .absent => true
  | .elif chain => chain.isWellFormed
  | .orElse body => body.isWellFormed

end

mutual

/-- What is written for a statement. -/
def Stmt.tokens : Stmt → List TokenKind
  | .var decl => decl.tokens
  | .assign target value _ => target.tokens ++ .eq :: (value.tokens ++ [.semicolon])
  | .ret value _ => .kwReturn :: ((value.map Expr.tokens).getD [] ++ [.semicolon])
  | .branch chain => chain.tokens .kwIf
  | .expr value _ => value.tokens ++ [.semicolon]
  | .block body => body.tokens

def Stmt.tokensAll : List Stmt → List TokenKind
  | [] => []
  | stmt :: stmts => stmt.tokens ++ Stmt.tokensAll stmts

def Block.tokens : Block → List TokenKind
  | .mk stmts _ => .lBrace :: (Stmt.tokensAll stmts ++ [.rBrace])

/-- A conditional starts with `if`, or with `elif` when it is what another one has otherwise. -/
def Conditional.tokens (word : TokenKind) : Conditional → List TokenKind
  | .mk cond body otherwise _ => word :: (cond.tokens ++ (body.tokens ++ otherwise.tokens))

def Otherwise.tokens : Otherwise → List TokenKind
  | .absent => []
  | .elif chain => chain.tokens .kwElif
  | .orElse body => .kwElse :: body.tokens

end

/-! ## Programs -/

namespace Linkage

def spanless (link : Linkage) : Linkage :=
  ⟨link.library, link.symbol, .absent⟩

def isWellFormed (link : Linkage) : Bool :=
  !link.library.isEmpty && link.symbol ≠ some ""

def tokens (link : Linkage) : List TokenKind :=
  .atSign :: .identifier "extern" :: .lParen :: .stringLit link.library ::
    ((link.symbol.map fun symbol => [.comma, .stringLit symbol]).getD [] ++ [.rParen])

end Linkage

namespace Param

def spanless (p : Param) : Param :=
  ⟨p.name.spanless, p.ty, .absent⟩

def tokens (p : Param) : List TokenKind :=
  .identifier p.name.name :: .colon :: p.ty.tokens

end Param

namespace FunctionDecl

def spanless (d : FunctionDecl) : FunctionDecl :=
  ⟨d.name.spanless, d.params.map Param.spanless, d.ret, d.body.map Block.spanless,
    d.linkage.map Linkage.spanless, .absent⟩

/-- A function that is bound to a library has no body. -/
def isWellFormed (d : FunctionDecl) : Bool :=
  d.params.all (·.ty.isWellFormed) && d.ret.isWellFormed && d.body.all Block.isWellFormed &&
    d.linkage.all Linkage.isWellFormed && (d.linkage.isNone || d.body.isNone)

/-- What is written for a function after its attributes. A result of type `Void` is left out. -/
def bareTokens (d : FunctionDecl) : List TokenKind :=
  .kwFn :: .identifier d.name.name :: .lParen :: (commaSeparated (d.params.map Param.tokens) ++ .rParen ::
    ((if d.ret = .void then [] else .colon :: d.ret.tokens) ++
      (d.body.map Block.tokens).getD [.semicolon]))

def tokens (d : FunctionDecl) : List TokenKind :=
  (d.linkage.map Linkage.tokens).getD [] ++ d.bareTokens

end FunctionDecl

namespace ConstDecl

def spanless (d : ConstDecl) : ConstDecl :=
  ⟨d.name.spanless, d.ty, d.value.spanless, .absent⟩

def isWellFormed (d : ConstDecl) : Bool :=
  d.ty.isWellFormed && d.ty.isConst && d.value.isWellFormed

/-- The type of a constant is constant without saying so. -/
def tokens (d : ConstDecl) : List TokenKind :=
  .kwConst :: .identifier d.name.name :: .colon ::
    ({ d.ty with isConst := false }.tokens ++ .eq :: (d.value.tokens ++ [.semicolon]))

end ConstDecl

namespace Item

def spanless : Item → Item
  | .function decl => .function decl.spanless
  | .var decl => .var decl.spanless
  | .const decl => .const decl.spanless

def isWellFormed : Item → Bool
  | .function decl => decl.isWellFormed
  | .var decl => decl.isWellFormed
  | .const decl => decl.isWellFormed

def tokens : Item → List TokenKind
  | .function decl => decl.tokens
  | .var decl => decl.tokens
  | .const decl => decl.tokens

end Item

namespace Program

/-- The program without its spans. -/
def spanless (p : Program) : Program :=
  ⟨p.items.map Item.spanless, .absent⟩

/-- A program that the grammar can produce. -/
def isWellFormed (p : Program) : Bool :=
  p.items.all Item.isWellFormed

/-- What is written for a program. -/
def tokens (p : Program) : List TokenKind :=
  p.items.flatMap Item.tokens

end Program

theorem Block.exists_tokens_eq_cons (body : Block) : ∃ ks, body.tokens = .lBrace :: ks := by
  cases body with
  | mk stmts span => exact ⟨_, by rw [tokens]⟩

theorem Conditional.exists_tokens_eq_cons (word : TokenKind) (chain : Conditional) :
    ∃ ks, chain.tokens word = word :: ks := by
  cases chain with
  | mk cond body otherwise span => exact ⟨_, by rw [tokens]⟩

namespace Stmt

theorem spanlessAll_eq_map (stmts : List Stmt) : spanlessAll stmts = stmts.map spanless := by
  induction stmts with
  | nil => rw [spanlessAll, map_nil]
  | cons stmt stmts ih => rw [spanlessAll, ih, map_cons]

theorem tokensAll_eq_flatMap (stmts : List Stmt) : tokensAll stmts = stmts.flatMap tokens := by
  induction stmts with
  | nil => rw [tokensAll, flatMap_nil]
  | cons stmt stmts ih => rw [tokensAll, ih, flatMap_cons]

theorem exists_tokens_eq_cons (stmt : Stmt) : ∃ k ks, stmt.tokens = k :: ks ∧ k.opensStmt = true := by
  cases stmt with
  | var decl => exact ⟨_, _, by rw [tokens, VarDecl.tokens], rfl⟩
  | ret value span => exact ⟨_, _, by rw [tokens], rfl⟩
  | branch chain =>
    obtain ⟨ks, here⟩ := chain.exists_tokens_eq_cons .kwIf
    exact ⟨_, ks, by rw [tokens, here], rfl⟩
  | block body =>
    obtain ⟨ks, here⟩ := body.exists_tokens_eq_cons
    exact ⟨_, ks, by rw [tokens, here], rfl⟩
  | assign target value span =>
    obtain ⟨k, ks, here, opens⟩ := target.exists_tokens_eq_cons
    exact ⟨k, _, by rw [tokens, here, cons_append], TokenKind.opensStmt_of_opensExpr opens⟩
  | expr value span =>
    obtain ⟨k, ks, here, opens⟩ := value.exists_tokens_eq_cons
    exact ⟨k, _, by rw [tokens, here, cons_append], TokenKind.opensStmt_of_opensExpr opens⟩

end Stmt

theorem Item.exists_tokens_eq_cons (item : Item) : ∃ k ks, item.tokens = k :: ks ∧ k.opensItem = true := by
  cases item with
  | var _ | const _ => exact ⟨_, _, rfl, rfl⟩
  | function decl =>
    rw [tokens, FunctionDecl.tokens]
    cases decl.linkage with
    | none | some _ => exact ⟨_, _, rfl, rfl⟩

namespace Parser

variable {α β : Type} {p : Parser α} {f : α → Parser β} {s s' : State} {k : TokenKind}

theorem bind_of_eq_some {a : α} (ran : p s = (some a, s')) : (p >>= f) s = f a s' := by
  simp only [Bind.bind, ran]

theorem bind_of_eq_none (ran : p s = (none, s')) : (p >>= f) s = (none, s') := by
  simp only [Bind.bind, ran]

theorem eat_of_kind (here : s.kind = k) : eat k s = (some true, s.advance) := by
  simp only [eat, check, look, Bind.bind, here, decide_true, if_true]
  rfl

theorem eat_of_ne (other : s.kind ≠ k) : eat k s = (some false, s) := by
  simp only [eat, check, look, Bind.bind, decide_eq_false other]
  rfl

theorem expect_of_kind (here : s.kind = k) : expect k s = (some (), s.advance) := by
  simp only [expect, kind, look, Bind.bind, if_pos here]
  rfl

end Parser

end RegisterLang
