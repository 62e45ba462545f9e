import RegisterLang.Proofs.Parsing

/-! # The parser accepts the grammar

What is written for a program of the grammar is read back without a complaint, and the program that comes
out differs from the written one in its spans only. Blocks nest in each other, and the bound that the
parser puts on their nesting is never met: it is the number of tokens, and each block has two of its own.
Main statement: `parseTokens_tokens`.
-/

namespace RegisterLang.Parser

open Reads Stmt

variable {α : Type} {value : Option Expr} {link? : Option Linkage}

/-! ## Statements -/

/-- What can follow a statement: nothing that goes on with a conditional. -/
abbrev NoBranch (k : TokenKind) : Prop := k ≠ .kwElif ∧ k ≠ .kwElse

theorem reads_eq_expr (formed : value.all Expr.isWellFormed = true) :
    Reads 0 (do if ← eat .eq then some <$> expression else pure none)
      ((value.map fun e => .eq :: e.tokens).getD []) (· = .semicolon)
      fun value' => value'.map Expr.spanless = value.map Expr.spanless := by
  cases value with
  | none =>
    apply bind_eat_other
    · exact .of_pure rfl
    · rintro _ rfl same
      cases same
  | some e =>
    apply bind_eat
    apply map ((reads_expression formed).narrow _)
    · exact fun e' same => congrArg some same
    · rintro _ rfl
      rfl

theorem reads_varDecl {decl : VarDecl} (formed : decl.isWellFormed = true) :
    Reads 0 varDecl decl.tokens Anything (·.spanless = decl.spanless) := by
  rw [VarDecl.isWellFormed, Bool.and_eq_true] at formed
  apply bind_span
  intro _
  apply bind_expect
  apply bind_cons (reads_ident decl.name.name)
  intro name named
  apply bind_expect
  apply bind (reads_type formed.1)
  · rintro _ rfl
    apply bind_if (reads_eq_expr formed.2)
    · intro init same
      apply bind_expect
      apply of_span
      intro _
      rw [VarDecl.spanless, VarDecl.spanless, Ident.spanless, Ident.spanless, named, same]
    · exact fun _ _ => rfl
  · intro k _
    cases decl.init with
    | none => exact (by decide : EndsType .semicolon)
    | some e => exact (by decide : EndsType .eq)

theorem reads_returned (formed : value.all Expr.isWellFormed = true) :
    Reads 0 (do if ← check .semicolon then pure none else some <$> expression)
      ((value.map Expr.tokens).getD []) (· = .semicolon)
      fun value' => value'.map Expr.spanless = value.map Expr.spanless := by
  cases value with
  | none =>
    apply bind_look fun s rest before next => decide_eq_true (before.kind_nil.trans next)
    exact .of_pure rfl
  | some e =>
    obtain ⟨k, ks, here, opens⟩ := e.exists_tokens_eq_cons
    have reads := reads_expression formed
    rw [ReadsExpr, here] at reads
    change Reads 0 _ e.tokens _ _
    rw [here]
    apply bind_check_cons
    have differs : k ≠ .semicolon := by
      rintro rfl
      cases opens
    rw [decide_eq_false differs]
    apply map (reads.narrow _)
    · exact fun e' same => congrArg some same
    · rintro _ rfl
      rfl

theorem reads_returnStmt (formed : value.all Expr.isWellFormed = true) (span : Span) :
    Reads 0 returnStmt (ret value span).tokens Anything (·.spanless = (ret value span).spanless) := by
  apply bind_advance
  intro _
  apply bind_if (reads_returned formed)
  · intro value' same
    apply bind_expect
    apply of_span
    intro _
    rw [spanless, spanless, same]
  · exact fun _ _ => rfl

/-- An expression statement, or an assignment to something that can be assigned to. -/
theorem reads_exprOrAssign_expr {e : Expr} (formed : e.isWellFormed = true) (span : Span) :
    Reads 0 exprOrAssign (expr e span).tokens Anything (·.spanless = (expr e span).spanless) := by
  apply bind (reads_expression formed)
  · intro e' same
    apply bind_eat_other
    · apply bind_expect
      apply of_span
      intro _
      rw [spanless, spanless, same]
    · exact fun _ _ same => by cases same
  · exact fun _ _ => rfl

theorem reads_exprOrAssign_assign {target value : Expr} (target_formed : target.isWellFormed = true)
    (assignable : target.isAssignable = true) (value_formed : value.isWellFormed = true) (span : Span) :
    Reads 0 exprOrAssign (assign target value span).tokens Anything
      (·.spanless = (assign target value span).spanless) := by
  apply bind (reads_expression target_formed)
  · intro e same
    apply bind_eat
    apply bind (reads_expression value_formed)
    · intro e' same'
      apply bind_expect
      apply bind_span
      intro _
      have kept : e.isAssignable = true := by
        rw [← Expr.isAssignable_spanless, same, Expr.isAssignable_spanless, assignable]
      rw [kept]
      refine .of_pure ?_
      rw [spanless, spanless, same, same']
    · exact fun _ _ => rfl
  · exact fun _ _ => rfl

/-! ## Blocks -/

section

variable {block : Parser Block} {chain : Parser Conditional}

/-- What a conditional has otherwise is read. -/
def ReadsOtherwise (block : Parser Block) (chain : Parser Conditional) : Otherwise → Prop
  | .absent => True
  | .elif next => Reads 0 chain (next.tokens .kwElif) NoBranch (·.spanless = next.spanless)
  | .orElse body => Reads 0 block body.tokens Anything (·.spanless = body.spanless)

theorem reads_conditionalWith {cond : Expr} {body : Block} {otherwise : Otherwise} (formed : cond.isWellFormed = true)
    (reads : Reads 0 block body.tokens Anything (·.spanless = body.spanless))
    (others : ReadsOtherwise block chain otherwise) (word : TokenKind) (span : Span) :
    Reads 0 (conditionalWith block chain) ((Conditional.mk cond body otherwise span).tokens word) NoBranch
      (·.spanless = (Conditional.mk cond body otherwise span).spanless) := by
  apply bind_advance
  intro start
  apply bind (reads_expression formed)
  · intro cond' same
    apply bind reads _ fun _ _ => trivial
    intro body' same'
    have built {otherwise' : Otherwise} (alike : otherwise'.spanless = otherwise.spanless) :
        Reads 0 (do return Conditional.mk cond' body' otherwise' (start.span.cover (← last))) [] NoBranch
          (·.spanless = (Conditional.mk cond body otherwise span).spanless) := by
      apply of_span
      intro _
      rw [Conditional.spanless, Conditional.spanless, same, same', alike]
    cases otherwise with
    | absent =>
      apply bind_check_nil fun _ next => next.1
      apply bind_eat_other _ fun _ next => next.2
      exact built rfl
    | elif next =>
      obtain ⟨ks, here⟩ := next.exists_tokens_eq_cons .kwElif
      have reads : Reads 0 (Otherwise.elif <$> chain) (next.tokens .kwElif) NoBranch
          (·.spanless = (Otherwise.elif next).spanless) :=
        map others fun next' alike => by rw [Otherwise.spanless, Otherwise.spanless, alike]
      rw [Otherwise.tokens]
      rw [here] at reads ⊢
      apply bind_check_cons
      exact bind_end reads fun _ => built
    | orElse body =>
      obtain ⟨ks, here⟩ := body.exists_tokens_eq_cons
      have reads : Reads 0 (Otherwise.orElse <$> block) body.tokens NoBranch
          (·.spanless = (Otherwise.orElse body).spanless) :=
        (map others fun body' alike => by rw [Otherwise.spanless, Otherwise.spanless, alike]).anywhere
      apply bind_check_cons
      apply bind_eat
      rw [here] at reads ⊢
      apply bind_check_cons
      exact bind_end reads fun _ => built
  · intro _ _
    obtain ⟨ks, here⟩ := body.exists_tokens_eq_cons
    rw [here]
    rfl

theorem reads_statementWith_exprOrAssign {conditional : Parser Conditional} {gives : Stmt → Prop}
    {ks : List TokenKind} (opens : ∃ k ks', ks = k :: ks' ∧ k.opensExpr = true)
    (reads : Reads 0 exprOrAssign ks Anything gives) : Reads 0 (statementWith block conditional) ks Anything gives := by
  obtain ⟨k, ks', rfl, opens⟩ := opens
  apply bind_kind_cons
  cases k with
  | kwVar | kwReturn | kwIf | lBrace => cases opens
  | _ => exact reads

theorem reads_statements {statement : Parser Stmt} {stmts : List Stmt}
    (each : ∀ stmt ∈ stmts, Reads 0 statement stmt.tokens NoBranch (·.spanless = stmt.spanless)) :
    Reads 0 (gather (fun s => s.kind = .rBrace || s.atEnd || s.report.atLimit) statement skipStatement)
      (stmts.flatMap tokens) (· = .rBrace) fun stmts' =>
        stmts'.map spanless = stmts.map spanless := by
  apply reads_gather each
  · intro stmt _
    obtain ⟨k, ks, here, opens⟩ := stmt.exists_tokens_eq_cons
    refine ⟨k, ks, here, ?_, ?_⟩
    · rintro rfl
      cases opens
    · rintro rfl
      cases opens
  · rintro _ rfl
    decide
  · intro stmt _ s rest before
    obtain ⟨k, ks, here, opens⟩ := stmt.exists_tokens_eq_cons
    rw [here] at before
    rw [State.atEnd, before.kind_cons, before.clean]
    cases k with
    | rBrace | eof => cases opens
    | _ => rfl
  · intro s rest before next
    rw [before.kind_nil, next]
    rfl

theorem reads_blockWith {statement : Parser Stmt} {stmts : List Stmt}
    (each : ∀ stmt ∈ stmts, Reads 0 statement stmt.tokens NoBranch (·.spanless = stmt.spanless)) (span : Span) :
    Reads 0 (blockWith statement) (Block.mk stmts span).tokens Anything
      (·.spanless = (Block.mk stmts span).spanless) := by
  rw [Block.tokens, tokensAll_eq_flatMap]
  apply bind_span
  intro _
  apply bind_expect
  apply bind (reads_statements each) _ fun _ _ => rfl
  intro stmts' same
  apply bind_expect
  apply of_span
  intro _
  rw [Block.spanless, Block.spanless, spanlessAll_eq_map, same, spanlessAll_eq_map]

end

/-- How a statement is read when `n` limits the nesting of blocks. -/
abbrev statementWithin (n : Nat) : Parser Stmt :=
  statementWith (blockWithin n) (chainWithin n)

mutual

theorem reads_stmt : (stmt : Stmt) → (n : Nat) → stmt.isWellFormed = true →
    stmt.tokens.length ≤ n →
      Reads 0 (statementWithin n) stmt.tokens NoBranch (·.spanless = stmt.spanless)
  | .var decl, n, formed, _ => by
    apply bind_kind_cons
    apply map (reads_varDecl formed).anywhere
    intro decl' same
    rw [spanless, spanless, same]
  | .assign target value span, n, formed, _ => by
    simp only [isWellFormed, Bool.and_eq_true] at formed
    have reads := reads_exprOrAssign_assign formed.1.1 formed.1.2 formed.2 span
    apply (reads_statementWith_exprOrAssign _ reads).anywhere
    obtain ⟨k, ks, here, opens⟩ := target.exists_tokens_eq_cons
    exact ⟨k, _, by rw [tokens, here, List.cons_append], opens⟩
  | .ret value span, n, formed, _ => by
    have reads := reads_returnStmt formed span
    apply bind_kind_cons
    exact reads.anywhere
  | .expr value span, n, formed, _ => by
    have reads := reads_exprOrAssign_expr formed span
    apply (reads_statementWith_exprOrAssign _ reads).anywhere
    obtain ⟨k, ks, here, opens⟩ := value.exists_tokens_eq_cons
    exact ⟨k, _, by rw [tokens, here, List.cons_append], opens⟩
  | .branch chain, n, formed, enough => by
    rw [tokens] at enough ⊢
    have reads := reads_conditional chain .kwIf n formed enough
    obtain ⟨ks, here⟩ := chain.exists_tokens_eq_cons .kwIf
    rw [here] at reads ⊢
    apply bind_kind_cons
    apply map reads
    intro chain' same
    rw [spanless, spanless, same]
  | .block body, n, formed, enough => by
    rw [tokens] at enough ⊢
    have reads := reads_block body n formed enough
    obtain ⟨ks, here⟩ := body.exists_tokens_eq_cons
    rw [here] at reads ⊢
    apply bind_kind_cons
    apply map reads.anywhere
    intro body' same
    rw [spanless, spanless, same]

theorem reads_stmts : (stmts : List Stmt) → (n : Nat) → allWellFormed stmts = true →
    (tokensAll stmts).length ≤ n →
      ∀ stmt ∈ stmts, Reads 0 (statementWithin n) stmt.tokens NoBranch (·.spanless = stmt.spanless)
  | [], _, _, _, _, member => by cases member
  | stmt :: stmts, n, formed, enough, stmt', member => by
    rw [allWellFormed, Bool.and_eq_true] at formed
    rw [tokensAll, List.length_append] at enough
    rcases List.mem_cons.1 member with here | later
    · rw [here]
      exact reads_stmt stmt n formed.1 (by omega)
    · exact reads_stmts stmts n formed.2 (by omega) stmt' later

theorem reads_block : (body : Block) → (n : Nat) → body.isWellFormed = true →
    body.tokens.length ≤ n → Reads 0 (blockWithin n) body.tokens Anything (·.spanless = body.spanless)
  | .mk stmts span, 0, _, enough => by
    cases enough
  | .mk stmts span, n + 1, formed, enough => by
    simp only [Block.tokens, List.length_cons, List.length_append] at enough
    exact reads_blockWith (reads_stmts stmts n formed (by omega)) span

theorem reads_conditional : (chain : Conditional) → (word : TokenKind) → (n : Nat) →
    chain.isWellFormed = true → (chain.tokens word).length ≤ n →
      Reads 0 (chainWithin n) (chain.tokens word) NoBranch (·.spanless = chain.spanless)
  | .mk cond body otherwise span, word, 0, _, enough => by
    cases enough
  | .mk cond body otherwise span, word, n + 1, formed, enough => by
    simp only [Conditional.isWellFormed, Bool.and_eq_true] at formed
    simp only [Conditional.tokens, List.length_cons, List.length_append] at enough
    apply reads_conditionalWith formed.1.1
    · exact reads_block body n formed.1.2 (by omega)
    · exact reads_otherwise otherwise n formed.2 (by omega)

theorem reads_otherwise : (otherwise : Otherwise) → (n : Nat) → otherwise.isWellFormed = true →
    otherwise.tokens.length ≤ n → ReadsOtherwise (blockWithin n) (chainWithin n) otherwise
  | .absent, _, _, _ => trivial
  | .elif chain, n, formed, enough => by
    exact reads_conditional chain .kwElif n formed enough
  | .orElse body, n, formed, enough => by
    rw [Otherwise.tokens, List.length_cons] at enough
    exact reads_block body n formed (by omega)

end

theorem reads_block_all {body : Block} (formed : body.isWellFormed = true) :
    Reads 0 block body.tokens Anything (·.spanless = body.spanless) := by
  intro s rest before next
  have enough : body.tokens.length ≤ s.rest.length := before.length_eq ▸ Nat.le_add_right ..
  exact reads_block body _ formed (Nat.le_succ_of_le enough) s rest before next

/-! ## Items -/

theorem reads_symbol (symbol : Option String) :
    Reads 0 (do if ← eat .comma then some <$> stringLit else pure none)
      ((symbol.map fun symbol => [.comma, .stringLit symbol]).getD []) (· = .rParen) (· = symbol) := by
  cases symbol with
  | none =>
    apply bind_eat_other
    · exact .of_pure rfl
    · rintro _ rfl same
      cases same
  | some symbol =>
    apply bind_eat
    apply map (reads_stringLit symbol).anywhere
    exact fun _ => congrArg some

theorem reads_linkage {link : Linkage} (formed : link.isWellFormed = true) :
    Reads 0 (linkage none) link.tokens Anything (·.spanless = link.spanless) := by
  apply bind_advance
  intro _
  apply bind_cons (reads_ident "extern")
  intro name named
  apply of_not (not_not_intro named)
  apply bind_expect
  apply bind_cons (reads_stringLit link.library)
  rintro _ rfl
  apply bind_if (reads_symbol link.symbol) _ fun _ _ => rfl
  rintro _ rfl
  apply bind_expect
  apply bind_span
  intro _
  apply of_not
  · simpa [Linkage.isWellFormed] using formed
  apply of_not Bool.false_ne_true
  exact .of_pure rfl

theorem reads_attributes (formed : link?.all Linkage.isWellFormed = true) :
    Reads 0 attributes ((link?.map Linkage.tokens).getD []) (· ≠ .atSign)
      (·.map Linkage.spanless = link?.map Linkage.spanless) := by
  apply of_loops
  have ends {found : Option Linkage} (same : found.map Linkage.spanless = link?.map Linkage.spanless) :
      Loops 0 attributeRound found [] (· ≠ .atSign) (·.map Linkage.spanless = link?.map Linkage.spanless) := by
    apply Loops.done
    apply bind_check_nil fun _ => id
    exact .of_pure ⟨found, rfl, same⟩
  cases link? with
  | none => exact ends rfl
  | some link =>
    have reads := reads_linkage (show link.isWellFormed = true from formed)
    obtain ⟨ks, here⟩ : ∃ ks, link.tokens = .atSign :: ks := ⟨_, rfl⟩
    change Loops 0 _ _ link.tokens _ _
    rw [here] at reads ⊢
    rw [← List.append_nil (.atSign :: ks)]
    apply Loops.again (·.map Linkage.spanless = (some link).map Linkage.spanless)
    · apply bind_check_cons
      apply bind_end reads
      intro link' same
      exact .of_pure ⟨some link', rfl, congrArg some same⟩
    · exact fun _ => ends
    · exact fun _ _ => trivial

theorem reads_param {p : Param} (formed : p.ty.isWellFormed = true) :
    Reads 0 param p.tokens EndsType (·.spanless = p.spanless) := by
  apply bind_cons (reads_ident p.name.name)
  intro name named
  apply bind_expect
  apply bind_end (reads_type formed)
  rintro _ rfl
  apply of_span
  intro _
  rw [Param.spanless, Param.spanless, Ident.spanless, Ident.spanless, named]

theorem reads_result {t : Ty} (formed : t.isWellFormed = true) :
    Reads 0 (do if ← eat .colon then type else pure Ty.void) (if t = .void then [] else .colon :: t.tokens)
      (fun k => k = .lBrace ∨ k = .semicolon) (· = t) := by
  split
  · next void =>
    apply bind_eat_other
    · exact .of_pure void.symm
    · rintro _ (rfl | rfl) same
      · cases same
      · cases same
  · next other =>
    apply bind_eat
    apply (reads_type formed).narrow
    rintro _ (rfl | rfl)
    · decide
    · decide

theorem reads_functionBody {body : Option Block} (formed : body.all Block.isWellFormed = true)
    (free : link?.isNone = true ∨ body.isNone = true) (name : Ident) :
    Reads 0 (functionBody name link?) ((body.map Block.tokens).getD [.semicolon]) Anything
      (·.map Block.spanless = body.map Block.spanless) := by
  cases body with
  | none =>
    apply bind_eat
    exact .of_pure rfl
  | some body =>
    obtain ⟨ks, here⟩ := body.exists_tokens_eq_cons
    have reads := reads_block_all (show body.isWellFormed = true from formed)
    have none : link? = none := by simpa using free
    change Reads 0 _ body.tokens _ _
    rw [here] at reads ⊢
    apply bind_eat_other
    · apply bind_end reads
      intro body' same
      subst none
      exact .of_pure (congrArg some same)
    · exact fun _ _ same => by cases same

theorem reads_params {params : List Param} (formed : params.all (·.ty.isWellFormed) = true) :
    Reads 0 (separated param .rParen) (commaSeparated (params.map Param.tokens) ++ [.rParen]) Anything
      (·.map Param.spanless = params.map Param.spanless) := by
  apply reads_separated (by decide)
  · intro p member
    apply (reads_param (List.all_eq_true.1 formed p member)).narrow
    rintro _ (rfl | rfl)
    · decide
    · decide
  · exact fun p _ => ⟨_, _, rfl, by simp, by simp⟩

theorem reads_function {decl : FunctionDecl} (formed : decl.isWellFormed = true)
    (linked : link?.map Linkage.spanless = decl.linkage.map Linkage.spanless) :
    Reads 0 (function link?) decl.bareTokens Anything (·.spanless = decl.spanless) := by
  simp only [FunctionDecl.isWellFormed, Bool.and_eq_true, Bool.or_eq_true] at formed
  obtain ⟨⟨⟨⟨params_formed, ret_formed⟩, body_formed⟩, -⟩, free⟩ := formed
  have free' : link?.isNone = true ∨ decl.body.isNone = true := by
    rwa [← Option.isNone_map (f := Linkage.spanless), ← linked, Option.isNone_map] at free
  rw [FunctionDecl.bareTokens, List.append_cons]
  apply bind_span
  intro _
  apply bind_expect
  apply bind_cons (reads_ident decl.name.name)
  intro name named
  apply bind_expect
  apply bind (reads_params params_formed) _ fun _ _ => trivial
  intro params same_params
  apply bind_if (reads_result ret_formed)
  · rintro _ rfl
    apply bind_end (reads_functionBody body_formed free' name)
    intro body same_body
    apply of_span
    intro _
    rw [FunctionDecl.spanless, FunctionDecl.spanless, Ident.spanless, Ident.spanless, named, same_params,
      same_body, linked]
  · intro _ _
    cases decl.body with
    | none => exact .inr rfl
    | some body =>
      obtain ⟨ks, here⟩ := body.exists_tokens_eq_cons
      left
      change body.tokens.headD _ = _
      rw [here]
      rfl

theorem reads_constDecl {decl : ConstDecl} (formed : decl.isWellFormed = true) :
    Reads 0 constDecl decl.tokens Anything (·.spanless = decl.spanless) := by
  simp only [ConstDecl.isWellFormed, Bool.and_eq_true] at formed
  obtain ⟨⟨type_formed, isConst⟩, value_formed⟩ := formed
  apply bind_span
  intro _
  apply bind_expect
  apply bind_cons (reads_ident decl.name.name)
  intro name named
  apply bind_expect
  apply bind (reads_type (t := { decl.ty with isConst := false }) type_formed)
  · rintro _ rfl
    apply bind_expect
    apply bind (reads_expression value_formed) _ fun _ _ => rfl
    intro value' same
    apply bind_expect
    apply of_span
    intro _
    have constant : { decl.ty with isConst := false }.constant = decl.ty := by
      rw [Ty.constant, ← isConst]
    rw [constant, ConstDecl.spanless, ConstDecl.spanless, Ident.spanless, Ident.spanless, named, same]
  · exact fun _ _ => (by decide : EndsType .eq)

theorem reads_item {it : Item} (formed : it.isWellFormed = true) :
    Reads 0 item it.tokens Anything (·.spanless = it.spanless) := by
  have unlinked := reads_attributes (show (none : Option Linkage).all Linkage.isWellFormed = true from rfl)
  cases it with
  | var decl =>
    apply bind_nil unlinked _ fun _ _ same => by cases same
    intro link? absent
    apply bind_kind_cons
    apply of_not
    · simpa using absent
    exact (reads_varDecl formed).map fun _ => congrArg Item.var
  | const decl =>
    apply bind_nil unlinked _ fun _ _ same => by cases same
    intro link? absent
    apply bind_kind_cons
    apply of_not
    · simpa using absent
    exact (reads_constDecl formed).map fun _ => congrArg Item.const
  | function decl =>
    have link_formed : decl.linkage.all Linkage.isWellFormed = true := by
      simp only [Item.isWellFormed, FunctionDecl.isWellFormed, Bool.and_eq_true] at formed
      exact formed.1.2
    apply bind (reads_attributes link_formed) _ fun _ _ same => by cases same
    intro link? linked
    apply bind_kind_cons
    exact (reads_function formed linked).map fun _ => congrArg Item.function

theorem reads_program {p : Program} (formed : p.isWellFormed = true) :
    Reads 0 program p.tokens (· = .eof) (·.spanless = p.spanless) := by
  have items : Reads 0 (gather (fun s => s.atEnd || s.report.atLimit) item skipItem)
      (p.items.flatMap Item.tokens) (· = .eof) (·.map Item.spanless = p.items.map Item.spanless) := by
    apply reads_gather fun it member => reads_item (List.all_eq_true.1 formed it member)
    · intro it _
      obtain ⟨k, ks, here, -⟩ := it.exists_tokens_eq_cons
      exact ⟨k, ks, here, trivial⟩
    · exact fun _ _ => trivial
    · intro it _ s rest before
      obtain ⟨k, ks, here, opens⟩ := it.exists_tokens_eq_cons
      rw [here] at before
      rw [State.atEnd, before.kind_cons, before.clean]
      cases k with
      | eof => cases opens
      | _ => rfl
    · intro s rest before next
      rw [State.atEnd, before.kind_nil, next]
      rfl
  apply bind_span
  intro _
  apply bind_end items
  intro items' same
  apply of_span
  intro _
  rw [Program.spanless, Program.spanless, same]

end RegisterLang.Parser

namespace RegisterLang

/-- The parser accepts the whole grammar and builds the intended tree: what is written for a program of the
grammar is read back without a complaint, and as that program up to its spans. -/
theorem parseTokens_tokens {program : Program} (formed : program.isWellFormed = true) {tokens : List Token}
    (spelled : tokens.map Token.kind = program.tokens ++ [.eof]) (source : SourceText) :
    (parseTokens source tokens).1.spanless = program.spanless ∧ (parseTokens source tokens).2 = .empty := by
  obtain ⟨written, stop, rfl, kinds, last⟩ := List.map_eq_append_iff.1 spelled
  obtain ⟨⟨_, span⟩, _, rfl, rfl, none⟩ := List.map_eq_cons_iff.1 last
  obtain rfl := List.map_eq_nil_iff.1 none
  have start : Parser.State.ofTokens source (written ++ [⟨.eof, span⟩]) =
      ⟨source, .point ⟨1, 1⟩, written, span, 0, .empty⟩ := by
    simp [Parser.State.ofTokens]
  have before : (Parser.State.ofTokens source (written ++ [⟨.eof, span⟩])).Before 0 program.tokens [] := by
    rw [start]
    exact ⟨rfl, rfl, written, (List.append_nil _).symm, kinds⟩
  obtain ⟨read, s, ran, same, after⟩ := Parser.reads_program formed _ _ before rfl
  rw [parseTokens, ran]
  exact ⟨same, after.clean⟩

/-- A program that has a function of a library, a constant with operators of every level, an array of
pointers and a conditional with three branches. -/
def mixedProgram : Program where
  items := [
    .function ⟨⟨"Sin", .absent⟩, [⟨⟨"x", .absent⟩, .scalar .float, .absent⟩], .scalar .float, none,
      some ⟨"m", some "sin", .absent⟩, .absent⟩,
    .const ⟨⟨"N", .absent⟩, (Ty.scalar .int).constant,
      .binary .less (.binary .sub (.int 9 .absent) (.binary .mul (.unary .neg (.int 2 .absent) .absent)
        (.group (.binary .add (.int 3 .absent) (.int 4 .absent) .absent) .absent) .absent) .absent)
        (.int 7 .absent) .absent, .absent⟩,
    .var ⟨⟨"a", .absent⟩, (Ty.scalar .int).pointerTo.arrayOf 4, none, .absent⟩,
    .function ⟨⟨"Main", .absent⟩, [], .void, some (.mk [
      .branch (.mk (.name "N" .absent)
        (.mk [.assign (.index (.name "a" .absent) (.int 0 .absent) .absent) (.list [] .absent) .absent] .absent)
        (.elif (.mk (.dot (.name "a" .absent) ⟨"n", .absent⟩ .absent) (.mk [.ret none .absent] .absent)
          (.orElse (.mk [.block (.mk [] .absent)] .absent)) .absent)) .absent),
      .expr (.call ⟨"Sin", .absent⟩ [.float 0 .absent, .str "s" .absent] .absent) .absent] .absent),
      none, .absent⟩]
  span := .absent

theorem parseTokens_tokens_mixed : mixedProgram.isWellFormed = true ∧
    (parseTokens default (mixedProgram.tokens.map (⟨·, .absent⟩) ++ [⟨.eof, .absent⟩])).1.spanless =
      mixedProgram.spanless ∧
    (parseTokens default (mixedProgram.tokens.map (⟨·, .absent⟩) ++ [⟨.eof, .absent⟩])).2 = .empty := by
  have formed : mixedProgram.isWellFormed = true := by decide
  exact ⟨formed, parseTokens_tokens formed (by simp [Function.comp_def]) default⟩

end RegisterLang
