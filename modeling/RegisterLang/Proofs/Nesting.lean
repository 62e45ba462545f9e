import RegisterLang.Ast.Parser.Expr
import RegisterLang.Proofs.Grammar

/-! # The nesting limit does not leak

Reading an expression leaves as many expressions open as there were. What it yields or refuses depends on the tokens to
come, and not on the tokens and mistakes before them. Main statement: `expression_local`.
-/

namespace RegisterLang.Parser

variable {α β : Type} {p : Parser α} {f : α → Parser β} {pre : State → Span → Prop}

/-- The answers of a parser in two states with these reports: the same value and no mistake, or the same mistake. -/
inductive Answers (r r' : Report) : Option α × State → Option α × State → Prop where
  | value (a : α) {s : State} (same : s.report = r) : Answers r r' (some a, s) (some a, { s with report := r' })
  | mistake (d : Diagnostic) (last : Span) {s : State} (told : s.report = r.error d) :
      Answers r r' (none, s) (none, { s with last, report := r'.error d })

/-- Another report changes nothing in what a parser does, nor does another last token where `pre` allows one. -/
class Local (pre : State → Span → Prop) (p : Parser α) : Prop where
  answers : ∀ s last report, pre s last → Answers s.report report (p s) (p { s with last, report })

/-- The last token is the same. So it is after a token was read. -/
def Settled (s : State) (last : Span) : Prop := last = s.last

/-- There is a token to read. -/
def Inside (s : State) (_ : Span) : Prop := s.kind ≠ .eof

def Always (_ : State) (_ : Span) : Prop := True

instance [each : Local Always p] : Local pre p :=
  ⟨fun s last report _ => each.answers s last report trivial⟩

instance Local.bind [Local pre p] [rest : ∀ a, Local Settled (f a)] : Local pre (p >>= f) where
  answers s last report start := by
    have answers := Local.answers (p := p) s last report start
    generalize ran : p s = x, ran' : p { s with last, report } = y at answers
    cases answers with
    | value a same =>
      rw [bind_of_eq_some ran, bind_of_eq_some ran', ← same]
      exact (rest a).answers _ _ report rfl
    | mistake d last told =>
      rw [bind_of_eq_none ran, bind_of_eq_none ran']
      exact .mistake d last told

theorem Local.of_look {h : State → α} (same : ∀ s report, h { s with report } = h s) : Local Settled (look h) where
  answers s last report start := by
    cases start
    change Answers _ _ _ (some (h { s with report }), _)
    rw [same s report]
    exact .value _ rfl

instance (a : α) : Local Settled (pure a : Parser α) := .of_look (h := fun _ => a) fun _ _ => rfl

instance : Local Settled kind := .of_look fun _ _ => rfl

instance : Local Settled last := .of_look fun _ _ => rfl

instance (k : TokenKind) : Local Settled (check k) := .of_look fun _ _ => rfl

instance (code : Code) (message : String) : Local pre (refuse code message : Parser α) :=
  ⟨fun _ last _ _ => .mistake _ last rfl⟩

instance : Local Inside advance where
  answers s _ _ inner := by
    obtain ⟨source, before, _ | ⟨token, rest⟩, stop, depth, told⟩ := s
    · exact absurd rfl inner
    · exact .value _ rfl

instance : Local Settled advance where
  answers s last report start := by
    cases start
    obtain ⟨source, before, _ | ⟨token, rest⟩, stop, depth, told⟩ := s <;> exact .value _ rfl

instance [Local pre p] : Local pre (discard p) :=
  inferInstanceAs (Local pre (p >>= fun _ => pure ()))

instance {c : Prop} [Decidable c] {q : Parser α} [Local pre p] [Local pre q] : Local pre (if c then p else q) := by
  split <;> infer_instance

instance (k : TokenKind) : Local Settled (eat k) := by
  unfold eat
  infer_instance

instance (k : TokenKind) : Local Settled (expect k) := by
  unfold expect
  infer_instance

/-! ## Decisions by the next token -/

theorem Local.of_kind {f : TokenKind → Parser α} (each : ∀ k, Local Settled (f k)) : Local Settled (kind >>= f) :=
  inferInstance

theorem Local.of_here {f : Span → Parser α} (each : ∀ span, Local Always (f span)) : Local Always (here >>= f) :=
  ⟨fun s => (each s.next.span).answers s⟩

theorem Local.of_kind_always {f : TokenKind → Parser α} (each : ∀ k, Local Inside (f k))
    (ends : Local Always (f .eof)) : Local Always (kind >>= f) where
  answers s last report _ := by
    change Answers _ _ (f s.kind s) (f s.kind _)
    by_cases ended : s.kind = .eof
    · rw [ended]
      exact ends.answers s last report trivial
    · exact (each s.kind).answers s last report ended

instance : Local Settled ident := by
  apply Local.of_kind
  intro k
  split <;> infer_instance

instance {round : β → Parser (Loop β)} [∀ b, Local Settled (round b)] (b : β) : Local Settled (iterate round b) := by
  suffices within : ∀ bound b, Local Settled (iterateWithin round bound b) from
    @Local.bind _ _ _ _ _ (.of_look fun _ _ => rfl) fun bound => within bound b
  intro bound
  induction bound with
  | nil => exact fun b => inferInstanceAs (Local _ (pure b))
  | cons token bound ih =>
    refine fun b => @Local.bind _ _ _ _ _ inferInstance ?_
    rintro (b' | b')
    · exact ih b'
    · infer_instance

section

variable {inner operand : Parser Expr} [each : Local Always inner] [Local Always operand]

instance (close : TokenKind) : Local Settled (separated inner close) := by
  have : Local Settled (look fun s => s.kind = close || s.atEnd) := .of_look fun _ _ => rfl
  have (items : Array Expr) : Local Settled (separatedRound inner close items) := by
    unfold separatedRound
    dsimp only
    infer_instance
  unfold separated
  infer_instance

instance (op? : TokenKind → Option BinOp) : Local Always (chain op? operand) := by
  have (left : Expr) : Local Settled (chainRound op? operand left) := by
    apply Local.of_kind
    intro k
    split <;> infer_instance
  unfold chain
  infer_instance

instance : Local Always (comparison operand) := by
  refine @Local.bind _ _ _ _ _ inferInstance fun left => .of_kind fun k => ?_
  split <;> infer_instance

instance : Local Always (primary inner) := by
  refine .of_here fun start => .of_kind_always ?_ inferInstance
  rintro (_ | _) <;> infer_instance

instance (e : Expr) : Local Settled (suffix inner e) := by
  apply Local.of_kind
  intro k
  cases k with
  | lParen => cases e with | _ => infer_instance
  | _ => infer_instance

instance : Local Always (unaryWith operand inner) := by
  refine .of_kind_always (fun k => ?_) (inferInstanceAs (Local _ (primary inner >>= iterate (suffix inner))))
  cases unaryOp? k with
  | _ => infer_instance

instance : Local Always (nested inner) where
  answers s last report start := by
    let deeper := { s with depth := s.depth + 1 }
    unfold nested
    dsimp only
    split
    · exact .mistake _ last rfl
    · have answers := each.answers deeper last report start
      generalize inner deeper = x, inner { deeper with last, report } = y at answers
      cases answers with
      | value a same => exact .value a same
      | mistake d last told => exact .mistake d last told

end

instance local_unaryWithin : ∀ room, Local Always (unaryWithin room)
  | 0 => inferInstanceAs (Local _ (refuse _ _))
  | room + 1 => by
    have := local_unaryWithin room
    exact inferInstanceAs (Local _ (unaryWith (nested (unaryWithin room)) (nested (comparison (unaryWithin room)))))

/-- An expression leaves the depth as it was. In a state that differs only in its report and in the last token, it
yields the same value or is refused with the same mistake. -/
theorem expression_local (s : State) : (expression s).2.depth = s.depth ∧
    ∀ last report, Answers s.report report (expression s) (expression { s with last, report }) := by
  have : Local Always expression := inferInstanceAs (Local _ (nested (comparison (unaryWithin maxNesting))))
  exact ⟨(expression.reaches s).depth, fun last report => this.answers s last report trivial⟩

end RegisterLang.Parser
