import RegisterLang.Proofs.Grammar
import RegisterLang.Ast.Parser.Program

/-! # Parsing ends

A round of a loop that asks for more has read a token, so a loop goes on as long as its rounds ask for it: its bound is
never met. The same holds of blocks and conditionals inside of each other, each of which has read a token. Main
statement: `parsing_ends`.
-/

namespace RegisterLang.Parser

variable {α β : Type} {p q : Parser α} {f g : α → Parser β} {s s' : State} {k : TokenKind}

theorem State.rest_of_kind (inner : s.kind ≠ .eof) : s.rest = s.next :: s.advance.rest := by
  unfold State.kind State.next at inner
  unfold State.next State.advance
  cases here : s.rest with
  | nil =>
    rw [here] at inner
    exact absurd rfl inner
  | cons token rest => rfl

/-- Nothing is put back. -/
theorem length_le (p : Parser α) (s : State) : (p s).2.rest.length ≤ s.rest.length :=
  (p.reaches s).rest.length_le

/-! ## Reading at least one token -/

/-- At least one token is read. -/
def Moves (p : Parser α) (s : State) : Prop :=
  (p s).2.rest.length < s.rest.length

variable {round : β → Parser (Loop β)}

namespace Moves

theorem advance (inner : s.kind ≠ .eof) : Moves Parser.advance s := by
  unfold Moves
  rw [State.rest_of_kind inner]
  exact Nat.lt_succ_self _

theorem bind (moves : Moves p s) : Moves (p >>= f) s := by
  unfold Moves at moves ⊢
  rcases ran : p s with ⟨_ | a, s'⟩
  · rw [bind_of_eq_none ran]
    rwa [ran] at moves
  · rw [bind_of_eq_some ran]
    rw [ran] at moves
    exact Nat.lt_of_le_of_lt (length_le (f a) s') moves

theorem look {h : State → α} (moves : Moves (f (h s)) s) : Moves (Parser.look h >>= f) s :=
  moves

theorem complain {f : Unit → Parser β} {code : Code} {message : String} {span : Span}
    (moves : Moves (f ()) (s.complain code message span)) : Moves (complainAt code message span >>= f) s :=
  moves

theorem discard (inner : s.kind ≠ .eof) : Moves (Functor.discard Parser.advance) s :=
  bind (advance inner)

theorem expect (here : s.kind = k) (inner : k ≠ .eof) : Moves (Parser.expect k) s := by
  apply look
  rw [if_pos here]
  exact discard (here ▸ inner)

theorem iterate {b : β} (moves : Moves (round b) s) : Moves (Parser.iterate round b) s :=
  look (bind moves)

end Moves

/-- A value costs at least one token. -/
def Costs (p : Parser α) : Prop :=
  ∀ s, (p s).1.isSome → Moves p s

namespace Costs

theorem expect (inner : k ≠ .eof) : Costs (Parser.expect k) := by
  intro s value
  by_cases here : s.kind = k
  · exact .expect here inner
  · change ((if s.kind = k then _ else _ : Parser Unit) s).1.isSome = true at value
    rw [if_neg here] at value
    cases value

theorem first (costs : Costs p) : Costs (p >>= f) := by
  intro s value
  apply Moves.bind
  apply costs
  rcases ran : p s with ⟨_ | a, s'⟩
  · rw [bind_of_eq_none ran] at value
    cases value
  · rfl

theorem second (costs : ∀ a, Costs (f a)) : Costs (p >>= f) := by
  intro s value
  have before := length_le p s
  unfold Moves
  rcases ran : p s with ⟨_ | a, s'⟩
  · rw [bind_of_eq_none ran] at value
    cases value
  · rw [bind_of_eq_some ran] at value ⊢
    rw [ran] at before
    exact Nat.lt_of_lt_of_le (costs a s' value) before

end Costs

/-! ## Loops -/

/-- A round from a state is the last one and changes nothing, or it reads a token and asks for more. -/
def Proceeds (round : β → Parser (Loop β)) (s : State) : Prop :=
  ∀ b, round b s = (some (.done b), s) ∨
    ∃ b' s', round b s = (some (.again b'), s') ∧ s'.rest.length < s.rest.length

theorem iterate_of_done {b : β} (done : round b s = (some (.done b), s)) : iterate round b s = (some b, s) :=
  bind_of_eq_some done

/-- A loop is not cut short by its bound: it has a last round. -/
theorem Proceeds.exists_done (proceeds : ∀ s, Proceeds round s) (b : β) (s : State) :
    ∃ b' s', iterate round b s = (some b', s') ∧ round b' s' = (some (.done b'), s') := by
  suffices within : ∀ bound b s, s.rest.length < bound.length →
      ∃ b' s', iterateWithin round bound b s = (some b', s') ∧ round b' s' = (some (.done b'), s') from
    within (s.next :: s.rest) b s (Nat.lt_succ_self _)
  intro bound
  induction bound with
  | nil => exact fun b s few => absurd few (Nat.not_lt_zero _)
  | cons token bound ih =>
    intro b s few
    rcases proceeds s b with done | ⟨b', s', again, shorter⟩
    · exact ⟨b, s, bind_of_eq_some done, done⟩
    · rw [iterateWithin, bind_of_eq_some again]
      exact ih b' s' (Nat.lt_of_lt_of_le shorter (Nat.le_of_lt_succ few))

section

variable {stop : State → Bool} {item : Parser α} {skip : Parser Unit} {items : Array α}

theorem gatherRound_stops (stops : stop s = true) : gatherRound stop item skip items s = (some (.done items), s) := by
  change (ite (stop s = true) _ _ : Parser (Loop (Array α))) s = _
  rw [if_pos stops]
  rfl

theorem gatherRound_some {a : α} (goes : stop s = false) (ran : item s = (some a, s')) :
    gatherRound stop item skip items s = (some (.again (items.push a)), s') := by
  change (ite (stop s = true) _ _ : Parser (Loop (Array α))) s = _
  rw [if_neg (Bool.eq_false_iff.1 goes)]
  simp only [Bind.bind, attempt, ran]
  rfl

theorem gatherRound_none (goes : stop s = false) (ran : item s = (none, s')) :
    gatherRound stop item skip items s = (skip >>= fun _ => pure (.again items) : Parser (Loop (Array α))) s' := by
  change (ite (stop s = true) _ _ : Parser (Loop (Array α))) s = _
  rw [if_neg (Bool.eq_false_iff.1 goes)]
  simp only [Bind.bind, attempt, ran]

theorem moves_gatherRound (goes : stop s = false) (moves : Moves item s) :
    Moves (gatherRound stop item skip items) s := by
  unfold Moves at moves ⊢
  rcases ran : item s with ⟨_ | a, s'⟩
  · rw [ran] at moves
    rw [gatherRound_none goes ran]
    exact Nat.lt_of_le_of_lt (length_le _ s') moves
  · rw [gatherRound_some goes ran]
    rwa [ran] at moves

variable (skips : ∀ s, (skip s).1 = some ())

include skips

/-- A round that gathers goes on only when it has read something. -/
theorem proceeds_gatherRound (moves : stop s = false → ∀ items, Moves (gatherRound stop item skip items) s) :
    Proceeds (gatherRound stop item skip) s := by
  intro items
  cases goes : stop s with
  | true => exact .inl (gatherRound_stops goes)
  | false =>
    have moved := moves goes items
    rcases ran : item s with ⟨_ | a, s'⟩
    · rw [Moves, gatherRound_none goes ran, bind_of_eq_some (Prod.ext (skips s') rfl)] at moved
      rw [gatherRound_none goes ran, bind_of_eq_some (Prod.ext (skips s') rfl)]
      exact .inr ⟨items, _, rfl, moved⟩
    · rw [Moves, gatherRound_some goes ran] at moved
      rw [gatherRound_some goes ran]
      exact .inr ⟨_, s', rfl, moved⟩

/-- Items are gathered up to where the end is. -/
theorem exists_gather (moves : ∀ s, stop s = false → ∀ items, Moves (gatherRound stop item skip items) s) (s : State) :
    ∃ as s', gather stop item skip s = (some as, s') ∧ stop s' = true := by
  obtain ⟨items, s', ran, last⟩ := Proceeds.exists_done (fun s => proceeds_gatherRound skips (moves s)) #[] s
  refine ⟨_, s', bind_of_eq_some ran, ?_⟩
  cases goes : stop s' with
  | true => rfl
  | false =>
    have moved := moves s' goes items
    rw [Moves, last] at moved
    exact absurd moved (Nat.lt_irrefl _)

end

/-! ## Items -/

theorem attributes_of_ne (other : s.kind ≠ .atSign) : attributes s = (some none, s) := by
  apply iterate_of_done
  change (ite (decide (s.kind = .atSign) = true) _ _ : Parser (Loop (Option Linkage))) s = _
  rw [decide_eq_false other]
  rfl

theorem moves_varDecl (here : s.kind = .kwVar) : Moves varDecl s :=
  .look (.bind (.expect here nofun))

theorem moves_item (inner : s.kind ≠ .eof) : Moves item s := by
  by_cases attributed : s.kind = .atSign
  · have first : Moves (attributeRound none) s := by
      apply Moves.look
      rw [if_pos (decide_eq_true attributed)]
      exact .bind (.bind (.advance inner))
    exact .bind (.iterate first)
  · have unattributed : item s = _ := bind_of_eq_some (attributes_of_ne attributed)
    unfold Moves
    rw [unattributed]
    apply Moves.look
    cases here : s.kind with
    | kwFn => exact .bind (.look (.bind (.expect here nofun)))
    | kwVar => exact .bind (moves_varDecl here)
    | kwConst => exact .bind (.look (.bind (.expect here nofun)))
    | eof => exact absurd here inner
    | _ => exact .look (.complain (.bind (.discard inner)))

/-! ## Statements -/

/-- A round of reading the items of a program. -/
def itemRound : Array Item → Parser (Loop (Array Item)) :=
  gatherRound (fun s => s.atEnd || s.report.atLimit) item skipItem

/-- A round of reading the statements of a block. -/
def statementRound (statement : Parser Stmt) : Array Stmt → Parser (Loop (Array Stmt)) :=
  gatherRound (fun s => s.kind = .rBrace || s.atEnd || s.report.atLimit) statement skipStatement

theorem moves_skipStatement (inner : s.kind ≠ .eof)
    (other : s.kind ∉ [.kwVar, .kwReturn, .kwIf, .lBrace, .rBrace]) : Moves skipStatement s := by
  refine Moves.bind (p := attempt (iterate skipStatementRound ())) (Moves.iterate ?_)
  apply Moves.look
  cases here : s.kind with
  | eof => exact absurd here inner
  | kwVar | kwReturn | kwIf | lBrace | rBrace => simp [here] at other
  | _ => exact .bind (.discard inner)

theorem costs_exprOrAssign : Costs exprOrAssign := by
  apply Costs.second
  intro e
  apply Costs.second
  intro assigns
  split
  · exact .second fun value => .first (.expect nofun)
  · exact .first (.expect nofun)

section

variable {block : Parser Block} {conditional : Parser Conditional}
  (opens : s.kind = .lBrace → Moves block s) (branches : s.kind = .kwIf → Moves conditional s)

include opens branches

/-- A statement reads a token, or it is an expression that cannot be read. -/
theorem statementWith_moves : Moves (statementWith block conditional) s ∨
    (statementWith block conditional s).1 = none ∧ s.kind ∉ [.kwVar, .kwReturn, .kwIf, .lBrace] := by
  have unfolded : statementWith block conditional s = _ := bind_of_eq_some (rfl : kind s = (some s.kind, s))
  unfold Moves
  rw [unfolded]
  cases here : s.kind with
  | kwVar => exact .inl (Moves.bind (moves_varDecl here))
  | kwReturn => exact .inl (Moves.bind (.advance (here ▸ nofun)))
  | kwIf => exact .inl (Moves.bind (branches here))
  | lBrace => exact .inl (Moves.bind (opens here))
  | _ =>
    rcases Option.eq_none_or_eq_some (exprOrAssign s).1 with none | ⟨stmt, value⟩
    · exact .inr ⟨none, by simp⟩
    · exact .inl (costs_exprOrAssign s (by rw [value]; rfl))

/-- A statement that cannot be read is skipped past at least one token. -/
theorem moves_statementRound (goes : (s.kind = .rBrace || s.atEnd || s.report.atLimit) = false) (stmts : Array Stmt) :
    Moves (statementRound (statementWith block conditional) stmts) s := by
  by_cases moved : Moves (statementWith block conditional) s
  · exact moves_gatherRound goes moved
  obtain ⟨none, other⟩ := (statementWith_moves opens branches).resolve_left moved
  have suffix := ((statementWith block conditional).reaches s).rest
  have same := suffix.eq_of_length (Nat.le_antisymm suffix.length_le (Nat.not_lt.1 moved))
  rcases ran : statementWith block conditional s with ⟨_ | stmt, s'⟩
  · rw [ran] at same
    have kind : s'.kind = s.kind := by
      unfold State.kind State.next
      rw [same]
      cases s.rest with
      | _ => rfl
    unfold Moves
    rw [statementRound, gatherRound_none goes ran, ← same]
    simp only [Bool.or_eq_false_iff, State.atEnd, decide_eq_false_iff_not, ← kind] at goes other
    exact Moves.bind (moves_skipStatement goes.1.2 (by simp_all))
  · rw [ran] at none
    cases none

end

theorem moves_itemRound (s : State) (goes : (s.atEnd || s.report.atLimit) = false) (items : Array Item) :
    Moves (itemRound items) s := by
  apply moves_gatherRound goes
  apply moves_item
  simp only [Bool.or_eq_false_iff, State.atEnd, decide_eq_false_iff_not] at goes
  exact goes.1

/-- A program is read up to the end of the tokens, or until there are too many mistakes. -/
theorem exists_program (s : State) :
    ∃ p s', program s = (some p, s') ∧ (s'.atEnd || s'.report.atLimit) = true := by
  obtain ⟨items, s', gathered, stops⟩ := exists_gather (fun _ => rfl) moves_itemRound s
  exact ⟨_, s', bind_of_eq_some gathered, stops⟩

theorem proceeds_statementRound (n : Nat) (s : State) :
    Proceeds (statementRound (statementWith (blockWithin (n + 1)) (chainWithin (n + 1)))) s := by
  apply proceeds_gatherRound fun _ => rfl
  apply moves_statementRound
  · intro here
    change Moves (blockWith _) s
    exact .look (.bind (.expect here nofun))
  · intro here
    change Moves (conditionalWith _ _) s
    exact .bind (.advance (here ▸ nofun))

/-! ## No bound is met -/

/-- What the rounds of a loop come to, up to the first one that does not ask for more. -/
inductive Rounds (round : β → Parser (Loop β)) : β → State → Option β × State → Prop where
  | fails {b : β} {s s' : State} (ran : round b s = (none, s')) : Rounds round b s (none, s')
  | done {b b' : β} {s s' : State} (ran : round b s = (some (.done b'), s')) : Rounds round b s (some b', s')
  | again {b b' : β} {s s' : State} {out : Option β × State} (ran : round b s = (some (.again b'), s'))
      (rest : Rounds round b' s' out) : Rounds round b s out

/-- A loop with these rounds is never cut short by its bound: it comes to what its rounds come to. -/
def Ends (round : β → Parser (Loop β)) : Prop :=
  ∀ b s, Rounds round b s (iterate round b s)

/-- A round that asks for more has read a token. -/
class Asks (p : Parser (Loop β)) : Prop where
  reads : ∀ s b s', p s = (some (.again b), s') → s'.rest.length < s.rest.length

/-- Rounds that read when they ask for more are never cut short. -/
theorem ends [asks : ∀ b, Asks (round b)] : Ends round := by
  suffices within : ∀ bound b s, s.rest.length < bound.length → Rounds round b s (iterateWithin round bound b s) from
    fun b s => within (s.next :: s.rest) b s (Nat.lt_succ_self _)
  intro bound
  induction bound with
  | nil => exact fun b s few => absurd few (Nat.not_lt_zero _)
  | cons token bound ih =>
    intro b s few
    rcases ran : round b s with ⟨_ | (b' | b'), s'⟩
    · rw [iterateWithin, bind_of_eq_none ran]
      exact .fails ran
    · have shorter := (asks b).reads s b' s' ran
      rw [iterateWithin, bind_of_eq_some ran]
      exact .again ran (ih b' s' (Nat.lt_of_lt_of_le shorter (Nat.le_of_lt_succ few)))
    · rw [iterateWithin, bind_of_eq_some ran]
      exact .done ran

namespace Asks

instance (b : β) : Asks (pure (.done b) : Parser (Loop β)) := ⟨by rintro s _ _ ⟨⟩⟩

instance (code : Code) (message : String) : Asks (refuse code message : Parser (Loop β)) := ⟨by rintro s _ _ ⟨⟩⟩

instance bind {f : α → Parser (Loop β)} [rest : ∀ a, Asks (f a)] : Asks (p >>= f) where
  reads s b s'' ran := by
    have before := length_le p s
    rcases ran' : p s with ⟨_ | a, s'⟩
    · rw [bind_of_eq_none ran'] at ran
      cases ran
    · rw [bind_of_eq_some ran'] at ran
      rw [ran'] at before
      exact Nat.lt_of_lt_of_le ((rest a).reads s' b s'' ran) before

instance {test : Prop} [Decidable test] {p q : Parser (Loop β)} [Asks p] [Asks q] : Asks (if test then p else q) := by
  split <;> infer_instance

theorem of_look {h : State → α} {f : α → Parser (Loop β)} (each : ∀ s, Moves (f (h s)) s ∨ Asks (f (h s))) :
    Asks (look h >>= f) where
  reads s b s' ran := by
    change f (h s) s = _ at ran
    rcases each s with moves | asks
    · rwa [Moves, ran] at moves
    · exact asks.reads s b s' ran

theorem of_eat (inner : k ≠ .eof) (b b' : β) :
    Asks (eat k >>= fun found => if found then pure (.again b) else pure (.done b')) where
  reads s b'' s' ran := by
    by_cases here : s.kind = k
    · have eaten : eat k s = (some true, s.advance) := eat_of_kind here
      rw [bind_of_eq_some eaten] at ran
      cases ran
      exact Moves.advance (here ▸ inner)
    · rw [bind_of_eq_some (eat_of_ne here)] at ran
      cases ran

theorem of_proceeds (proceeds : ∀ s, Proceeds round s) (b : β) : Asks (round b) where
  reads s b' s' ran := by
    rcases proceeds s b with done | ⟨b'', s'', again, shorter⟩
    · cases done.symm.trans ran
    · cases again.symm.trans ran
      exact shorter

end Asks

instance (ty : Ty) : Asks (starRound ty) :=
  .of_eat (k := .star) (by simp) ty.pointerTo ty

instance (item : Parser α) (close : TokenKind) (items : Array α) : Asks (separatedRound item close items) := by
  have comma (items : Array α) := Asks.of_eat (k := .comma) (by simp) items items
  unfold separatedRound
  infer_instance

theorem asks_chainRound {op? : TokenKind → Option BinOp} (none : op? .eof = none) (operand : Parser Expr)
    (left : Expr) : Asks (chainRound op? operand left) := by
  refine .of_look fun s => ?_
  cases found : op? s.kind with
  | none => exact .inr inferInstance
  | some op =>
    have inner : s.kind ≠ .eof := by
      intro same
      rw [same, none] at found
      cases found
    exact .inl (.bind (.discard inner))

instance (inner : Parser Expr) (e : Expr) : Asks (suffix inner e) := by
  refine .of_look fun s => ?_
  cases here : s.kind with
  | lBracket | dot => exact .inl (.bind (.discard (by simp [here])))
  | lParen =>
    cases e with
    | name callee span => exact .inl (.bind (.discard (by simp [here])))
    | _ => exact .inr inferInstance
  | _ => exact .inr inferInstance

instance (depth : Nat) : Asks (skipItemRound depth) := by
  refine .of_look fun s => ?_
  cases here : s.kind with
  | eof => exact .inr inferInstance
  | kwFn | kwVar | kwConst | atSign =>
    dsimp only
    split
    · exact .inr inferInstance
    · exact .inl (.bind (.discard (by simp [here])))
  | _ => exact .inl (.bind (.discard (by simp [here])))

instance (u : Unit) : Asks (skipStatementRound u) := by
  refine .of_look fun s => ?_
  cases here : s.kind with
  | eof | kwVar | kwReturn | kwIf | lBrace | rBrace => exact .inr inferInstance
  | _ => exact .inl (.bind (.discard (by simp [here])))

instance (earlier : Option Linkage) : Asks (attributeRound earlier) := by
  refine .of_look fun s => ?_
  by_cases here : s.kind = .atSign
  · rw [if_pos (decide_eq_true here)]
    exact .inl (.bind (.bind (.advance (by simp [here]))))
  · rw [decide_eq_false here, if_neg Bool.false_ne_true]
    exact .inr inferInstance

/-! ## Blocks inside of each other -/

theorem bind_congr_at (same : p s = q s) (next : ∀ a s', q s = (some a, s') → f a s' = g a s') :
    (p >>= f) s = (q >>= g) s := by
  rcases ran : q s with ⟨_ | a, s'⟩
  · rw [bind_of_eq_none (same.trans ran), bind_of_eq_none ran]
  · rw [bind_of_eq_some (same.trans ran), bind_of_eq_some ran]
    exact next a s' ran

/-- Two parsers do the same where fewer than `n` tokens are to come. -/
def Below (n : Nat) (p q : Parser α) : Prop :=
  ∀ s, s.rest.length < n → p s = q s

namespace Below

variable {n : Nat}

theorem refl (p : Parser α) : Below n p p :=
  fun _ _ => rfl

theorem bind (first : Below n p q) (second : ∀ a, Below n (f a) (g a)) : Below n (p >>= f) (q >>= g) := by
  intro s few
  apply bind_congr_at (first s few)
  intro a s' ran
  have fewer := length_le q s
  rw [ran] at fewer
  exact second a s' (Nat.lt_of_le_of_lt fewer few)

theorem iterateWithin {round round' : β → Parser (Loop β)} (each : ∀ b, Below n (round b) (round' b))
    (bound : List Token) (b : β) :
    Below n (Parser.iterateWithin round bound b) (Parser.iterateWithin round' bound b) := by
  induction bound generalizing b with
  | nil => exact .refl _
  | cons token bound ih =>
    apply (each b).bind
    intro l
    cases l with
    | again b' => exact ih b'
    | done b' => exact .refl _

theorem gather {stop : State → Bool} {item item' : Parser α} {skip : Parser Unit} (each : Below n item item') :
    Below n (Parser.gather stop item skip) (Parser.gather stop item' skip) := by
  have round (items : Array α) : Below n (gatherRound stop item skip items) (gatherRound stop item' skip items) := by
    apply (refl _).bind
    intro stops
    split
    · exact .refl _
    · have tried : Below n (attempt item) (attempt item') := fun s few => by simp only [attempt, each s few]
      exact tried.bind fun _ => .refl _
  exact .bind (.bind (.refl _) fun bound => iterateWithin round bound #[]) fun _ => .refl _

/-- A block reads a brace first, so what nests in it has fewer tokens. -/
theorem blockWith {statement statement' : Parser Stmt} (each : Below n statement statement') :
    Below (n + 1) (Parser.blockWith statement) (Parser.blockWith statement') := by
  refine .bind (.refl _) fun start s few => bind_congr_at rfl fun _ s' ran => ?_
  have moves := Costs.expect (k := .lBrace) (by simp) s (by rw [ran]; rfl)
  rw [Moves, ran] at moves
  exact Below.bind each.gather (fun _ => .refl _) s' (Nat.lt_of_lt_of_le moves (Nat.le_of_lt_succ few))

variable {block block' : Parser Block} {chain chain' : Parser Conditional} (blocks : Below n block block')
  (chains : ∀ s, s.kind ≠ .eof → s.rest.length < n → chain s = chain' s)

include blocks chains

theorem statementWith : Below n (Parser.statementWith block chain) (Parser.statementWith block' chain') := by
  intro s few
  apply bind_congr_at rfl
  rintro _ _ ⟨⟩
  cases here : s.kind with
  | kwIf => exact bind_congr_at (chains s (by simp [here]) few) fun _ _ _ => rfl
  | lBrace => exact bind_congr_at (blocks s few) fun _ _ _ => rfl
  | _ => rfl

/-- A conditional reads a word first, so what nests in it has fewer tokens. -/
theorem conditionalWith (inner : s.kind ≠ .eof) (few : s.rest.length < n + 1) :
    Parser.conditionalWith block chain s = Parser.conditionalWith block' chain' s := by
  apply bind_congr_at rfl
  intro token s' ran
  have moves := Moves.advance inner
  rw [Moves, ran] at moves
  have rest := Nat.lt_of_lt_of_le moves (Nat.le_of_lt_succ few)
  refine Below.bind (n := n) (.refl expression) (fun cond => blocks.bind fun body => ?_) s' rest
  intro s few
  apply bind_congr_at rfl
  rintro _ _ ⟨⟩
  split
  · next found =>
    have same := chains s (by simp [of_decide_eq_true found]) few
    exact bind_congr_at (bind_congr_at same fun _ _ _ => rfl) fun _ _ _ => rfl
  · refine Below.bind (n := n) (.refl _) (fun found => ?_) s few
    split
    · apply Below.bind (.refl _)
      intro nested
      split
      · exact .bind (.refl _) fun _ => .bind (.bind blocks fun _ => .refl _) fun _ => .refl _
      · exact .bind (.bind blocks fun _ => .refl _) fun _ => .refl _
    · exact .refl _

end Below

/-- Blocks and conditionals that nest in each other, with given ones as the innermost. -/
def nestedFrom (block : Parser Block) (chain : Parser Conditional) : Nat → Parser Block × Parser Conditional
  | 0 => (block, chain)
  | n + 1 =>
    let (block, chain) := nestedFrom block chain n
    (blockWith (statementWith block chain), conditionalWith block chain)

/-- Blocks and conditionals nest in each other only as deep as there are tokens to come. -/
theorem below_nestedFrom (block : Parser Block) (chain : Parser Conditional) (n : Nat) :
    Below n (nestedFrom block chain n).1 (blockWithin n) ∧ ∀ s, s.kind ≠ .eof → s.rest.length < n →
      (nestedFrom block chain n).2 s = chainWithin n s := by
  induction n with
  | zero => exact ⟨fun _ few => absurd few (Nat.not_lt_zero _), fun _ _ few => absurd few (Nat.not_lt_zero _)⟩
  | succ n ih =>
    obtain ⟨blocks, chains⟩ := ih
    exact ⟨.blockWith (.statementWith blocks chains), fun _ => Below.conditionalWith blocks chains⟩

/-- Parsing always ends with a program. Every round of reading items, and every round of reading the statements of a
block, is the last one or reads a token. No loop is cut short by its bound, be it one of these, one that skips to the
next item or statement, or one in an item, a type or an expression. Neither are blocks and conditionals: whatever
stands in the place of the innermost, they come out the same, for the bound leaves more room than there are tokens. -/
theorem parsing_ends :
    (∀ s, ∃ p s', program s = (some p, s') ∧ (s'.atEnd || s'.report.atLimit) = true) ∧
    (∀ s, Proceeds itemRound s) ∧
    (∀ n s, Proceeds (statementRound (statementWith (blockWithin (n + 1)) (chainWithin (n + 1)))) s) ∧
    (Ends itemRound ∧ (∀ n, Ends (statementRound (statementWith (blockWithin (n + 1)) (chainWithin (n + 1))))) ∧
      Ends skipItemRound ∧ Ends skipStatementRound ∧ Ends attributeRound ∧ Ends starRound ∧
      (∀ α (item : Parser α) close, Ends (separatedRound item close)) ∧
      ∀ inner, Ends (suffix inner) ∧ Ends (chainRound sumOp? inner) ∧ Ends (chainRound productOp? inner)) ∧
    ∀ block chain n s, s.rest.length < n → (nestedFrom block chain n).1 s = blockWithin n s ∧
      (s.kind ≠ .eof → (nestedFrom block chain n).2 s = chainWithin n s) := by
  have items (s : State) : Proceeds itemRound s := proceeds_gatherRound (fun _ => rfl) (moves_itemRound s)
  have asks := Asks.of_proceeds items
  refine ⟨exists_program, items, proceeds_statementRound, ⟨ends, fun n => ?_, ends, ends, ends, ends,
    fun α item close => ends, fun inner => ⟨ends, ?_, ?_⟩⟩, fun block chain n s few => ?_⟩
  · have asks := Asks.of_proceeds (proceeds_statementRound n)
    exact ends
  · exact @ends _ _ (asks_chainRound rfl inner)
  · exact @ends _ _ (asks_chainRound rfl inner)
  · obtain ⟨blocks, chains⟩ := below_nestedFrom block chain n
    exact ⟨blocks s few, fun inner => chains s inner few⟩

end RegisterLang.Parser
