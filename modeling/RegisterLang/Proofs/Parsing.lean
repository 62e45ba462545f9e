import RegisterLang.Ast.Parser.Program
import RegisterLang.Proofs.Grammar

/-! # What parsers read

A parser reads a list of tokens when it yields a value, reports nothing and stands right behind them. What
comes next matters, since it may belong to the same phrase. A loop is opened from two sides: from the front,
round by round, and from the back, where everything before has been read into one value. Main statement:
`reads_expression`, that expressions are read as they are written.
-/

namespace RegisterLang.Parser

open List

variable {α β γ δ : Type} {span : Span} {d : Nat}

/-- The kind of the first of some tokens. -/
def nextKind (rest : List Token) : TokenKind :=
  (rest.head?.map Token.kind).getD .eof

/-- Nothing was reported so far, and at the given depth tokens of the given kinds come before `rest`. -/
structure State.Before (s : State) (d : Nat) (kinds : List TokenKind) (rest : List Token) : Prop where
  clean : s.report = .empty
  depth : s.depth = d
  ahead : ∃ tokens, s.rest = tokens ++ rest ∧ tokens.map Token.kind = kinds

namespace State.Before

variable {s : State} {k : TokenKind} {ks ks' : List TokenKind} {rest : List Token}

theorem rest_eq (before : s.Before d [] rest) : s.rest = rest := by
  obtain ⟨tokens, here, kinds⟩ := before.ahead
  rwa [map_eq_nil_iff.1 kinds, nil_append] at here

theorem length_eq (before : s.Before d ks rest) : s.rest.length = ks.length + rest.length := by
  obtain ⟨tokens, here, rfl⟩ := before.ahead
  rw [here, length_append, length_map]

theorem kind_nil (before : s.Before d [] rest) : s.kind = nextKind rest := by
  rw [← before.rest_eq, State.kind, State.next]
  cases s.rest with
  | nil | cons _ _ => rfl

theorem kind_cons (before : s.Before d (k :: ks) rest) : s.kind = k := by
  obtain ⟨tokens, here, kinds⟩ := before.ahead
  obtain ⟨token, more, rfl, rfl, -⟩ := map_eq_cons_iff.1 kinds
  rw [State.kind, State.next, here]
  rfl

theorem advance (before : s.Before d (k :: ks) rest) : s.advance.Before d ks rest := by
  obtain ⟨tokens, here, kinds⟩ := before.ahead
  obtain ⟨token, more, rfl, -, kinds⟩ := map_eq_cons_iff.1 kinds
  rw [State.advance, here]
  exact ⟨before.clean, before.depth, more, rfl, kinds⟩

theorem split (before : s.Before d (ks ++ ks') rest) :
    ∃ later, s.Before d ks (later ++ rest) ∧ later.map Token.kind = ks' := by
  obtain ⟨tokens, here, kinds⟩ := before.ahead
  obtain ⟨first, later, rfl, first_kinds, later_kinds⟩ := map_eq_append_iff.1 kinds
  exact ⟨later, ⟨before.clean, before.depth, first, by rw [here, append_assoc], first_kinds⟩, later_kinds⟩

theorem join {later : List Token} (before : s.Before d [] (later ++ rest)) : s.Before d (later.map Token.kind) rest :=
  ⟨before.clean, before.depth, later, before.rest_eq, rfl⟩

end State.Before

theorem nextKind_append (later rest : List Token) :
    nextKind (later ++ rest) = (later.map Token.kind).headD (nextKind rest) := by
  cases later with
  | nil | cons _ _ => rfl

/-- At the given depth a parser reads tokens of the given kinds when what follows them is as required, and its
value is as promised. -/
def Reads (d : Nat) (p : Parser α) (kinds : List TokenKind) (follow : TokenKind → Prop) (gives : α → Prop) : Prop :=
  ∀ s rest, s.Before d kinds rest → follow (nextKind rest) → ∃ a s', p s = (some a, s') ∧ gives a ∧ s'.Before d [] rest

/-- Whatever follows. -/
abbrev Anything (_ : TokenKind) : Prop := True

namespace Reads

variable {p : Parser α} {f : α → Parser β} {k : TokenKind} {ks ks' : List TokenKind}
  {follow follow' mid : TokenKind → Prop} {gives gives' : α → Prop} {yields : β → Prop}

theorem narrow (reads : Reads d p ks follow gives) (fewer : ∀ k, follow' k → follow k) : Reads d p ks follow' gives :=
  fun s rest before next => reads s rest before (fewer _ next)

theorem anywhere (reads : Reads d p ks Anything gives) : Reads d p ks follow gives :=
  reads.narrow fun _ _ => trivial

theorem weaken (reads : Reads d p ks follow gives) (weaker : ∀ a, gives a → gives' a) : Reads d p ks follow gives' := by
  intro s rest before next
  obtain ⟨a, s', ran, given, after⟩ := reads s rest before next
  exact ⟨a, s', ran, weaker a given, after⟩

theorem of_pure {a : α} (given : gives a) : Reads d (pure a) [] follow gives :=
  fun s _ before _ => ⟨a, s, rfl, given, before⟩

theorem bind (first : Reads d p ks mid gives) (second : ∀ a, gives a → Reads d (f a) ks' follow yields)
    (meets : ∀ k, follow k → mid (ks'.headD k)) : Reads d (p >>= f) (ks ++ ks') follow yields := by
  intro s rest before next
  obtain ⟨later, earlier, rfl⟩ := before.split
  have between : mid (nextKind (later ++ rest)) := nextKind_append later rest ▸ meets _ next
  obtain ⟨a, s', ran, given, after⟩ := first s _ earlier between
  obtain ⟨b, s'', ran', given', after'⟩ := second a given s' rest after.join next
  exact ⟨b, s'', (bind_of_eq_some ran).trans ran', given', after'⟩

theorem bind_cons (first : Reads d p [k] Anything gives)
    (second : ∀ a, gives a → Reads d (f a) ks follow yields) : Reads d (p >>= f) (k :: ks) follow yields :=
  first.bind second fun _ _ => trivial

theorem bind_nil (first : Reads d p [] mid gives) (second : ∀ a, gives a → Reads d (f a) ks follow yields)
    (meets : ∀ k, follow k → mid (ks.headD k)) : Reads d (p >>= f) ks follow yields :=
  first.bind second meets

theorem bind_end (first : Reads d p ks follow gives)
    (second : ∀ a, gives a → Reads d (f a) [] follow yields) : Reads d (p >>= f) ks follow yields :=
  append_nil ks ▸ first.bind second fun _ next => next

theorem bind_look {g : State → α} {a : α} (value : ∀ s rest, s.Before d ks rest → follow (nextKind rest) → g s = a)
    (second : Reads d (f a) ks follow yields) : Reads d (look g >>= f) ks follow yields := by
  intro s rest before next
  obtain ⟨b, s', ran, given, after⟩ := second s rest before next
  refine ⟨b, s', ?_, given, after⟩
  rw [← value s rest before next] at ran
  exact ran

theorem bind_kind_cons {f : TokenKind → Parser β} (second : Reads d (f k) (k :: ks) follow yields) :
    Reads d (kind >>= f) (k :: ks) follow yields :=
  .bind_look (fun _ _ before _ => before.kind_cons) second

theorem bind_kind_nil {f : TokenKind → Parser β}
    (second : ∀ k, follow k → Reads d (f k) [] follow yields) : Reads d (kind >>= f) [] follow yields := by
  intro s rest before next
  have ran := second _ next s rest before next
  rw [← before.kind_nil] at ran
  exact ran

theorem bind_check_cons {f : Bool → Parser β} {other : TokenKind}
    (second : Reads d (f (k = other)) (k :: ks) follow yields) : Reads d (check other >>= f) (k :: ks) follow yields :=
  .bind_look (fun _ _ before _ => by rw [before.kind_cons]) second

theorem bind_check_nil {f : Bool → Parser β} {other : TokenKind} (differs : ∀ k, follow k → k ≠ other)
    (second : Reads d (f false) [] follow yields) : Reads d (check other >>= f) [] follow yields :=
  .bind_look (fun _ _ before next => decide_eq_false (before.kind_nil ▸ differs _ next)) second

/-- A phrase that has one of two forms, where what comes after it stands in both branches. -/
theorem bind_if {test : Parser Bool} {q : Parser α} (first : Reads d (do if ← test then p else q) ks mid gives)
    (second : ∀ a, gives a → Reads d (f a) ks' follow yields) (meets : ∀ k, follow k → mid (ks'.headD k)) :
    Reads d (do if ← test then p >>= f else q >>= f) (ks ++ ks') follow yields := by
  have joined : (do if ← test then p >>= f else q >>= f) = ((do if ← test then p else q) >>= f) := by
    apply Parser.ext
    funext s
    simp only [Bind.bind]
    rcases test s with ⟨_ | (_ | _), s'⟩
    · rfl
    · rfl
    · rfl
  rw [joined]
  exact first.bind second meets

theorem of_not {test : Prop} [Decidable test] {q : Parser α} (fails : ¬ test) (reads : Reads d q ks follow gives) :
    Reads d (if test then p else q) ks follow gives := by
  rwa [if_neg fails]

theorem map {f : α → β} (reads : Reads d p ks follow gives) (given : ∀ a, gives a → yields (f a)) :
    Reads d (f <$> p) ks follow yields :=
  reads.bind_end fun a here => .of_pure (given a here)

theorem discard (reads : Reads d p ks follow gives) : Reads d (Functor.discard p) ks follow fun _ => True :=
  reads.bind_end fun _ _ => .of_pure trivial

theorem attempt (reads : Reads d p ks follow gives) :
    Reads d (Parser.attempt p) ks follow fun a? => ∃ a, a? = some a ∧ gives a := by
  intro s rest before next
  obtain ⟨a, s', ran, given, after⟩ := reads s rest before next
  refine ⟨some a, s', ?_, ⟨a, rfl, given⟩, after⟩
  simp only [Parser.attempt, ran]

end Reads

/-! ## Single tokens -/

section

variable (k : TokenKind)

theorem reads_advance : Reads d advance [k] Anything fun _ => True :=
  fun s _ before _ => ⟨s.next, s.advance, rfl, trivial, before.advance⟩

theorem reads_expect : Reads d (expect k) [k] Anything fun _ => True := by
  apply Reads.bind_kind_cons
  rw [if_pos rfl]
  exact (reads_advance k).discard

theorem reads_eat : Reads d (eat k) [k] Anything (· = true) := by
  apply Reads.bind_check_cons
  rw [decide_eq_true rfl]
  exact (reads_advance k).discard.bind_end fun _ _ => .of_pure rfl

theorem reads_eat_other : Reads d (eat k) [] (· ≠ k) (· = false) :=
  .bind_check_nil (fun _ => id) (.of_pure rfl)

theorem reads_ident (name : String) : Reads d ident [.identifier name] Anything (·.name = name) :=
  .bind_kind_cons ((reads_advance _).bind_end fun _ _ => .of_pure rfl)

theorem reads_stringLit (text : String) : Reads d stringLit [.stringLit text] Anything (· = text) :=
  .bind_kind_cons ((reads_advance _).discard.bind_end fun _ _ => .of_pure rfl)

end

namespace Reads

variable {k : TokenKind} {ks : List TokenKind} {follow : TokenKind → Prop} {gives : α → Prop}
  {yields : β → Prop} {g : State → Span}

theorem bind_span {f : Span → Parser β} (second : ∀ span, Reads d (f span) ks follow yields) :
    Reads d (look g >>= f) ks follow yields :=
  fun s rest before next => second (g s) s rest before next

theorem of_span {f : Span → α} (given : ∀ span, gives (f span)) :
    Reads d (look g >>= fun span => pure (f span)) [] follow gives :=
  bind_span fun span => of_pure (given span)

theorem bind_advance {f : Token → Parser β} (second : ∀ token, Reads d (f token) ks follow yields) :
    Reads d (Parser.advance >>= f) (k :: ks) follow yields :=
  bind_cons (reads_advance k) fun token _ => second token

theorem bind_discard {f : Unit → Parser β} (second : Reads d (f ()) ks follow yields) :
    Reads d (Functor.discard Parser.advance >>= f) (k :: ks) follow yields :=
  bind_cons (reads_advance k).discard fun _ _ => second

theorem bind_expect {f : Unit → Parser β} (second : Reads d (f ()) ks follow yields) :
    Reads d (expect k >>= f) (k :: ks) follow yields :=
  bind_cons (reads_expect k) fun _ _ => second

theorem bind_eat {f : Bool → Parser β} (second : Reads d (f true) ks follow yields) :
    Reads d (eat k >>= f) (k :: ks) follow yields :=
  bind_cons (reads_eat k) fun _ found => found ▸ second

theorem bind_eat_other {f : Bool → Parser β} (second : Reads d (f false) ks follow yields)
    (differs : ∀ k', follow k' → ks.headD k' ≠ k) : Reads d (eat k >>= f) ks follow yields :=
  bind_nil (reads_eat_other k) (fun _ found => found ▸ second) differs

end Reads

open Reads (bind_discard bind_eat_other bind_end bind_kind_cons bind_kind_nil bind_look bind_span of_span)

/-! ## Loops d -/

/-- From `b` on, a loop reads tokens of the given kinds in any number of rounds, given that its bound is
longer than what is to be read. -/
def Loops (d : Nat) (body : β → Parser (Loop β)) (b : β) (kinds : List TokenKind) (follow : TokenKind → Prop)
    (gives : β → Prop) : Prop :=
  ∀ s rest bound, s.Before d kinds rest → follow (nextKind rest) → s.rest.length < bound.length →
    ∃ b' s', iterateWithin body bound b s = (some b', s') ∧ gives b' ∧ s'.Before d [] rest

/-- A parser has read tokens of the given kinds into a value and stands in a loop with it. -/
def Enters (d : Nat) (p : Parser β) (body : β → Parser (Loop β)) (kinds : List TokenKind)
    (follow : TokenKind → Prop) (gives : β → Prop) : Prop :=
  ∀ s rest, s.Before d kinds rest → follow (nextKind rest) →
    ∃ b s' bound, p s = iterateWithin body bound b s' ∧ gives b ∧ s'.Before d [] rest ∧ rest.length < bound.length

section

variable {body : β → Parser (Loop β)} {b : β} {k : TokenKind} {ks ks' : List TokenKind}
  {follow mid : TokenKind → Prop} {gives gives' : β → Prop}

theorem Reads.of_loops (loops : Loops d body b ks follow gives) : Reads d (iterate body b) ks follow gives :=
  fun s rest before next => loops s rest (s.next :: s.rest) before next (Nat.lt_succ_self _)

theorem Loops.again (inv : β → Prop) (round : Reads d (body b) (k :: ks) mid fun l => ∃ b', l = .again b' ∧ inv b')
    (others : ∀ b', inv b' → Loops d body b' ks' follow gives)
    (meets : ∀ k, follow k → mid (ks'.headD k)) : Loops d body b (k :: ks ++ ks') follow gives := by
  intro s rest bound before next enough
  obtain ⟨later, earlier, rfl⟩ := before.split
  have between : mid (nextKind (later ++ rest)) := nextKind_append later rest ▸ meets _ next
  obtain ⟨_, s', ran, ⟨b', rfl, holds⟩, after⟩ := round s _ earlier between
  have length := earlier.length_eq
  rw [length_cons] at length
  cases bound with
  | nil => simp only [length_nil] at enough; omega
  | cons token bound =>
    rw [length_cons] at enough
    rw [iterateWithin, bind_of_eq_some ran]
    apply others b' holds s' rest bound after.join next
    rw [after.rest_eq]
    omega

theorem Loops.done (round : Reads d (body b) ks follow fun l => ∃ b', l = .done b' ∧ gives b') :
    Loops d body b ks follow gives := by
  intro s rest bound before next enough
  cases bound with
  | nil => exact absurd enough (Nat.not_lt_zero _)
  | cons token bound =>
    obtain ⟨_, s', ran, ⟨b', rfl, given⟩, after⟩ := round s rest before next
    exact ⟨b', s', by rw [iterateWithin, bind_of_eq_some ran]; rfl, given, after⟩

theorem Enters.of_reads {p : Parser β} (reads : Reads d p ks follow gives) :
    Enters d (p >>= iterate body) body ks follow gives := by
  intro s rest before next
  obtain ⟨b, s', ran, given, after⟩ := reads s rest before next
  refine ⟨b, s', s'.next :: s'.rest, bind_of_eq_some ran, given, after, ?_⟩
  rw [after.rest_eq]
  exact Nat.lt_succ_self _

theorem Enters.round {p : Parser β} (enters : Enters d p body ks mid gives)
    (round : ∀ b, gives b → Reads d (body b) (k :: ks') follow fun l => ∃ b', l = .again b' ∧ gives' b')
    (meets : mid k) : Enters d p body (ks ++ k :: ks') follow gives' := by
  intro s rest before next
  obtain ⟨later, earlier, kinds⟩ := before.split
  have between : mid (nextKind (later ++ rest)) := by
    rw [nextKind_append, kinds]
    exact meets
  obtain ⟨b, s', bound, ran, given, after, enough⟩ := enters s _ earlier between
  have ahead := after.join
  rw [kinds] at ahead
  obtain ⟨_, s'', ran', ⟨b', rfl, given'⟩, after'⟩ := round b given s' rest ahead next
  have length := congrArg length kinds
  rw [length_map, length_cons] at length
  rw [length_append] at enough
  cases bound with
  | nil => simp only [length_nil] at enough; omega
  | cons token bound =>
    refine ⟨b', s'', bound, ?_, given', after', ?_⟩
    · rw [ran, iterateWithin, bind_of_eq_some ran']
    · rw [length_cons] at enough
      omega

theorem Enters.reads {p : Parser β} (enters : Enters d p body ks mid gives)
    (ends : ∀ b, Reads d (body b) [] follow (· = .done b)) (meets : ∀ k, follow k → mid k) :
    Reads d p ks follow gives := by
  intro s rest before next
  obtain ⟨b, s', bound, ran, given, after, enough⟩ := enters s rest before (meets _ next)
  have last : Loops d body b [] follow (· = b) :=
    .done ((ends b).weaken fun _ done => ⟨b, done, rfl⟩)
  obtain ⟨b', s'', ran', rfl, after'⟩ := last s' rest bound after next (after.rest_eq.symm ▸ enough)
  exact ⟨b', s'', ran.trans ran', given, after'⟩

end

/-! ## Lists -/

section

variable {item : Parser α} {view : α → δ} {tokens : α → List TokenKind} {close : TokenKind}
  {follow mid : TokenKind → Prop} {xs : List α}

theorem loops_list (view : α → δ) {body : Array α → Parser (Loop (Array α))}
    (round : ∀ x ∈ xs, ∀ acc, Reads d (body acc) (tokens x) mid fun l =>
      ∃ a, l = .again (acc.push a) ∧ view a = view x) (ends : ∀ acc, Reads d (body acc) [] follow (· = .done acc))
    (opens : ∀ x ∈ xs, ∃ k ks, tokens x = k :: ks ∧ mid k) (last : ∀ k, follow k → mid k) (acc : Array α) :
    Loops d body acc (xs.flatMap tokens) follow fun items =>
      items.toList.map view = acc.toList.map view ++ xs.map view := by
  induction xs generalizing acc with
  | nil =>
    apply Loops.done
    exact (ends acc).weaken fun _ done => ⟨acc, done, by simp⟩
  | cons x xs ih =>
    obtain ⟨k, ks, here, -⟩ := opens x (mem_cons_self ..)
    have first := round x (mem_cons_self ..) acc
    have others := ih (fun y member => round y (mem_cons_of_mem x member))
      fun y member => opens y (mem_cons_of_mem x member)
    rw [flatMap_cons, here]
    rw [here] at first
    apply Loops.again fun items => items.toList.map view = acc.toList.map view ++ [view x]
    · apply first.weaken
      rintro l ⟨a, rfl, same⟩
      exact ⟨acc.push a, rfl, by simp [same]⟩
    · intro items shown
      have rest := others items
      rw [shown, append_assoc] at rest
      exact rest
    · intro k next
      cases xs with
      | nil => exact last k next
      | cons y ys =>
        obtain ⟨k', ks', here, allowed⟩ := opens y (by simp)
        rw [flatMap_cons, here]
        exact allowed

theorem reads_gather {stop : State → Bool} {skip : Parser Unit}
    (each : ∀ x ∈ xs, Reads d item (tokens x) mid fun a => view a = view x)
    (opens : ∀ x ∈ xs, ∃ k ks, tokens x = k :: ks ∧ mid k) (last : ∀ k, follow k → mid k)
    (goes : ∀ x ∈ xs, ∀ s rest, s.Before d (tokens x) rest → stop s = false)
    (ends : ∀ s rest, s.Before d [] rest → follow (nextKind rest) → stop s = true) :
    Reads d (gather stop item skip) (xs.flatMap tokens) follow fun as => as.map view = xs.map view := by
  apply bind_end (.of_loops (loops_list view ?_ ?_ opens last #[]))
  · intro items shown
    exact .of_pure shown
  · intro x member acc
    apply bind_look fun s rest before _ => goes x member s rest before
    apply bind_end (each x member).attempt
    rintro _ ⟨a, rfl, same⟩
    exact .of_pure ⟨a, rfl, same⟩
  · intro acc
    apply bind_look ends
    exact .of_pure rfl

theorem loops_separated (apart : close ≠ .comma)
    (each : ∀ x ∈ xs, Reads d item (tokens x) (fun k => k = .comma ∨ k = close) fun a => view a = view x)
    (opens : ∀ x ∈ xs, ∃ k ks, tokens x = k :: ks ∧ k ≠ close ∧ k ≠ .eof) (acc : Array α) :
    Loops d (separatedRound item close) acc (commaSeparated (xs.map tokens)) (· = close) fun items =>
      items.toList.map view = acc.toList.map view ++ xs.map view := by
  induction xs generalizing acc with
  | nil =>
    apply Loops.done
    apply bind_look
    · intro s rest before next
      simp only [before.kind_nil, next, decide_true, Bool.true_or]
      rfl
    · exact .of_pure ⟨acc, rfl, by simp⟩
  | cons x xs ih =>
    obtain ⟨k, ks, here, different, more⟩ := opens x (mem_cons_self ..)
    have first := each x (mem_cons_self ..)
    rw [here] at first
    have starts {ks' : List TokenKind} {s : State} {rest : List Token}
        (before : s.Before d (k :: ks') rest) : (decide (s.kind = close) || s.atEnd) = false := by
      simp [State.atEnd, before.kind_cons, different, more]
    cases xs with
    | nil =>
      rw [map_cons, map_nil, here]
      apply Loops.done
      apply bind_look fun s rest before _ => starts before
      apply bind_end (first.narrow fun _ => .inr)
      intro a same
      apply bind_eat_other
      · exact .of_pure ⟨acc.push a, rfl, by simp [same]⟩
      · exact fun _ next => next ▸ apart
    | cons y ys =>
      have others := ih (fun z member => each z (mem_cons_of_mem x member))
        fun z member => opens z (mem_cons_of_mem x member)
      rw [map_cons, map_cons, commaSeparated, here]
      have spelled : k :: ks ++ .comma :: commaSeparated (tokens y :: ys.map tokens) =
          k :: (ks ++ [.comma]) ++ commaSeparated ((y :: ys).map tokens) := by simp
      rw [spelled]
      apply Loops.again fun items => items.toList.map view = acc.toList.map view ++ [view x]
      · apply bind_look fun s rest before _ => starts before
        apply Reads.bind first
        · intro a same
          apply bind_end (reads_eat .comma)
          rintro _ rfl
          exact .of_pure ⟨acc.push a, rfl, by simp [same]⟩
        · exact fun _ _ => .inl rfl
      · intro items shown
        have rest := others items
        rw [shown, append_assoc] at rest
        exact rest
      · exact fun _ _ => trivial

theorem reads_separated (apart : close ≠ .comma)
    (each : ∀ x ∈ xs, Reads d item (tokens x) (fun k => k = .comma ∨ k = close) fun a => view a = view x)
    (opens : ∀ x ∈ xs, ∃ k ks, tokens x = k :: ks ∧ k ≠ close ∧ k ≠ .eof) :
    Reads d (separated item close) (commaSeparated (xs.map tokens) ++ [close]) Anything fun as =>
      as.map view = xs.map view := by
  apply Reads.bind (.of_loops (loops_separated apart each opens #[]))
  · intro items shown
    apply bind_end (reads_expect close)
    intro _ _
    exact .of_pure shown
  · exact fun _ _ => rfl

end

/-! ## Types -/

theorem reads_primitive (p : Primitive) : Reads d primitive [.typeName p] Anything (· = p) := by
  apply bind_kind_cons
  apply bind_end (reads_advance _).discard
  intro _ _
  exact .of_pure rfl

theorem loops_stars (ty : Ty) (n : Nat) (few : ty.depth + n ≤ Ty.maxDepth) : Loops d starRound ty
      (.replicate n .star) (· ≠ .star) (· = ty.starred n) := by
  induction n generalizing ty with
  | zero =>
    apply Loops.done
    apply bind_eat_other _ fun _ => id
    exact .of_pure ⟨ty, rfl, ty.starred_zero.symm⟩
  | succ n ih =>
    have depth : ty.pointerTo.depth = ty.depth + 1 := Nat.min_eq_left (by omega)
    change Loops d _ ty ([.star] ++ replicate n .star) _ _
    apply Loops.again (· = ty.pointerTo)
    · apply bind_end (reads_eat .star)
      rintro _ rfl
      exact .of_pure ⟨ty.pointerTo, rfl, rfl⟩
    · rintro _ rfl
      have others := ih ty.pointerTo (by omega)
      rwa [Ty.starred_pointerTo few] at others
    · exact fun _ _ => trivial

theorem reads_arrayLength {n : Nat} (small : n < UInt32.size) :
    Reads d arrayLength (if n = 0 then [] else [.intLit (.ofNat n)]) (· = .rBracket) (· = n) := by
  have value : (UInt64.ofNat n).toNat = n := by
    exact Nat.mod_eq_of_lt (Nat.lt_trans small (by decide))
  split
  · next zero =>
    apply bind_kind_nil
    rintro _ rfl
    exact .of_pure zero.symm
  · next some =>
    apply bind_kind_cons
    apply bind_end (reads_advance _).anywhere
    intro token _
    rw [value, if_pos (by simp only [Bool.and_eq_true, decide_eq_true_eq]; omega)]
    exact .of_pure rfl

theorem reads_const (isConst : Bool) :
    Reads d (eat .kwConst) (if isConst then [.kwConst] else []) (· ≠ .kwConst) (· = isConst) := by
  cases isConst with
  | true => exact (reads_eat .kwConst).anywhere
  | false => exact reads_eat_other .kwConst

/-- What can follow a type. -/
abbrev EndsType (k : TokenKind) : Prop := k ≠ .star ∧ k ≠ .lBracket

theorem reads_type {t : Ty} (formed : t.isWellFormed = true) : Reads d type t.tokens EndsType (· = t) := by
  obtain ⟨p, isConst, isPointer, isArray, depth, arrayLen, bits⟩ := t
  simp only [Ty.isWellFormed, Bool.and_eq_true, Bool.or_eq_true, decide_eq_true_eq] at formed
  obtain ⟨⟨⟨⟨few, pointer⟩, small⟩, plain⟩, width⟩ := formed
  apply Reads.bind (reads_const isConst) _ fun _ _ same => by cases same
  rintro isConst rfl
  apply Reads.bind_cons (reads_primitive p)
  rintro p rfl
  have start : (if isConst then (Ty.scalar p).constant else Ty.scalar p) =
      ⟨p, isConst, false, false, 0, 0, p.naturalBits⟩ := by
    cases isConst with
    | _ => rfl
  rw [start]
  apply Reads.bind (.of_loops (loops_stars _ depth (by simpa using few)))
  · rintro _ rfl
    cases isArray with
    | true =>
      apply Reads.bind_eat
      apply Reads.bind (reads_arrayLength small)
      · rintro _ rfl
        apply bind_end (reads_expect .rBracket).anywhere
        intro _ _
        apply Reads.of_pure
        simp [Ty.starred, Ty.arrayOf, pointer, width]
      · exact fun _ _ => rfl
    | false =>
      apply bind_eat_other
      · apply Reads.of_pure
        rcases Nat.eq_zero_or_pos depth with scalar | starred
        · simp_all [Ty.starred]
        · simp_all [Ty.starred, Nat.ne_of_gt starred]
      · exact fun _ next => next.2
  · intro k next
    cases isArray with
    | true => exact fun same => by cases same
    | false => exact next.1

/-! ## Operators -/

section

variable {k : TokenKind} {op : BinOp}

theorem comparisonOp?_of_strength (weak : k.strength = 0) : comparisonOp? k = none := by
  cases k with
  | eqEq | bangEq | less | greater | lessEq | greaterEq => cases weak
  | _ => rfl

theorem sumOp?_of_strength (weak : k.strength ≤ 1) : sumOp? k = none := by
  cases k with
  | plus | minus => exact absurd weak (by decide)
  | _ => rfl

theorem productOp?_of_strength (weak : k.strength ≤ 2) : productOp? k = none := by
  cases k with
  | star | slash => exact absurd weak (by decide)
  | _ => rfl

theorem comparisonOp?_token (level : op.binds = 0) : comparisonOp? op.token = some op := by
  cases op with
  | eq | notEq | less | greater | lessEq | greaterEq => rfl
  | _ => cases level

theorem sumOp?_token (level : op.binds = 1) : sumOp? op.token = some op := by
  cases op with
  | add | sub => rfl
  | _ => cases level

theorem productOp?_token (level : op.binds = 2) : productOp? op.token = some op := by
  cases op with
  | mul | div => rfl
  | _ => cases level

theorem unaryOp?_token (op : UnaryOp) : unaryOp? op.token = some op := by
  cases op with
  | _ => rfl

theorem strength_token (op : BinOp) : op.token.strength = op.binds + 1 := by
  cases op with
  | _ => rfl

end

/-- A whole expression is read as it is written, before anything that does not go on with it. -/
abbrev ReadsExpr (d : Nat) (p : Parser Expr) (e : Expr) : Prop :=
  Reads d p e.tokens (·.strength = 0) (·.spanless = e.spanless)

variable {right left : Expr} {op : BinOp}

/-! ## Chains of operators -/

section

variable {op? : TokenKind → Option BinOp} {operand : Parser Expr} {follow mid : TokenKind → Prop}

theorem chainRound_ends (other : ∀ k, follow k → op? k = none) (left : Expr) :
    Reads d (chainRound op? operand left) [] follow (· = .done left) := by
  apply bind_kind_nil
  intro k next
  rw [other k next]
  exact .of_pure rfl

theorem enters_chain (known : op? op.token = some op)
    (first : Enters d (chain op? operand) (chainRound op? operand) left.tokens mid
      (·.spanless = left.spanless)) (second : Reads d operand right.tokens follow (·.spanless = right.spanless))
    (meets : mid op.token) :
    Enters d (chain op? operand) (chainRound op? operand) (Expr.binary op left right span).tokens follow
      (·.spanless = (Expr.binary op left right span).spanless) := by
  apply first.round _ meets
  intro e same
  apply bind_kind_cons
  rw [known]
  apply bind_discard
  apply bind_end second
  intro e' same'
  refine .of_pure ⟨_, rfl, ?_⟩
  rw [joined, Expr.spanless, Expr.spanless, same, same']

theorem reads_comparison (level : op.binds = 0)
    (first : Reads d (chain sumOp? (chain productOp? operand)) left.tokens (·.strength ≤ 1)
      (·.spanless = left.spanless))
    (second : Reads d (chain sumOp? (chain productOp? operand)) right.tokens (·.strength ≤ 1)
      (·.spanless = right.spanless)) : ReadsExpr d (comparison operand) (.binary op left right span) := by
  apply Reads.bind first
  · intro e same
    apply bind_kind_cons
    rw [comparisonOp?_token level]
    apply bind_discard
    apply bind_end (second.narrow fun _ weak => Nat.le_succ_of_le (Nat.le_of_eq weak))
    intro e' same'
    apply bind_kind_nil
    intro k weak
    rw [comparisonOp?_of_strength weak]
    refine .of_pure ?_
    rw [joined, Expr.spanless, Expr.spanless, same, same']
  · intro _ _
    exact Nat.le_of_eq (by rw [headD_cons, strength_token, level])

theorem reads_comparison_sum {e : Expr}
    (sum : Reads d (chain sumOp? (chain productOp? operand)) e.tokens (·.strength ≤ 1) (·.spanless = e.spanless)) :
    ReadsExpr d (comparison operand) e := by
  apply bind_end (sum.narrow fun _ weak => Nat.le_succ_of_le (Nat.le_of_eq weak))
  intro e' same
  apply bind_kind_nil
  intro k weak
  rw [comparisonOp?_of_strength weak]
  exact .of_pure same

end

/-! ## Terms -/

section

variable {inner : Parser Expr} {e : Expr}

theorem suffix_ends (e : Expr) : Reads d (suffix inner e) [] (·.strength ≤ 3) (· = .done e) := by
  apply bind_kind_nil
  intro k weak
  cases k with
  | lParen | lBracket | dot => exact absurd weak (by decide)
  | _ => exact .of_pure rfl

theorem reads_name (name : String) :
    Reads d (primary inner) [.identifier name] Anything fun a => ∃ span, a = .name name span := by
  apply bind_span
  intro _
  apply bind_kind_cons
  apply bind_discard
  apply bind_span
  intro _
  exact .of_pure ⟨_, rfl⟩

theorem reads_group (reads : ReadsExpr d inner e) (span : Span) :
    Reads d (primary inner) (Expr.group e span).tokens Anything (·.spanless = (Expr.group e span).spanless) := by
  apply bind_span
  intro _
  apply bind_kind_cons
  apply bind_discard
  apply Reads.bind reads _ fun _ _ => rfl
  intro e' same
  apply Reads.bind_expect
  apply of_span
  intro _
  rw [Expr.spanless, Expr.spanless, same]

variable {es : List Expr}

theorem reads_exprs {close : TokenKind}
    (each : ∀ e ∈ es, ReadsExpr d inner e) (apart : close ≠ .comma) (weak : close.strength = 0)
    (closes : close.opensExpr = false) :
    Reads d (separated inner close) (commaSeparated (Expr.tokensAll es) ++ [close]) Anything
      fun as => Expr.spanlessAll as = Expr.spanlessAll es := by
  simp only [Expr.tokensAll_eq_map, Expr.spanlessAll_eq_map]
  apply reads_separated apart
  · intro e member
    apply (each e member).narrow
    rintro k (rfl | rfl)
    · rfl
    · exact weak
  · intro e member
    obtain ⟨k, ks, here, opens⟩ := e.exists_tokens_eq_cons
    refine ⟨k, ks, here, ?_, ?_⟩
    · rintro rfl
      rw [opens] at closes
      cases closes
    · rintro rfl
      cases opens

theorem reads_list (each : ∀ e ∈ es, ReadsExpr d inner e) (span : Span) :
    Reads d (primary inner) (Expr.list es span).tokens Anything (·.spanless = (Expr.list es span).spanless) := by
  apply bind_span
  intro _
  apply bind_kind_cons
  apply bind_discard
  apply bind_end (reads_exprs each (by decide) rfl rfl)
  intro es' same
  apply of_span
  intro _
  rw [Expr.spanless, Expr.spanless, same]

theorem suffix_call (each : ∀ e ∈ es, ReadsExpr d inner e) (callee : Ident) (span span' : Span) :
    Reads d (suffix inner (.name callee.name span))
      (.lParen :: (commaSeparated (Expr.tokensAll es) ++ [.rParen])) Anything fun l =>
        ∃ a, l = .again a ∧ a.spanless = (Expr.call callee es span').spanless := by
  apply bind_kind_cons
  apply bind_discard
  apply bind_end (reads_exprs each (by decide) rfl rfl)
  intro es' same
  apply bind_span
  intro _
  refine .of_pure ⟨_, rfl, ?_⟩
  rw [Expr.spanless, Expr.spanless, same]

theorem suffix_index {array position : Expr} (reads : ReadsExpr d inner position) (same : e.spanless = array.spanless)
    (span : Span) : Reads d (suffix inner e) (.lBracket :: (position.tokens ++ [.rBracket])) Anything fun l =>
      ∃ a, l = .again a ∧ a.spanless = (Expr.index array position span).spanless := by
  apply bind_kind_cons
  apply bind_discard
  apply Reads.bind reads _ fun _ _ => rfl
  intro position' same'
  apply Reads.bind_expect
  apply bind_span
  intro _
  refine .of_pure ⟨_, rfl, ?_⟩
  rw [Expr.spanless, Expr.spanless, same, same']

theorem suffix_dot {object : Expr} (same : e.spanless = object.spanless) (field : Ident) (span : Span) :
    Reads d (suffix inner e) [.dot, .identifier field.name] Anything fun l =>
      ∃ a, l = .again a ∧ a.spanless = (Expr.dot object field span).spanless := by
  apply bind_kind_cons
  apply bind_discard
  apply bind_end (reads_ident field.name)
  intro id named
  refine .of_pure ⟨_, rfl, ?_⟩
  rw [Expr.spanless, Expr.spanless, same, named]

end

/-! ## Expressions -/

theorem reads_nested {p : Parser Expr} {ks : List TokenKind} {follow : TokenKind → Prop} {gives : Expr → Prop}
    (shallow : d < maxNesting) (reads : Reads (d + 1) p ks follow gives) : Reads d (nested p) ks follow gives := by
  rintro s rest ⟨clean, rfl, ahead⟩ next
  obtain ⟨e, s', ran, given, clean', depth, ahead'⟩ :=
    reads { s with depth := s.depth + 1 } rest ⟨clean, rfl, ahead⟩ next
  refine ⟨e, { s' with depth := s'.depth - 1 }, ?_, given, clean', congrArg (· - 1) depth, ahead'⟩
  simp only [nested, if_neg (Nat.not_lt.2 shallow), ran]

section

variable (room : Nat) (e : Expr)

/-- What stands inside parentheses and brackets, where `room` levels may still open. -/
abbrev inside : Parser Expr :=
  nested (comparison (unaryWithin room))

abbrev operand : Parser Expr :=
  unaryWith (nested (unaryWithin room)) (inside room)

/-- The expression is read as a term, and something may still follow it there. -/
abbrev ReadsTerm : Prop :=
  Enters (maxNesting - room) (primary (inside room) >>= iterate (suffix (inside room))) (suffix (inside room))
    e.tokens Anything (·.spanless = e.spanless)

abbrev ReadsOperand : Prop :=
  Reads (maxNesting - room) (operand room) e.tokens (·.strength ≤ 3) (·.spanless = e.spanless)

/-- The expression is read as a product, and the product may go on. -/
abbrev ReadsProduct : Prop :=
  Enters (maxNesting - room) (chain productOp? (operand room)) (chainRound productOp? (operand room)) e.tokens
    (·.strength ≤ 3) (·.spanless = e.spanless)

/-- The expression is read as a sum, and the sum may go on. -/
abbrev ReadsSum : Prop :=
  Enters (maxNesting - room) (chain sumOp? (chain productOp? (operand room)))
    (chainRound sumOp? (chain productOp? (operand room))) e.tokens (·.strength ≤ 2) (·.spanless = e.spanless)

abbrev ReadsComparison : Prop :=
  ReadsExpr (maxNesting - room) (comparison (operand room)) e

/-- How an expression is read at each level of precedence, with `room` levels of nesting below it. -/
def ReadsAt : Nat → Prop
  | 0 => ReadsComparison room e
  | 1 => ReadsSum room e
  | 2 => ReadsProduct room e
  | 3 => ReadsOperand room e
  | _ => ReadsTerm room e

end

section

variable {room : Nat} {e : Expr}

theorem ReadsSum.whole (reads : ReadsSum room e) :
    Reads (maxNesting - room) (chain sumOp? (chain productOp? (operand room))) e.tokens (·.strength ≤ 1)
      (·.spanless = e.spanless) :=
  reads.reads (chainRound_ends fun _ => sumOp?_of_strength) fun _ => Nat.le_succ_of_le

theorem ReadsProduct.whole (reads : ReadsProduct room e) :
    Reads (maxNesting - room) (chain productOp? (operand room)) e.tokens (·.strength ≤ 2) (·.spanless = e.spanless) :=
  reads.reads (chainRound_ends fun _ => productOp?_of_strength) fun _ => Nat.le_succ_of_le

theorem ReadsTerm.operand (reads : ReadsTerm room e) (ordered : e.isOrdered = true)
    (tight : 4 ≤ e.binds) : ReadsOperand room e := by
  obtain ⟨k, ks, here, -⟩ := e.exists_tokens_eq_cons
  have term := reads.reads suffix_ends fun _ _ => trivial
  rw [ReadsOperand]
  rw [here] at term ⊢
  apply bind_kind_cons
  rw [e.unaryOp?_of_tokens ordered tight k ks here]
  exact term

theorem ReadsAt.loosen (ordered : e.isOrdered = true) : (level : Nat) → level < e.binds →
    ReadsAt room e (level + 1) → ReadsAt room e level
  | 0, _, reads => reads_comparison_sum (ReadsSum.whole reads)
  | 1, _, reads => Enters.of_reads (ReadsProduct.whole reads)
  | 2, _, reads => show ReadsProduct room e from Enters.of_reads (show ReadsOperand room e from reads)
  | 3, tight, reads => ReadsTerm.operand reads ordered tight
  | _ + 4, _, reads => reads

/-- An expression that is read at its own level is read at all looser ones. -/
theorem ReadsAt.of_le (reads : ReadsAt room e e.binds) (ordered : e.isOrdered = true) {level : Nat}
    (le : level ≤ e.binds) : ReadsAt room e level := by
  obtain ⟨levels, here⟩ := Nat.exists_eq_add_of_le le
  induction levels generalizing level with
  | zero =>
    rw [Nat.add_zero] at here
    exact here ▸ reads
  | succ levels ih => exact loosen ordered level (by omega) (ih (by omega) (by omega))

theorem reads_inside (ordered : e.isOrdered = true) (few : room ≤ maxNesting) (shallow : e.nesting ≤ room)
    (reads : ∀ room < maxNesting, e.nesting ≤ room + 1 → ReadsAt room e e.binds) :
    ReadsExpr (maxNesting - room) (inside room) e := by
  cases room with
  | zero => exact absurd e.nesting_pos (Nat.not_lt.2 shallow)
  | succ room =>
    have whole : ReadsAt room e 0 := (reads room few shallow).of_le ordered (Nat.zero_le _)
    exact reads_nested (by omega) (by rwa [show maxNesting - (room + 1) + 1 = maxNesting - room by omega])

theorem reads_unary {op : UnaryOp} (few : room < maxNesting) (reads : ReadsOperand room e) :
    ReadsOperand (room + 1) (.unary op e span) := by
  apply bind_kind_cons
  rw [unaryOp?_token]
  apply Reads.bind_advance
  intro _
  apply bind_end (reads_nested (by omega) (by rwa [show maxNesting - (room + 1) + 1 = maxNesting - room by omega]))
  intro e' same
  refine .of_pure ?_
  rw [Expr.spanless, Expr.spanless, same]

end

/-- Operators group to the left, except for comparisons, which do not chain. -/
theorem reads_binary {room : Nat}
    (first : ∀ level ≤ left.binds, ReadsAt room left level)
    (second : ∀ level ≤ right.binds, ReadsAt room right level) (loose : max 1 op.binds ≤ left.binds)
    (tight : op.binds < right.binds) : ReadsAt room (.binary op left right span) op.binds := by
  have strength := strength_token op
  have few := op.binds_le
  have cases : op.binds = 0 ∨ op.binds = 1 ∨ op.binds = 2 := by omega
  rcases cases with level | level | level
  · rw [level] at tight loose ⊢
    have left_sum : ReadsSum room left := first 1 loose
    have right_sum : ReadsSum room right := second 1 tight
    exact reads_comparison level left_sum.whole right_sum.whole
  · rw [level] at tight loose ⊢
    have left_sum : ReadsSum room left := first 1 loose
    have right_product : ReadsProduct room right := second 2 tight
    exact enters_chain (sumOp?_token level) left_sum right_product.whole (by omega)
  · rw [level] at tight loose ⊢
    have left_product : ReadsProduct room left := first 2 loose
    have right_operand : ReadsOperand room right := second 3 tight
    exact enters_chain (productOp?_token level) left_product right_operand (by omega)

mutual

theorem readsAt_binds : (e : Expr) → (room : Nat) → room < maxNesting → e.isOrdered = true →
    e.nesting ≤ room + 1 → ReadsAt room e e.binds
  | .int _ _, _, _, _, _ | .float _ _, _, _, _, _ | .str _ _, _, _, _, _ | .name _ _, _, _, _, _ => by
    apply Enters.of_reads
    apply bind_span
    intro _
    apply bind_kind_cons
    apply bind_discard
    apply of_span
    intro _
    rw [Expr.spanless, Expr.spanless]
  | .group inner span, room, few, ordered, shallow => by
    rw [Expr.isOrdered] at ordered
    have reads := reads_inside ordered (Nat.le_of_lt few) (Nat.le_of_succ_le_succ shallow)
      fun room few => readsAt_binds inner room few ordered
    exact Enters.of_reads (reads_group reads span)
  | .list items span, room, few, ordered, shallow => by
    have each := reads_all items room few ordered (Nat.le_of_succ_le_succ shallow)
    exact Enters.of_reads (reads_list each span)
  | .call callee args span, room, few, ordered, shallow => by
    have each := reads_all args room few ordered (Nat.le_of_succ_le_succ shallow)
    apply Enters.round (.of_reads (reads_name callee.name)) _ trivial
    rintro _ ⟨span', rfl⟩
    exact suffix_call each callee span' span
  | .dot object field span, room, few, ordered, shallow => by
    simp only [Expr.isOrdered, Bool.and_eq_true, decide_eq_true_eq] at ordered
    have first : ReadsTerm room object := (readsAt_binds object room few ordered.2 shallow).of_le ordered.2 ordered.1
    change ReadsTerm room _
    apply first.round _ trivial
    intro e same
    exact suffix_dot same field span
  | .index array position span, room, few, ordered, shallow => by
    simp only [Expr.isOrdered, Bool.and_eq_true, decide_eq_true_eq] at ordered
    obtain ⟨⟨tight, first_ordered⟩, second_ordered⟩ := ordered
    rw [Expr.nesting, Nat.max_le] at shallow
    have first : ReadsTerm room array :=
      (readsAt_binds array room few first_ordered shallow.1).of_le first_ordered tight
    have second := reads_inside second_ordered (Nat.le_of_lt few) (Nat.le_of_succ_le_succ shallow.2)
      fun room few => readsAt_binds position room few second_ordered
    apply first.round _ trivial
    intro e same
    exact suffix_index second same span
  | .unary op operand span, room, few, ordered, shallow => by
    simp only [Expr.isOrdered, Bool.and_eq_true, decide_eq_true_eq] at ordered
    rw [Expr.nesting] at shallow
    have positive := operand.nesting_pos
    obtain ⟨room, rfl⟩ : ∃ n, room = n + 1 := ⟨room - 1, by omega⟩
    have reads : ReadsOperand room operand :=
      (readsAt_binds operand room (Nat.lt_of_succ_lt few) ordered.2 (Nat.le_of_succ_le_succ shallow)).of_le
        ordered.2 ordered.1
    exact reads_unary (Nat.lt_of_succ_lt few) reads
  | .binary op left right span, room, few, ordered, shallow => by
    simp only [Expr.isOrdered, Bool.and_eq_true, decide_eq_true_eq] at ordered
    obtain ⟨⟨⟨loose, tight⟩, first_ordered⟩, second_ordered⟩ := ordered
    rw [Expr.nesting, Nat.max_le] at shallow
    apply reads_binary _ _ loose tight
    · exact fun _ => (readsAt_binds left room few first_ordered shallow.1).of_le first_ordered
    · exact fun _ => (readsAt_binds right room few second_ordered shallow.2).of_le second_ordered

theorem reads_all : (es : List Expr) → (room : Nat) → room < maxNesting → Expr.allOrdered es = true →
    Expr.nestingAll es ≤ room → ∀ e ∈ es, ReadsExpr (maxNesting - room) (inside room) e
  | [], _, _, _, _, _, member => by cases member
  | e :: es, room, few, ordered, shallow, e', member => by
    rw [Expr.allOrdered, Bool.and_eq_true] at ordered
    rw [Expr.nestingAll, Nat.max_le] at shallow
    rcases mem_cons.1 member with here | later
    · rw [here]
      exact reads_inside ordered.1 (Nat.le_of_lt few) shallow.1 fun room few => readsAt_binds e room few ordered.1
    · exact reads_all es room few ordered.2 shallow.2 e' later

end

/-- Every expression of the grammar is read as it is written, before anything that does not go on with
it. -/
theorem reads_expression {e : Expr} (formed : e.isWellFormed = true) : ReadsExpr 0 expression e := by
  simp only [Expr.isWellFormed, Bool.and_eq_true, decide_eq_true_eq] at formed
  exact reads_inside formed.1 (Nat.le_refl _) formed.2 fun room few => readsAt_binds e room few formed.1

end RegisterLang.Parser
