import RegisterLang.Proofs.Progress

/-! # The parser accepts only the grammar

A run of the parser that reports nothing has read every token into the program that comes out. The program is
one of the grammar, and what is written for it is what was read, up to a few tokens that a tree does not
record. Main statement: `parseTokens_shortens`.
-/

namespace RegisterLang

open List

variable {ks ks' : List TokenKind}

/-- Leaving out tokens that a tree does not record, each where it stands: a comma before what closes a list, a result of
type `Void`, `const` in the type of a constant, and the stars behind as many as are told apart. -/
inductive Shortens : List TokenKind → List TokenKind → Prop
  | refl (ks : List TokenKind) : Shortens ks ks
  | append {ks ks' ls ls' : List TokenKind} : Shortens ks ks' → Shortens ls ls' → Shortens (ks ++ ls) (ks' ++ ls')
  | comma {close : TokenKind} : close = .rParen ∨ close = .rBracket → Shortens [.comma, close] [close]
  | result {ks : List TokenKind} : ks = [.rParen] ∨ ks = [.comma, .rParen] →
      Shortens (ks ++ [.colon, .typeName .void]) [.rParen]
  | const (name : String) :
      Shortens [.kwConst, .identifier name, .colon, .kwConst] [.kwConst, .identifier name, .colon]
  | stars (p : Primitive) (n : Nat) :
      Shortens (.typeName p :: .replicate (Ty.maxDepth + n) .star) (.typeName p :: .replicate Ty.maxDepth .star)

theorem Shortens.cons (k : TokenKind) (shorter : Shortens ks ks') : Shortens (k :: ks) (k :: ks') :=
  .append (.refl [k]) shorter

namespace Parser

variable {α β γ : Type} {code : Code} {message : String} {ty : Ty}

/-- Nothing was reported so far. -/
def State.Clean (s : State) : Prop :=
  s.report.hasErrors = false

theorem State.not_clean_complain {s : State} {span : Span} : ¬ (s.complain code message span).Clean := by
  simp [Clean, complain, Report.complain, Report.error, Report.hasErrors]

/-- If fewer than `n` tokens are to come, a run that reports nothing yields a value, and the kinds of the tokens that it
read are as promised. -/
def Sound (face : State → Prop) (n : Nat) (p : Parser α) (post : α → List TokenKind → Prop) : Prop :=
  ∀ s, face s → s.rest.length < n → (p s).2.Clean →
    ∃ a read, (p s).1 = some a ∧ s.rest = read ++ (p s).2.rest ∧ post a (read.map Token.kind)

abbrev Anywhere (_ : State) : Prop := True

/-- A token of this kind comes next. -/
abbrev Facing (k : TokenKind) (s : State) : Prop := s.kind = k

namespace Sound

variable {face : State → Prop} {n m : Nat} {p q : Parser α} {f : α → Parser β} {k : TokenKind}
  {post mid : α → List TokenKind → Prop} {next : β → List TokenKind → Prop}

theorem weaken {post' : α → List TokenKind → Prop} (sound : Sound face n p post)
    (weaker : ∀ a ks, post a ks → post' a ks) : Sound face n p post' := by
  intro s here few clean
  obtain ⟨a, read, value, rest, holds⟩ := sound s here few clean
  exact ⟨a, read, value, rest, weaker _ _ holds⟩

theorem fewer (sound : Sound face n p post) (less : m ≤ n) : Sound face m p post :=
  fun s here few => sound s here (Nat.lt_of_lt_of_le few less)

theorem anywhere (sound : Sound Anywhere n p post) : Sound face n p post :=
  fun s _ => sound s trivial

theorem congr (sound : Sound face n q post) (same : ∀ s, face s → p s = q s) : Sound face n p post := by
  intro s here
  rw [same s here]
  exact sound s here

theorem ite {test : Prop} [Decidable test] (yes : test → Sound face n p post) (no : ¬ test → Sound face n q post) :
    Sound face n (if test then p else q) post := by
  by_cases holds : test
  · rw [if_pos holds]
    exact yes holds
  · rw [if_neg holds]
    exact no holds

theorem of_facing (each : ∀ k, Sound (Facing k) n p post) : Sound Anywhere n p post :=
  fun s _ => each s.kind s rfl

theorem of_complaint (complains : ∀ s, face s → ¬ (p s).2.Clean) : Sound face n p post :=
  fun s here _ clean => absurd clean (complains s here)

theorem of_pure {a : α} (holds : post a []) : Sound face n (pure a) post :=
  fun _ _ _ _ => ⟨a, [], rfl, rfl, holds⟩

theorem bind (first : Sound face n p mid)
    (second : ∀ a, Sound Anywhere n (f a) fun b ks' => ∀ ks, mid a ks → next b (ks ++ ks')) :
    Sound face n (p >>= f) next := by
  intro s here few clean
  have reads := first s here few
  rcases ran : p s with ⟨_ | a, s'⟩
  · rw [bind_of_eq_none ran] at clean
    rw [ran] at reads
    obtain ⟨_, _, none, -⟩ := reads clean
    cases none
  · rw [bind_of_eq_some ran] at clean ⊢
    rw [ran] at reads
    obtain ⟨_, read, ⟨⟩, rest, holds⟩ := reads (((f a).reaches s').clean clean)
    have fewer : s'.rest.length < n := by
      rw [rest, length_append] at few
      exact Nat.lt_of_le_of_lt (Nat.le_add_left ..) few
    obtain ⟨b, read', value, rest', holds'⟩ := second a s' trivial fewer clean
    refine ⟨b, read ++ read', value, ?_, ?_⟩
    · rw [rest, rest', append_assoc]
    · rw [map_append]
      exact holds' _ holds

/-- Nothing was reported, so what was attempted was found. -/
theorem bind_attempt {f : Option α → Parser β} (first : Sound face n p mid)
    (second : ∀ a, Sound Anywhere n (f (some a)) fun b ks' => ∀ ks, mid a ks → next b (ks ++ ks')) :
    Sound face n (attempt p >>= f) next := by
  intro s here few clean
  obtain ⟨a, -, value, -⟩ := first s here few (((f (p s).1).reaches (p s).2).clean clean)
  have same : (attempt p >>= f) s = (p >>= fun a => f (some a)) s := by
    rw [bind_of_eq_some (Prod.ext value rfl : p s = (some a, (p s).2)), ← value]
    rfl
  rw [same] at clean ⊢
  exact first.bind second s here few clean

theorem map {g : α → β} (sound : Sound face n p fun a ks => next (g a) ks) : Sound face n (g <$> p) next :=
  sound.bind fun a => .of_pure fun ks holds => by rwa [append_nil]

theorem bind_pure {a : α} (second : Sound face n (f a) next) : Sound face n (pure a >>= f) next :=
  second

theorem bind_map {g : α → γ} {f : γ → Parser β} (first : Sound face n p mid)
    (second : ∀ a, Sound Anywhere n (f (g a)) fun b ks' => ∀ ks, mid a ks → next b (ks ++ ks')) :
    Sound face n (g <$> p >>= f) next := by
  refine (first.bind second).congr fun s _ => ?_
  simp only [Bind.bind, Functor.map]
  generalize p s = result
  obtain ⟨_ | _, _⟩ := result <;> rfl

theorem bind_look {g : State → α} (second : ∀ a, Sound face n (f a) next) : Sound face n (look g >>= f) next :=
  fun s => second (g s) s

theorem bind_kind {f : TokenKind → Parser β} (second : ∀ k, Sound (Facing k) n (f k) next) :
    Sound Anywhere n (kind >>= f) next :=
  of_facing fun k => (second k).congr fun s here => by rw [← here]; rfl

theorem bind_check {f : Bool → Parser β} (hit : Sound (Facing k) n (f true) next)
    (miss : Sound Anywhere n (f false) next) : Sound Anywhere n (check k >>= f) next := by
  refine of_facing fun k' => ?_
  by_cases same : k' = k
  · subst same
    exact hit.congr fun s here => by rw [← decide_eq_true here]; rfl
  · exact miss.anywhere.congr fun s here => by rw [← decide_eq_false (here ▸ same : s.kind ≠ k)]; rfl

theorem bind_token {g : State → α} (inner : k ≠ .eof) (reads : ∀ s, s.kind = k → p s = (some (g s), s.advance))
    (second : ∀ s, Sound Anywhere (n - 1) (f (g s)) fun b ks => next b (k :: ks)) :
    Sound (Facing k) n (p >>= f) next := by
  intro s here few clean
  rw [bind_of_eq_some (reads s here)] at clean ⊢
  have ahead := State.rest_of_kind (here ▸ inner : s.kind ≠ .eof)
  have length := congrArg length ahead
  rw [length_cons] at length
  obtain ⟨b, read, value, rest, holds⟩ := second s s.advance trivial (by omega) clean
  refine ⟨b, s.next :: read, value, ?_, ?_⟩
  · exact ahead.trans (congrArg (s.next :: ·) rest)
  · rw [map_cons, show s.next.kind = k from here]
    exact holds

theorem bind_advance {f : Token → Parser β} (inner : k ≠ .eof)
    (second : ∀ token, Sound Anywhere (n - 1) (f token) fun b ks => next b (k :: ks)) :
    Sound (Facing k) n (advance >>= f) next :=
  bind_token inner (fun _ _ => rfl) fun s => second s.next

theorem bind_discard {f : Unit → Parser β} (inner : k ≠ .eof)
    (second : Sound Anywhere (n - 1) (f ()) fun b ks => next b (k :: ks)) :
    Sound (Facing k) n (discard advance >>= f) next :=
  bind_token inner (fun _ _ => rfl) fun _ => second

theorem bind_complain {span : Span} {f : Unit → Parser β} : Sound face n (complainAt code message span >>= f) next :=
  .of_complaint fun s _ clean => State.not_clean_complain (((f ()).reaches (s.complain code message span)).clean clean)

theorem refuse : Sound face n (Parser.refuse code message : Parser α) post :=
  bind_look fun _ => bind_complain

theorem bind_refuse : Sound face n (Parser.refuse code message >>= f) next :=
  .of_complaint fun _ _ => State.not_clean_complain

theorem bind_refuseAt {span : Span} : Sound face n (refuseAt code message span >>= f) next :=
  .of_complaint fun _ _ => State.not_clean_complain

theorem bind_eat {f : Bool → Parser β} (inner : k ≠ .eof)
    (hit : Sound Anywhere (n - 1) (f true) fun b ks => next b (k :: ks)) (miss : Sound Anywhere n (f false) next) :
    Sound Anywhere n (eat k >>= f) next := by
  refine of_facing fun k' => ?_
  by_cases same : k' = k
  · subst same
    exact bind_token (g := fun _ => true) inner (fun s => eat_of_kind) fun _ => hit
  · exact miss.anywhere.congr fun s here => bind_of_eq_some (eat_of_ne (here ▸ same))

theorem bind_expect {f : Unit → Parser β} (inner : k ≠ .eof)
    (second : Sound Anywhere (n - 1) (f ()) fun b ks => next b (k :: ks)) :
    Sound Anywhere n (expect k >>= f) next := by
  refine of_facing fun k' => ?_
  by_cases same : k' = k
  · subst same
    exact bind_token (g := fun _ => ()) inner (fun s => expect_of_kind) fun _ => second
  · refine .of_complaint fun s here => ?_
    simp only [Bind.bind, expect, kind, look, if_neg (here ▸ same : s.kind ≠ k)]
    exact State.not_clean_complain

theorem bind_ident {f : Ident → Parser β}
    (second : ∀ id, Sound Anywhere (n - 1) (f id) fun b ks => next b (.identifier id.name :: ks)) :
    Sound Anywhere n (ident >>= f) next := by
  refine of_facing fun k => ?_
  cases k with
  | identifier name =>
    refine bind_token (g := fun s => (⟨name, s.next.span⟩ : Ident)) nofun (fun s here => ?_) fun s => second _
    simp only [ident, kind, look, Bind.bind, here]
    rfl
  | _ =>
    refine .of_complaint fun s here => ?_
    simp only [Bind.bind, ident, kind, look, here, TokenKind.isKeyword, if_true, Bool.false_eq_true, if_false]
    exact State.not_clean_complain

end Sound

/-! ## Loops -/

/-- What holds of the value of a loop after a round. -/
def Loop.Holds (inv fin : β → List TokenKind → Prop) (ks : List TokenKind) : Loop β → Prop
  | .again b => inv b ks
  | .done b => fin b ks

theorem Sound.iterate {n : Nat} {body : β → Parser (Loop β)} (inv fin : β → List TokenKind → Prop)
    (round : ∀ b, Sound Anywhere n (body b) fun l ks' => ∀ ks, inv b ks → l.Holds inv fin (ks ++ ks'))
    (ends : ∀ b ks, inv b ks → fin b ks) (b : β) :
    Sound Anywhere n (Parser.iterate body b) fun b' ks' => ∀ ks, inv b ks → fin b' (ks ++ ks') := by
  refine .bind_look fun bound => ?_
  induction bound generalizing b with
  | nil => exact .of_pure fun ks holds => by rw [append_nil]; exact ends b ks holds
  | cons token bound ih =>
    refine (round b).bind fun l => ?_
    cases l with
    | again b' =>
      refine (ih b').weaken fun b'' ks'' last ks' here ks holds => ?_
      rw [← append_assoc]
      exact last _ (here ks holds)
    | done b' =>
      refine .of_pure fun ks' here ks holds => ?_
      rw [append_nil]
      exact here ks holds

/-- A tree is one of the grammar, and what was read is written for it. -/
def Written (formed : α → Prop) (tokens : α → List TokenKind) (a : α) (ks : List TokenKind) : Prop :=
  formed a ∧ Shortens ks (tokens a)

abbrev WrittenStmt : Stmt → List TokenKind → Prop :=
  Written (Stmt.isWellFormed · = true) Stmt.tokens

abbrev WrittenBlock : Block → List TokenKind → Prop :=
  Written (Block.isWellFormed · = true) Block.tokens

/-- A conditional that starts with the given word. -/
abbrev WrittenChain (k : TokenKind) : Conditional → List TokenKind → Prop :=
  Written (Conditional.isWellFormed · = true) (Conditional.tokens k)

theorem commaSeparated_concat {xs : List (List TokenKind)} (some : xs ≠ []) (x : List TokenKind) :
    commaSeparated (xs ++ [x]) = commaSeparated xs ++ .comma :: x := by
  induction xs with
  | nil => exact absurd rfl some
  | cons y ys ih =>
    cases ys with
    | nil => rfl
    | cons z ys =>
      have rest := ih (cons_ne_nil _ _)
      simp only [cons_append, commaSeparated, append_assoc] at rest ⊢
      rw [rest]

/-- What is written in a list was read, then what closes it, with a comma before it or without one. -/
def Closed (close : TokenKind) (ls ks : List TokenKind) : Prop :=
  ∃ ks' last, ks = ks' ++ last ∧ Shortens ks' ls ∧ (last = [close] ∨ last = [.comma, close])

theorem Closed.shortens {close : TokenKind} (closed : Closed close ks' ks)
    (closes : close = .rParen ∨ close = .rBracket) : Shortens ks (ks' ++ [close]) := by
  obtain ⟨ks, _, rfl, shorter, rfl | rfl⟩ := closed
  · exact shorter.append (.refl _)
  · exact shorter.append (.comma closes)

section

variable {n : Nat} {item : Parser α} {formed : α → Prop} {tokens : α → List TokenKind}

/-- Items are read up to what closes them, and a comma before that is not recorded. -/
theorem sound_separated {close : TokenKind} (inner : close ≠ .eof)
    (each : Sound Anywhere n item (Written formed tokens)) : Sound Anywhere n (separated item close) fun items ks =>
      (∀ a ∈ items, formed a) ∧ Closed close (commaSeparated (items.map tokens)) ks := by
  -- while the loop goes on, nothing was read or the last thing read was a comma
  let inv (items : Array α) (ks : List TokenKind) : Prop := (∀ a ∈ items.toList, formed a) ∧
    (items.toList = [] ∧ ks = [] ∨
      items.toList ≠ [] ∧ ∃ ks', ks = ks' ++ [.comma] ∧ Shortens ks' (commaSeparated (items.toList.map tokens)))
  let fin (items : Array α) (ks : List TokenKind) : Prop := (∀ a ∈ items.toList, formed a) ∧
    ∃ ks' last, ks = ks' ++ last ∧ Shortens ks' (commaSeparated (items.toList.map tokens)) ∧
      (last = [] ∨ last = [.comma])
  have ends (items : Array α) (ks : List TokenKind) (holds : inv items ks) : fin items ks := by
    obtain ⟨all, ⟨none, rfl⟩ | ⟨-, ks', rfl, shorter⟩⟩ := holds
    · exact ⟨all, [], [], rfl, by rw [none]; exact .refl _, .inl rfl⟩
    · exact ⟨all, ks', _, rfl, shorter, .inr rfl⟩
  have pushed {items : Array α} {a : α} {ks ks' : List TokenKind} (holds : inv items ks)
      (written : Written formed tokens a ks') : (∀ b ∈ (items.push a).toList, formed b) ∧
        Shortens (ks ++ ks') (commaSeparated ((items.push a).toList.map tokens)) := by
    obtain ⟨all, before⟩ := holds
    rw [Array.toList_push]
    refine ⟨forall_mem_append.2 ⟨all, by simpa using written.1⟩, ?_⟩
    obtain ⟨none, rfl⟩ | ⟨some, ks, rfl, shorter⟩ := before
    · rw [none]
      exact written.2
    · rw [map_append, map_singleton, commaSeparated_concat (by simpa using some), append_assoc]
      exact shorter.append (.cons _ written.2)
  refine Sound.bind (Sound.iterate inv fin (fun items => ?_) ends #[]) fun items =>
    Sound.bind_expect inner (.of_pure ?_)
  · refine .bind_look fun stopped => ?_
    cases stopped with
    | true =>
      refine .of_pure fun ks holds => ?_
      rw [append_nil]
      exact ends items ks holds
    | false =>
      refine each.bind fun a => .bind_eat nofun (.of_pure ?_) (.of_pure ?_)
      · intro ks' written ks holds
        obtain ⟨all, shorter⟩ := pushed holds written
        exact ⟨all, .inr ⟨by simp, _, (append_assoc ..).symm, shorter⟩⟩
      · intro ks' written ks holds
        obtain ⟨all, shorter⟩ := pushed holds written
        rw [append_nil]
        exact ⟨all, _, [], (append_nil _).symm, shorter, .inl rfl⟩
  · intro ks read
    obtain ⟨all, ks', last, rfl, shorter, comma⟩ := read [] ⟨forall_mem_nil _, .inl ⟨rfl, rfl⟩⟩
    refine ⟨all, ks', last ++ [close], append_assoc .., shorter, ?_⟩
    exact comma.imp (fun none => by rw [none]; rfl) fun one => by rw [one]; rfl

theorem sound_gather (stop : State → Bool) {skip : Parser Unit} (each : Sound Anywhere n item (Written formed tokens)) :
    Sound Anywhere n (gather stop item skip) fun items ks =>
      (∀ a ∈ items, formed a) ∧ Shortens ks (items.flatMap tokens) := by
  let inv (items : Array α) (ks : List TokenKind) : Prop :=
    (∀ a ∈ items.toList, formed a) ∧ Shortens ks (items.toList.flatMap tokens)
  have round (items : Array α) : Sound Anywhere n (gatherRound stop item skip items) fun l ks' => ∀ ks, inv items ks →
      l.Holds inv inv (ks ++ ks') := by
    refine .bind_look fun stops => .ite (fun _ => .of_pure fun ks holds => ?_) fun _ => .bind_attempt each fun a =>
      .of_pure fun ks' written ks ⟨all, shorter⟩ => ⟨?_, ?_⟩
    · rw [append_nil]
      exact holds
    · rw [Array.toList_push]
      exact forall_mem_append.2 ⟨all, by simpa using written.1⟩
    · rw [Array.toList_push, flatMap_append, flatMap_singleton, append_nil]
      exact shorter.append written.2
  exact .map ((Sound.iterate inv inv round (fun _ _ holds => holds) #[]).weaken fun items ks read =>
    read [] ⟨forall_mem_nil _, .refl _⟩)

end

/-! ## Types -/

section

variable {n : Nat}

theorem sound_eat {k : TokenKind} (inner : k ≠ .eof) :
    Sound Anywhere n (eat k) fun found ks => ks = if found then [k] else [] :=
  .bind_check (.bind_discard inner (.of_pure rfl)) (.of_pure rfl)

theorem sound_primitive : Sound Anywhere n primitive fun p ks => ks = [.typeName p] := by
  refine .bind_kind fun k => ?_
  cases k with
  | typeName p => exact .bind_discard nofun (.of_pure rfl)
  | identifier name =>
    exact .bind_look fun span => .bind_complain
  | _ => exact .refuse

theorem sound_arrayLength : Sound Anywhere n arrayLength fun len ks =>
    len < UInt32.size ∧ ks = if len = 0 then [] else [.intLit (.ofNat len)] := by
  refine .bind_kind fun k => ?_
  cases k with
  | intLit v =>
    refine .bind_advance nofun fun token => ?_
    split
    · rename_i small
      rw [Bool.and_eq_true, decide_eq_true_eq, decide_eq_true_eq] at small
      refine .of_pure ⟨small.2, ?_⟩
      rw [if_neg (Nat.ne_of_gt small.1), UInt64.ofNat_toNat]
    · exact .bind_complain
  | _ => exact .of_pure ⟨by decide, rfl⟩

/-- A type, as it was read: its stars stand there, however many are told apart. -/
def TypeRead (ty : Ty) (ks : List TokenKind) : Prop :=
  ∃ stars, ty.depth = min stars Ty.maxDepth ∧ ks = { ty with depth := stars }.tokens

theorem TypeRead.shortens (read : TypeRead ty ks) : Shortens ks ty.tokens := by
  obtain ⟨stars, depth, rfl⟩ := read
  obtain few | ⟨more, rfl⟩ := (Nat.le_total stars Ty.maxDepth).imp_right Nat.exists_eq_add_of_le
  · rw [Nat.min_eq_left few] at depth
    rw [← depth]
    exact .refl _
  · rw [Nat.min_eq_right (Nat.le_add_right ..)] at depth
    unfold Ty.tokens
    rw [depth]
    exact .append (.refl _) (.append (.stars ty.primitive more) (.refl _))

/-- A type without brackets, as it was read. -/
def Bare (ty : Ty) (ks : List TokenKind) : Prop :=
  ty.isArray = false ∧ ty.isWellFormed = true ∧ TypeRead ty ks

theorem Bare.pointerTo (bare : Bare ty ks) : Bare ty.pointerTo (ks ++ [.star]) := by
  obtain ⟨bare, formed, stars, depth, rfl⟩ := bare
  refine ⟨bare, ?_, stars + 1, ?_, ?_⟩
  · simp only [Ty.isWellFormed, bare, Bool.and_eq_true, decide_eq_true_eq, Bool.false_or] at formed
    have most : min (ty.depth + 1) Ty.maxDepth ≤ Ty.maxDepth := Nat.min_le_right ..
    have deep : 0 < min (ty.depth + 1) Ty.maxDepth := Nat.lt_min.2 ⟨Nat.succ_pos _, by decide⟩
    simp [Ty.isWellFormed, Ty.pointerTo, formed, most, deep, UInt32.size]
  · change min (ty.depth + 1) Ty.maxDepth = _
    omega
  · simp [Ty.tokens, Ty.pointerTo, bare, replicate_succ']

theorem Bare.arrayOf (bare : Bare ty ks) {len : Nat} (small : len < UInt32.size) :
    (ty.arrayOf len).isWellFormed = true ∧ TypeRead (ty.arrayOf len)
      (ks ++ .lBracket :: ((if len = 0 then [] else [.intLit (.ofNat len)]) ++ [.rBracket])) := by
  obtain ⟨bare, formed, stars, depth, rfl⟩ := bare
  simp only [Ty.isWellFormed, bare, Bool.and_eq_true, decide_eq_true_eq, Bool.false_or, Bool.or_false] at formed
  refine ⟨?_, stars, depth, ?_⟩
  · simp [Ty.isWellFormed, Ty.arrayOf, formed, small]
  · simp [Ty.tokens, Ty.arrayOf, bare]
    rfl

theorem bare_base (isConst : Bool) (p : Primitive) : Bare (if isConst then (Ty.scalar p).constant else Ty.scalar p)
      ((if isConst then [.kwConst] else []) ++ [.typeName p]) := by
  cases isConst with
  | false => exact ⟨rfl, by simp [Ty.isWellFormed, Ty.scalar, UInt32.size], 0, rfl, rfl⟩
  | true => exact ⟨rfl, by simp [Ty.isWellFormed, Ty.scalar, Ty.constant, UInt32.size], 0, rfl, rfl⟩

/-- A type is read with all of its stars. -/
theorem sound_typeRead : Sound Anywhere n type fun ty ks => ty.isWellFormed = true ∧ TypeRead ty ks := by
  have round (ty : Ty) : Sound Anywhere n (starRound ty) fun l ks' =>
      ∀ ks, Bare ty ks → l.Holds Bare Bare (ks ++ ks') := by
    refine .bind_eat (by simp) (.of_pure fun ks bare => bare.pointerTo) (.of_pure fun ks bare => ?_)
    rw [append_nil]
    exact bare
  refine .bind (sound_eat nofun) fun isConst => .bind sound_primitive fun p => ?_
  refine .bind (.iterate Bare Bare round (fun _ _ bare => bare) _) fun ty => ?_
  refine .bind_eat nofun (.bind sound_arrayLength fun len => .bind_expect nofun (.of_pure ?_)) (.of_pure ?_)
  · rintro _ ⟨small, rfl⟩ _ read _ rfl _ rfl
    have written := (read _ (bare_base isConst p)).arrayOf small
    rwa [append_assoc, append_assoc] at written
  · rintro _ read _ rfl _ rfl
    have written := (read _ (bare_base isConst p)).2
    rwa [append_nil, ← append_assoc]

theorem sound_type : Sound Anywhere n type (Written (Ty.isWellFormed · = true) Ty.tokens) :=
  sound_typeRead.weaken fun _ _ read => ⟨read.1, read.2.shortens⟩

end

/-! ## Expressions -/

/-- An expression of a level of precedence that nests no deeper than there is room. -/
def OfLevel (level room : Nat) : Expr → List TokenKind → Prop :=
  Written (fun e => level ≤ e.binds ∧ e.isOrdered = true ∧ e.nesting ≤ room) Expr.tokens

theorem allOrdered_iff (es : List Expr) : Expr.allOrdered es = true ↔ ∀ e ∈ es, e.isOrdered = true := by
  induction es with
  | nil => simp [Expr.allOrdered]
  | cons e es ih => simp [Expr.allOrdered, ih]

theorem nestingAll_le_iff (es : List Expr) (room : Nat) : Expr.nestingAll es ≤ room ↔ ∀ e ∈ es, e.nesting ≤ room := by
  induction es with
  | nil => simp [Expr.nestingAll]
  | cons e es ih => rw [Expr.nestingAll, Nat.max_le, ih, forall_mem_cons]

theorem ofLevel_joined {op : BinOp} {left right : Expr} {room : Nat} (first : OfLevel (max 1 op.binds) room left ks)
    (second : OfLevel (op.binds + 1) room right ks') :
    OfLevel op.binds room (joined op left right) (ks ++ op.token :: ks') := by
  obtain ⟨⟨binds, ordered, nests⟩, shorter⟩ := first
  obtain ⟨⟨binds', ordered', nests'⟩, shorter'⟩ := second
  refine ⟨⟨Nat.le_refl _, ?_, ?_⟩, ?_⟩
  · simp only [joined, Expr.isOrdered, Bool.and_eq_true, decide_eq_true_eq]
    exact ⟨⟨⟨binds, binds'⟩, ordered⟩, ordered'⟩
  · exact Nat.max_le.2 ⟨nests, nests'⟩
  · exact shorter.append (.cons _ shorter')

theorem token_ne_eof (op : BinOp) : op.token ≠ .eof := by
  cases op with
  | _ => nofun

section

variable {n level room : Nat} {operand inner : Parser Expr}

theorem sound_chain {op? : TokenKind → Option BinOp} (positive : 1 ≤ level)
    (ops : ∀ k op, op? k = some op → k = op.token ∧ op.binds = level)
    (each : ∀ m, Sound Anywhere m operand (OfLevel (level + 1) room)) :
    Sound Anywhere n (chain op? operand) (OfLevel level room) := by
  refine .bind (each n) fun first => ?_
  refine (Sound.iterate (OfLevel level room) (OfLevel level room) (fun left => .bind_kind fun k => ?_)
    (fun _ _ holds => holds) first).weaken fun e ks read ks' holds => ?_
  · cases found : op? k with
    | none =>
      refine .of_pure fun ks holds => ?_
      rw [append_nil]
      exact holds
    | some op =>
      obtain ⟨rfl, rfl⟩ := ops k op found
      refine .bind_discard (token_ne_eof op) (.map ((each _).weaken fun right ks' second ks first => ?_))
      rw [← Nat.max_eq_right positive] at first
      exact ofLevel_joined first second
  · exact read ks' ⟨⟨Nat.le_of_succ_le holds.1.1, holds.1.2⟩, holds.2⟩

theorem sound_comparison (each : ∀ m, Sound Anywhere m operand (OfLevel 3 room)) :
    Sound Anywhere n (comparison operand) (OfLevel 0 room) := by
  have sum (m : Nat) : Sound Anywhere m (chain sumOp? (chain productOp? operand)) (OfLevel 1 room) := by
    refine sound_chain (Nat.le_refl _) ?_ fun m => sound_chain (by decide) ?_ each
    · intro k op found
      cases k <;> cases found <;> exact ⟨rfl, rfl⟩
    · intro k op found
      cases k <;> cases found <;> exact ⟨rfl, rfl⟩
  refine .bind (sum n) fun left => .bind_kind fun k => ?_
  cases found : comparisonOp? k with
  | none =>
    refine .of_pure fun ks holds => ?_
    rw [append_nil]
    exact ⟨⟨Nat.zero_le _, holds.1.2⟩, holds.2⟩
  | some op =>
    have is : k = op.token ∧ op.binds = 0 := by
      cases k <;> cases found <;> exact ⟨rfl, rfl⟩
    obtain ⟨rfl, binds⟩ := is
    refine .bind_discard (token_ne_eof op) (.bind (sum _) fun right => .bind_look fun k' => ?_)
    split
    · exact .bind_refuse
    · refine .of_pure fun ks' second ks first => ?_
      rw [append_nil, ← binds]
      exact ofLevel_joined (by rwa [binds]) (by rwa [binds])

/-- Each expression of a list nests no deeper than there is room for. -/
theorem sound_exprs {close : TokenKind} (closes : close = .rParen ∨ close = .rBracket)
    (each : Sound Anywhere n inner (OfLevel 0 room)) :
    Sound Anywhere n (separated inner close) fun es ks => Expr.allOrdered es = true ∧ Expr.nestingAll es ≤ room ∧
      Shortens ks (commaSeparated (Expr.tokensAll es) ++ [close]) := by
  have inner : close ≠ .eof := by
    rintro rfl
    simp at closes
  refine (sound_separated inner each).weaken fun es ks ⟨all, closed⟩ => ?_
  rw [allOrdered_iff, nestingAll_le_iff, Expr.tokensAll_eq_map]
  exact ⟨fun e inside => (all e inside).2.1, fun e inside => (all e inside).2.2, closed.shortens closes⟩

theorem sound_primary (each : ∀ m, Sound Anywhere m inner (OfLevel 0 room)) :
    Sound Anywhere n (primary inner) (OfLevel 4 (room + 1)) := by
  have leaf {e : Expr} (binds : 4 ≤ e.binds) (ordered : e.isOrdered = true) (nests : e.nesting = 1) :
      OfLevel 4 (room + 1) e e.tokens :=
    ⟨⟨binds, ordered, nests ▸ Nat.le_add_left ..⟩, .refl _⟩
  refine .bind_look fun start => .bind_kind fun k => ?_
  cases k with
  | intLit _ | floatLit _ | stringLit _ | identifier _ =>
    exact .bind_discard nofun (.bind_look fun span => .of_pure (leaf (Nat.le_refl _) rfl rfl))
  | lParen =>
    refine .bind_discard nofun (.bind (each _) fun e => .bind_expect nofun (.bind_look fun span =>
      .of_pure fun ks holds => ?_))
    obtain ⟨⟨-, ordered, nests⟩, shorter⟩ := holds
    refine ⟨⟨Nat.le_refl _, ?_, ?_⟩, ?_⟩
    · rwa [Expr.isOrdered]
    · exact Nat.succ_le_succ nests
    · exact .cons _ (shorter.append (.refl _))
  | lBracket =>
    refine .bind_discard nofun (.bind (sound_exprs (.inr rfl) (each _)) fun es => .bind_look fun span =>
      .of_pure fun ks holds => ?_)
    obtain ⟨ordered, nests, shorter⟩ := holds
    refine ⟨⟨Nat.le_refl _, ?_, ?_⟩, ?_⟩
    · rwa [Expr.isOrdered]
    · exact Nat.succ_le_succ nests
    · rw [append_nil]
      exact .cons _ shorter
  | _ => exact .refuse

theorem sound_suffix (each : ∀ m, Sound Anywhere m inner (OfLevel 0 room)) (e : Expr) :
    Sound Anywhere n (suffix inner e) fun l ks' => ∀ ks, OfLevel 4 (room + 1) e ks →
      l.Holds (OfLevel 4 (room + 1)) (OfLevel 4 (room + 1)) (ks ++ ks') := by
  refine .bind_kind fun k => ?_
  cases k with
  | lParen =>
    cases e with
    | name callee span =>
      refine .bind_discard nofun (.bind (sound_exprs (.inl rfl) (each _)) fun es => .bind_look fun span' =>
        .of_pure fun ks holds before read => ?_)
      obtain ⟨ordered, nests, shorter⟩ := holds
      refine ⟨⟨Nat.le_refl _, ?_, ?_⟩, ?_⟩
      · rwa [Expr.isOrdered]
      · exact Nat.succ_le_succ nests
      · rw [append_nil]
        exact read.2.append (.cons _ shorter)
    | _ => exact .refuse
  | lBracket =>
    refine .bind_discard nofun (.bind (each _) fun position => .bind_expect nofun (.bind_look fun span =>
      .of_pure fun ks holds before read => ?_))
    obtain ⟨⟨-, ordered, nests⟩, shorter⟩ := holds
    obtain ⟨⟨binds, ordered', nests'⟩, shorter'⟩ := read
    refine ⟨⟨Nat.le_refl _, ?_, ?_⟩, ?_⟩
    · simp only [Expr.isOrdered, Bool.and_eq_true, decide_eq_true_eq]
      exact ⟨⟨binds, ordered'⟩, ordered⟩
    · exact Nat.max_le.2 ⟨nests', Nat.succ_le_succ nests⟩
    · exact shorter'.append (.cons _ (shorter.append (.refl _)))
  | dot =>
    refine .bind_discard nofun (.bind_ident fun field => .of_pure fun before read => ?_)
    obtain ⟨⟨binds, ordered, nests⟩, shorter⟩ := read
    refine ⟨⟨Nat.le_refl _, ?_, ?_⟩, ?_⟩
    · simp only [Expr.isOrdered, Bool.and_eq_true, decide_eq_true_eq]
      exact ⟨binds, ordered⟩
    · rwa [Expr.nesting]
    · exact shorter.append (.refl _)
  | _ =>
    refine .of_pure fun ks read => ?_
    rw [append_nil]
    exact read

theorem sound_unaryWith (operands : ∀ m, Sound Anywhere m operand (OfLevel 3 room))
    (each : ∀ m, Sound Anywhere m inner (OfLevel 0 room)) :
    Sound Anywhere n (unaryWith operand inner) (OfLevel 3 (room + 1)) := by
  refine .bind_kind fun k => ?_
  cases found : unaryOp? k with
  | none =>
    refine (Sound.bind (sound_primary each) fun e => ?_).anywhere
    refine (Sound.iterate _ _ (sound_suffix each) (fun _ _ holds => holds) e).weaken fun e' ks' read ks holds => ?_
    obtain ⟨⟨binds, formed⟩, shorter⟩ := read ks holds
    exact ⟨⟨Nat.le_of_succ_le binds, formed⟩, shorter⟩
  | some op =>
    have is : k = op.token ∧ k ≠ .eof := by
      cases k <;> cases found <;> exact ⟨rfl, nofun⟩
    obtain ⟨rfl, inner⟩ := is
    refine .bind_advance inner fun token => .map ((operands _).weaken fun e ks holds => ?_)
    obtain ⟨⟨binds, ordered, nests⟩, shorter⟩ := holds
    refine ⟨⟨Nat.le_refl _, ?_, ?_⟩, ?_⟩
    · simp only [Expr.isOrdered, Bool.and_eq_true, decide_eq_true_eq]
      exact ⟨binds, ordered⟩
    · exact Nat.succ_le_succ nests
    · exact .cons _ shorter

theorem sound_nested {post : Expr → List TokenKind → Prop} (sound : Sound Anywhere n inner post) :
    Sound Anywhere n (nested inner) post := by
  intro s _ few clean
  by_cases deep : maxNesting < s.depth + 1
  · simp only [nested, if_pos deep] at clean
    exact absurd clean State.not_clean_complain
  · simp only [nested, if_neg deep] at clean ⊢
    exact sound { s with depth := s.depth + 1 } trivial few clean

theorem sound_unaryWithin (room n : Nat) : Sound Anywhere n (unaryWithin room) (OfLevel 3 room) := by
  induction room generalizing n with
  | zero => exact .refuse
  | succ room ih => exact sound_unaryWith (fun m => sound_nested (ih m)) fun _ => sound_nested (sound_comparison ih)

theorem sound_expression : Sound Anywhere n expression (Written (Expr.isWellFormed · = true) Expr.tokens) := by
  refine (sound_nested (sound_comparison (sound_unaryWithin maxNesting))).weaken
    fun e ks ⟨⟨_, ordered, nests⟩, shorter⟩ => ⟨?_, shorter⟩
  change (e.isOrdered && decide (e.nesting ≤ maxNesting)) = true
  rw [ordered]
  exact decide_eq_true nests

end

/-! ## Statements -/

section

variable {n : Nat}

theorem sound_varDecl : Sound Anywhere n varDecl (Written (VarDecl.isWellFormed · = true) VarDecl.tokens) := by
  refine .bind_look fun start => .bind_expect nofun (.bind_ident fun name => .bind_expect nofun
    (.bind sound_type fun ty => .bind_eat nofun ?_ ?_))
  · refine .bind_map sound_expression fun init => .bind_expect nofun (.bind_look fun span => .of_pure ?_)
    rintro _ ⟨formed, shorter⟩ _ ⟨formed', shorter'⟩
    refine ⟨Bool.and_eq_true_iff.2 ⟨formed', formed⟩, ?_⟩
    exact .cons _ (.cons _ (.cons _ (shorter'.append (.append (.cons _ shorter) (.refl _)))))
  · refine .bind_expect nofun (.bind_look fun span => .of_pure ?_)
    rintro _ ⟨formed, shorter⟩
    refine ⟨Bool.and_eq_true_iff.2 ⟨formed, rfl⟩, ?_⟩
    exact .cons _ (.cons _ (.cons _ (shorter.append (.refl _))))

theorem sound_returnStmt :
    Sound (Facing .kwReturn) n returnStmt WrittenStmt := by
  refine .bind_advance nofun fun token => .bind_look fun found => ?_
  cases found with
  | true =>
    refine .bind_expect nofun (.bind_look fun span => .of_pure ⟨?_, ?_⟩)
    · simp [Stmt.isWellFormed]
    · exact .refl _
  | false =>
    refine .bind_map sound_expression fun value => .bind_expect nofun (.bind_look fun span => .of_pure ?_)
    rintro _ ⟨formed, shorter⟩
    refine ⟨?_, ?_⟩
    · simpa [Stmt.isWellFormed] using formed
    · exact .cons _ (shorter.append (.refl _))

theorem sound_exprOrAssign : Sound Anywhere n exprOrAssign WrittenStmt := by
  refine .bind sound_expression fun e => .bind_eat nofun (.bind sound_expression fun value =>
    .bind_expect nofun (.bind_look fun span => ?_)) (.bind_expect nofun (.bind_look fun span => .of_pure ?_))
  · cases assignable : e.isAssignable with
    | false => exact .bind_complain
    | true =>
      refine .of_pure ?_
      rintro _ ⟨formed, shorter⟩ _ ⟨formed', shorter'⟩
      refine ⟨?_, ?_⟩
      · simp only [Stmt.isWellFormed, Bool.and_eq_true]
        exact ⟨⟨formed', assignable⟩, formed⟩
      · exact shorter'.append (.cons _ (shorter.append (.refl _)))
  · rintro _ ⟨formed, shorter⟩
    refine ⟨?_, ?_⟩
    · simpa only [Stmt.isWellFormed] using formed
    · exact shorter.append (.refl _)

variable {block : Parser Block} {chain : Parser Conditional}

theorem sound_conditionalWith {k : TokenKind} (inner : k ≠ .eof)
    (blocks : Sound Anywhere (n - 1) block WrittenBlock)
    (chains : Sound (Facing .kwElif) (n - 1) chain (WrittenChain .kwElif)) :
    Sound (Facing k) n (conditionalWith block chain) (WrittenChain k) := by
  have built {cond : Expr} {body : Block} {otherwise : Otherwise} {span : Span} {ks ks' ks'' : List TokenKind}
      (first : Written (Expr.isWellFormed · = true) Expr.tokens cond ks)
      (second : WrittenBlock body ks')
      (third : Written (Otherwise.isWellFormed · = true) Otherwise.tokens otherwise ks'') :
      WrittenChain k (.mk cond body otherwise span)
        (k :: (ks ++ (ks' ++ ks''))) := by
    refine ⟨?_, ?_⟩
    · simp only [Conditional.isWellFormed, Bool.and_eq_true]
      exact ⟨⟨first.1, second.1⟩, third.1⟩
    · exact .cons _ (first.2.append (second.2.append third.2))
  refine .bind_advance inner fun token => .bind sound_expression fun cond => .bind blocks fun body =>
    .bind_check ?_ (.bind_eat (by simp) (.bind_look fun found => ?_) ?_)
  · refine .bind_map chains fun next => .bind_look fun span => .of_pure ?_
    rintro _ ⟨formed, shorter⟩ _ second _ first
    refine built first second ⟨?_, ?_⟩
    · simpa only [Otherwise.isWellFormed] using formed
    · rw [append_nil]
      exact shorter
  · cases found with
    | true => exact .bind_refuse
    | false =>
      refine .bind_map (blocks.fewer (Nat.sub_le ..)) fun other => .bind_look fun span => .of_pure ?_
      rintro _ ⟨formed, shorter⟩ _ second _ first
      refine built first second ⟨?_, ?_⟩
      · simpa only [Otherwise.isWellFormed] using formed
      · rw [append_nil]
        exact .cons _ shorter
  · refine .bind_pure (.bind_look fun span => .of_pure fun _ second _ first => ?_)
    refine built first second ⟨?_, ?_⟩
    · simp only [Otherwise.isWellFormed]
    · exact .refl _

theorem sound_statementWith {conditional : Parser Conditional}
    (blocks : Sound Anywhere n block WrittenBlock)
    (conditionals : Sound (Facing .kwIf) n conditional (WrittenChain .kwIf)) :
    Sound Anywhere n (statementWith block conditional) WrittenStmt := by
  refine .bind_kind fun k => ?_
  cases k with
  | kwVar =>
    refine .map (sound_varDecl.anywhere.weaken fun decl ks written => ⟨?_, ?_⟩)
    · simpa only [Stmt.isWellFormed] using written.1
    · rw [Stmt.tokens]
      exact written.2
  | kwReturn => exact sound_returnStmt
  | kwIf =>
    refine .map (conditionals.weaken fun chain ks written => ⟨?_, ?_⟩)
    · simpa only [Stmt.isWellFormed] using written.1
    · rw [Stmt.tokens]
      exact written.2
  | lBrace =>
    refine .map (blocks.anywhere.weaken fun body ks written => ⟨?_, ?_⟩)
    · simpa only [Stmt.isWellFormed] using written.1
    · rw [Stmt.tokens]
      exact written.2
  | _ => exact sound_exprOrAssign.anywhere

theorem allWellFormed_iff (stmts : List Stmt) :
    Stmt.allWellFormed stmts = true ↔ ∀ stmt ∈ stmts, stmt.isWellFormed = true := by
  induction stmts with
  | nil => simp [Stmt.allWellFormed]
  | cons stmt stmts ih => simp [Stmt.allWellFormed, ih]

theorem sound_blockWith {statement : Parser Stmt}
    (each : Sound Anywhere (n - 1) statement WrittenStmt) :
    Sound Anywhere n (blockWith statement) WrittenBlock := by
  refine .bind_look fun start => .bind_expect nofun (.bind (sound_gather _ each) fun stmts =>
    .bind_expect nofun (.bind_look fun span => .of_pure ?_))
  rintro _ ⟨formed, shorter⟩
  refine ⟨?_, ?_⟩
  · simpa only [Block.isWellFormed, allWellFormed_iff] using formed
  · rw [Block.tokens, Stmt.tokensAll_eq_flatMap]
    exact .cons _ (shorter.append (.refl _))

/-- More blocks can nest than there are tokens to come. -/
theorem sound_within (n : Nat) :
    Sound Anywhere n (blockWithin n) WrittenBlock ∧
      ∀ k ≠ .eof, Sound (Facing k) n (chainWithin n) (WrittenChain k) := by
  induction n with
  | zero => exact ⟨fun _ _ few => absurd few (Nat.not_lt_zero _), fun _ _ _ _ few => absurd few (Nat.not_lt_zero _)⟩
  | succ n ih =>
    obtain ⟨blocks, chains⟩ := ih
    exact ⟨sound_blockWith (sound_statementWith blocks (chains .kwIf nofun)),
      fun k inner => sound_conditionalWith inner blocks (chains .kwElif nofun)⟩

theorem sound_block : Sound Anywhere n Parser.block WrittenBlock :=
  fun s _ _ => (sound_within (s.rest.length + 1)).1 s trivial (Nat.lt_succ_self _)

end

/-! ## Items -/

section

variable {n : Nat}

theorem sound_stringLit : Sound Anywhere n stringLit fun text ks => ks = [.stringLit text] := by
  refine .bind_kind fun k => ?_
  cases k with
  | stringLit text => exact .bind_discard nofun (.of_pure rfl)
  | _ => exact .refuse

theorem sound_linkage (earlier : Option Linkage) : Sound (Facing .atSign) n (linkage earlier)
    (Written (fun link => link.isWellFormed = true ∧ earlier = none) Linkage.tokens) := by
  have formed {library : String} {symbol : Option String} {span : Span}
      (filled : ¬ (library.isEmpty || decide (symbol = some "")) = true) (first : ¬ earlier.isSome = true) :
      (⟨library, symbol, span⟩ : Linkage).isWellFormed = true ∧ earlier = none := by
    refine ⟨?_, Option.not_isSome_iff_eq_none.1 first⟩
    simpa [Linkage.isWellFormed] using filled
  refine .bind_advance nofun fun token => .bind_ident fun name => .ite (fun _ => .bind_refuseAt) fun named => ?_
  rw [Decidable.not_not.1 named]
  refine .bind_expect nofun (.bind sound_stringLit fun library => .bind_eat nofun
    (.bind_map sound_stringLit fun symbol => .bind_expect nofun (.bind_look fun span =>
      .ite (fun _ => .bind_refuseAt) fun filled => .ite (fun _ => .bind_refuseAt) fun first => .of_pure ?_))
    (.bind_expect nofun (.bind_look fun span =>
      .ite (fun _ => .bind_refuseAt) fun filled => .ite (fun _ => .bind_refuseAt) fun first => .of_pure ?_)))
  · rintro _ rfl _ rfl
    exact ⟨formed filled first, .refl _⟩
  · rintro _ rfl
    exact ⟨formed filled first, .refl _⟩

/-- The attributes of an item, as they were read. -/
def Linked : Option Linkage → List TokenKind → Prop :=
  Written (fun link => link.all Linkage.isWellFormed = true) fun link => (link.map Linkage.tokens).getD []

theorem sound_attributes : Sound Anywhere n attributes Linked := by
  refine (Sound.iterate Linked Linked (fun earlier => .bind_check ?_ (.of_pure ?_)) (fun _ _ holds => holds)
    none).weaken fun link ks read => read [] ⟨rfl, .refl _⟩
  · refine .map ((sound_linkage earlier).weaken fun link ks' ⟨formed, shorter⟩ ks holds => ⟨formed.1, ?_⟩)
    rw [formed.2] at holds
    exact holds.2.append shorter
  · intro ks holds
    rw [append_nil]
    exact holds

theorem sound_param : Sound Anywhere n param (Written (·.ty.isWellFormed = true) Param.tokens) := by
  refine .bind_ident fun name => .bind_expect nofun (.bind sound_type fun ty => .bind_look fun span => .of_pure ?_)
  rintro _ ⟨formed, shorter⟩
  refine ⟨formed, ?_⟩
  rw [append_nil]
  exact .cons _ (.cons _ shorter)

theorem sound_functionBody (name : Ident) (linkage : Option Linkage) : Sound Anywhere n (functionBody name linkage)
    (Written (fun body => body.all Block.isWellFormed = true ∧ (linkage.isNone || body.isNone) = true)
      fun body => (body.map Block.tokens).getD [.semicolon]) := by
  refine .bind_eat nofun (.of_pure ⟨⟨rfl, by simp⟩, .refl _⟩) (.bind sound_block fun body => ?_)
  cases linkage with
  | some link => exact .bind_complain
  | none =>
    refine .of_pure ?_
    rintro _ ⟨formed, shorter⟩
    refine ⟨⟨formed, rfl⟩, ?_⟩
    rw [append_nil]
    exact shorter

theorem shortens_result {params : List TokenKind} (closed : Closed .rParen params ks) (read : TypeRead ty ks') :
    Shortens (ks ++ .colon :: ks') (params ++ .rParen :: if ty = .void then [] else .colon :: ty.tokens) := by
  by_cases void : ty = .void
  · subst void
    obtain ⟨stars, depth, rfl⟩ := read
    obtain ⟨ks, last, rfl, shorter, closes⟩ := closed
    have none : stars = 0 := (Nat.min_eq_zero_iff.1 depth.symm).resolve_right nofun
    subst none
    rw [append_assoc]
    exact shorter.append (.result closes)
  · have both := (closed.shortens (.inl rfl)).append (.cons .colon read.shortens)
    rw [append_assoc] at both
    rwa [if_neg void]

theorem sound_function (linkage : Option Linkage) : Sound Anywhere n (function linkage) fun d ks =>
    d.linkage = linkage ∧ (linkage.all Linkage.isWellFormed = true → d.isWellFormed = true) ∧
      Shortens ks d.bareTokens := by
  have formed {name : Ident} {params : List Param} {ret : Ty} {body : Option Block} {span : Span}
      (all : ∀ p ∈ params, p.ty.isWellFormed = true) (typed : ret.isWellFormed = true)
      (bodied : body.all Block.isWellFormed = true ∧ (linkage.isNone || body.isNone) = true)
      (linked : linkage.all Linkage.isWellFormed = true) :
      (⟨name, params, ret, body, linkage, span⟩ : FunctionDecl).isWellFormed = true := by
    simp only [FunctionDecl.isWellFormed, all_eq_true.2 all, typed, bodied.1, linked, bodied.2, Bool.and_true]
  refine .bind_look fun start => .bind_expect nofun (.bind_ident fun name => .bind_expect nofun ?_)
  refine .bind (sound_separated nofun sound_param) fun params => .bind_eat nofun ?_ (.bind_pure ?_)
  · refine .bind sound_typeRead fun ret => .bind (sound_functionBody name linkage) fun body => ?_
    refine .bind_look fun span => .of_pure ?_
    rintro _ ⟨bodied, shorter⟩ _ ⟨typed, read⟩ _ ⟨all, closed⟩
    refine ⟨rfl, formed all typed bodied, .cons _ (.cons _ (.cons _ ?_))⟩
    have both := (shortens_result closed read).append shorter
    simpa only [append_assoc, cons_append, append_nil] using both
  · refine .bind (sound_functionBody name linkage) fun body => .bind_look fun span => .of_pure ?_
    rintro _ ⟨bodied, shorter⟩ _ ⟨all, closed⟩
    refine ⟨rfl, formed all rfl bodied, .cons _ (.cons _ (.cons _ ?_))⟩
    have both := (closed.shortens (.inl rfl)).append shorter
    rw [append_assoc] at both
    rw [append_nil]
    exact both

theorem shortens_constant (name : String) (read : TypeRead ty ks) :
    Shortens (.kwConst :: .identifier name :: .colon :: ks)
      (.kwConst :: .identifier name :: .colon :: { ty.constant with isConst := false }.tokens) := by
  cases const : ty.isConst with
  | false =>
    rw [show { ty.constant with isConst := false } = ty by rw [← const]; rfl]
    exact .cons _ (.cons _ (.cons _ read.shortens))
  | true =>
    obtain ⟨stars, depth, rfl⟩ := read
    have bare : TypeRead { ty with isConst := false } _ := ⟨stars, depth, rfl⟩
    rw [Ty.tokens, const]
    exact .append (.const name) bare.shortens

theorem sound_constDecl : Sound Anywhere n constDecl (Written (ConstDecl.isWellFormed · = true) ConstDecl.tokens) := by
  refine .bind_look fun start => .bind_expect nofun (.bind_ident fun name => .bind_expect nofun ?_)
  refine .bind sound_typeRead fun ty => .bind_expect nofun (.bind sound_expression fun value => ?_)
  refine .bind_expect nofun (.bind_look fun span => .of_pure ?_)
  rintro _ ⟨formed, shorter⟩ _ ⟨formed', read⟩
  refine ⟨?_, ?_⟩
  · exact Bool.and_eq_true_iff.2 ⟨Bool.and_eq_true_iff.2 ⟨formed', rfl⟩, formed⟩
  · exact (shortens_constant name.name read).append (.cons _ (shorter.append (.refl _)))

theorem sound_item : Sound Anywhere n item (Written (Item.isWellFormed · = true) Item.tokens) := by
  refine .bind sound_attributes fun link => .bind_kind fun k => ?_
  cases k with
  | kwFn =>
    refine .map ((sound_function link).anywhere.weaken fun d ks' read ks holds => ?_)
    obtain ⟨rfl, formed, shorter⟩ := read
    exact ⟨formed holds.1, holds.2.append shorter⟩
  | kwVar =>
    cases link with
    | some link => exact .bind_refuse
    | none =>
      refine .map (sound_varDecl.anywhere.weaken fun d ks' ⟨formed, shorter⟩ ks holds => ⟨formed, ?_⟩)
      exact holds.2.append shorter
  | kwConst =>
    cases link with
    | some link => exact .bind_refuse
    | none =>
      refine .map (sound_constDecl.anywhere.weaken fun d ks' ⟨formed, shorter⟩ ks holds => ⟨formed, ?_⟩)
      exact holds.2.append shorter
  | _ => exact .bind_look fun span => .bind_complain

/-- A program that is read without a complaint takes all of the tokens. -/
theorem program_shortens {s : State} (inner : ∀ token ∈ s.rest, token.kind ≠ .eof) (clean : (program s).2.Clean) :
    ∃ p, (program s).1 = some p ∧ p.isWellFormed = true ∧ Shortens (s.rest.map Token.kind) p.tokens := by
  have sound : Sound Anywhere (s.rest.length + 1) program (Written (Program.isWellFormed · = true) Program.tokens) := by
    refine .bind_look fun start => .bind (sound_gather _ sound_item) fun items => .bind_look fun span => .of_pure ?_
    rintro _ ⟨formed, shorter⟩
    rw [append_nil]
    exact ⟨all_eq_true.2 formed, shorter⟩
  have reads := sound s trivial (Nat.lt_succ_self _)
  obtain ⟨p, s', ran, stopped⟩ := exists_program s
  rw [ran] at clean reads ⊢
  obtain ⟨_, read, ⟨⟩, rest, formed, shorter⟩ := reads clean
  have finished : s'.rest = [] := by
    have limit : s'.report.atLimit = false := by
      simp only [State.Clean, Report.hasErrors, decide_eq_false_iff_not, Nat.not_lt, Nat.le_zero] at clean
      simp [Report.atLimit, clean, Report.limit]
    rw [limit, Bool.or_false, State.atEnd, decide_eq_true_eq, State.kind, State.next] at stopped
    cases here : s'.rest with
    | nil => rfl
    | cons token more =>
      rw [here] at stopped
      rw [here] at rest
      exact absurd stopped (inner token (rest ▸ mem_append_right _ (mem_cons_self ..)))
  rw [finished, append_nil] at rest
  exact ⟨p, rfl, formed, rest ▸ shorter⟩

end

end Parser

/-- A run of the parser over tokens with one end of file, behind them all, that reports nothing gives a program of the
grammar, and what is written for it are the tokens up to those that a tree does not record. -/
theorem parseTokens_shortens {source : SourceText} {tokens : List Token} {kinds : List TokenKind}
    (closed : tokens.map Token.kind = kinds ++ [.eof]) (inner : .eof ∉ kinds)
    (accepted : (parseTokens source tokens).2.hasErrors = false) :
    (parseTokens source tokens).1.isWellFormed = true ∧ Shortens kinds (parseTokens source tokens).1.tokens := by
  obtain ⟨items, last, rfl, rfl, same⟩ := List.map_eq_append_iff.1 closed
  obtain ⟨⟨_, span⟩, none, rfl, rfl, nil⟩ := List.map_eq_cons_iff.1 same
  rw [List.map_eq_nil_iff.1 nil] at accepted ⊢
  let start : Parser.State := ⟨source, .point ⟨1, 1⟩, items, span, 0, .empty⟩
  have begins : Parser.State.ofTokens source (items ++ [⟨.eof, span⟩]) = start := by
    simp [Parser.State.ofTokens, start]
  have run : ∃ program s, parseTokens source (items ++ [⟨.eof, span⟩]) = ((program : Option Program).getD ⟨[], .absent⟩,
      s.report) ∧ Parser.program start = (program, s) := by
    rw [parseTokens, begins]
    generalize Parser.program start = result
    obtain ⟨_ | p, s⟩ := result
    · exact ⟨_, _, rfl, rfl⟩
    · exact ⟨_, _, rfl, rfl⟩
  obtain ⟨p?, s, parsed, ran⟩ := run
  rw [parsed] at accepted ⊢
  have others (token : Token) (inside : token ∈ start.rest) : token.kind ≠ .eof :=
    fun same => inner (List.mem_map.2 ⟨token, inside, same⟩)
  obtain ⟨p, found, formed, shorter⟩ := Parser.program_shortens others (ran ▸ accepted)
  cases (congrArg Prod.fst ran).symm.trans found
  exact ⟨formed, shorter⟩

/-- A function with a comma behind its parameter and a result of type `Void`, and a constant of a constant type. -/
def verbose : List TokenKind :=
  [.kwFn, .identifier "f", .lParen, .identifier "a", .colon, .typeName .int, .comma, .rParen, .colon,
    .typeName .void, .lBrace, .rBrace, .kwConst, .identifier "c", .colon, .kwConst, .typeName .int, .eq, .intLit 1,
    .plus, .intLit 2, .semicolon]

theorem parseTokens_shortens_verbose : Shortens verbose [.kwFn, .identifier "f", .lParen, .identifier "a", .colon,
    .typeName .int, .rParen, .lBrace, .rBrace, .kwConst, .identifier "c", .colon, .typeName .int, .eq, .intLit 1,
    .plus, .intLit 2, .semicolon] := by
  have read : (parseTokens default ((verbose ++ [TokenKind.eof]).map (⟨·, .absent⟩))).1.tokens =
      [.kwFn, .identifier "f",
      .lParen, .identifier "a", .colon, .typeName .int, .rParen, .lBrace, .rBrace, .kwConst, .identifier "c", .colon,
      .typeName .int, .eq, .intLit 1, .plus, .intLit 2, .semicolon] := by
    decide +kernel
  rw [← read]
  exact (parseTokens_shortens (by simp [Function.comp_def]) (by decide) (by decide +kernel)).2

end RegisterLang
