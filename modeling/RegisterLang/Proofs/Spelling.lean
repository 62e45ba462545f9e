import Mathlib.Data.Nat.Digits.Defs
import RegisterLang.Token.Scan

/-! # Spelling and scanning

Kinds of tokens are spelled by writing one token behind the other, with blanks and comments between them.
Main statement: `scan_spelled`, the scanner reads every spelling back and has nothing to complain about.
-/

namespace RegisterLang

open List Scan

/-- The kinds that are always spelled the same way. No word names the unknown type. -/
def TokenKind.isFixed : TokenKind → Bool
  | intLit _ | floatLit _ | stringLit _ | identifier _ | typeName .unknown | eof => false
  | _ => true

namespace Spelling

variable {text behind word rest : List Char} {c : Char} {kind : TokenKind} {p : Char → Bool}

/-- Behind blanks and complete comments a text goes on with `rest`. A comment up to the end of its line is
also complete at the end of the text. -/
inductive Skips (rest : List Char) : List Char → Prop
  | none : Skips rest rest
  | blank {c : Char} {text : List Char} : c.isWhitespace = true → Skips rest text → Skips rest (c :: text)
  | line {body text : List Char} : '\n' ∉ body → Skips rest text →
      Skips rest ('/' :: '/' :: (body ++ '\n' :: text))
  | last {body : List Char} : '\n' ∉ body → rest = [] → Skips rest ('/' :: '/' :: body)
  | block {body text : List Char} : ¬ ['*', '/'] <:+: body → Skips rest text →
      Skips rest ('/' :: '*' :: (body ++ '*' :: '/' :: text))

/-- A character stands for a digit of the base, in either case. -/
def IsDigit (base digit : Nat) (c : Char) : Prop :=
  digit < base ∧ (c = digit.digitChar ∨ c = digit.digitChar.toUpper)

/-- A text has the digits of a number, the highest one first. -/
def Writes (base n : Nat) (text : List Char) : Prop :=
  ∃ digits, digits ≠ [] ∧ digits.Forall₂ (IsDigit base) text ∧ Nat.ofDigits base digits.reverse = n

def isWordStart (c : Char) : Bool :=
  c.isAlpha || c = '_'

def isWordChar (c : Char) : Bool :=
  c.isAlphanum || c = '_'

/-- How a string literal shows a character. -/
def shown : Char → List Char
  | '\"' => ['\\', '\"']
  | '\\' => ['\\', '\\']
  | '\n' => ['\\', 'n']
  | '\t' => ['\\', 't']
  | '\r' => ['\\', 'r']
  | '\x00' => ['\\', '0']
  | c => [c]

/-- The ways to write one token. -/
inductive Spells : TokenKind → List Char → Prop
  | fixed {kind : TokenKind} : kind.isFixed = true → Spells kind kind.text.toList
  | name {c : Char} {rest : List Char} : isWordStart c = true → (∀ d ∈ rest, isWordChar d = true) →
      (∀ kind : TokenKind, kind.isFixed = true → kind.text ≠ String.ofList (c :: rest)) →
      Spells (.identifier (String.ofList (c :: rest))) (c :: rest)
  | decimal {n : UInt64} {text : List Char} : Writes 10 n.toNat text → Spells (.intLit n) text
  | hex {n : UInt64} {mark : Char} {text : List Char} : mark = 'x' ∨ mark = 'X' → Writes 16 n.toNat text →
      Spells (.intLit n) ('0' :: mark :: text)
  | string (text : String) :
      Spells (.stringLit text) ('\"' :: (text.toList.flatMap shown ++ ['\"']))

/-- Nothing follows, or a blank. -/
def Apart (behind : List Char) : Prop :=
  ∀ c ∈ behind.head?, c.isWhitespace = true

/-- The ways to write tokens one behind the other. -/
inductive Spelled : List TokenKind → List Char → Prop
  | done {text : List Char} : Skips [] text → Spelled [] text
  | more {kind : TokenKind} {kinds : List TokenKind} {word behind text : List Char} :
      Skips (word ++ behind) text → Spells kind word → Apart behind → Spelled kinds behind →
      Spelled (kind :: kinds) text

/-! ## Characters -/

theorem isAlpha_eq (c : Char) : c.isAlpha = (('A' ≤ c && c ≤ 'Z') || ('a' ≤ c && c ≤ 'z')) := by
  rw [← Bool.decide_and]
  rfl

theorem isWordStart_eq (c : Char) : Scan.isWordStart c = isWordStart c := by
  rw [Scan.isWordStart, isWordStart, isAlpha_eq, Bool.or_comm (decide ('A' ≤ c) && _)]

theorem isWordChar_eq (c : Char) : Scan.isWordChar c = isWordChar c := by
  rw [Scan.isWordChar, isWordStart_eq, isWordStart, isWordChar, Bool.or_right_comm]
  rfl

theorem eq_of_blank (blank : c.isWhitespace = true) : c = ' ' ∨ c = '\t' ∨ c = '\r' ∨ c = '\n' := by
  simpa only [Char.isWhitespace, Bool.or_eq_true, decide_eq_true_eq, or_assoc] using blank

theorem eq_false_of_blank (blanks : [' ', '\t', '\r', '\n'].all (!p ·) = true) (blank : c.isWhitespace = true) :
    p c = false := by
  simp only [all_cons, all_nil, Bool.and_true, Bool.and_eq_true, Bool.not_eq_true'] at blanks
  obtain rfl | rfl | rfl | rfl := eq_of_blank blank
  exacts [blanks.1, blanks.2.1, blanks.2.2.1, blanks.2.2.2]

/-- Characters that are read as long as a condition holds end where the token ends. -/
theorem takeWhile_apart (blanks : [' ', '\t', '\r', '\n'].all (!p ·) = true) (all : ∀ c ∈ word, p c = true)
    (apart : Apart behind) : (word ++ behind).takeWhile p = word ∧ (word ++ behind).dropWhile p = behind := by
  rw [takeWhile_append_of_pos all, dropWhile_append_of_pos all]
  cases behind with
  | nil => simp
  | cons c behind =>
    have other := eq_false_of_blank blanks (apart c rfl)
    simp [other]

/-! ## Blanks and comments -/

theorem blockComment_append {body : List Char} (plain : ¬ ['*', '/'] <:+: body) (text : List Char) :
    ∀ pos, ∃ next, blockComment pos (body ++ '*' :: '/' :: text) = (true, ⟨next, text⟩) := by
  induction body with
  | nil => exact fun pos => ⟨_, rfl⟩
  | cons c body ih =>
    intro pos
    obtain ⟨next, ends⟩ := ih (fun within => plain (within.trans (suffix_cons c body).isInfix)) (pos.after c)
    refine ⟨next, (blockComment.eq_3 pos c _ ?_).trans ends⟩
    rintro rest rfl follows
    cases body with
    | nil => simp at follows
    | cons d body =>
      obtain ⟨rfl, -⟩ := cons.inj follows
      exact plain (prefix_append ['*', '/'] body).isInfix

theorem dropWhile_line {body : List Char} (line : '\n' ∉ body) (text : List Char) :
    (body ++ text).dropWhile (· ≠ '\n') = text.dropWhile (· ≠ '\n') :=
  dropWhile_append_of_pos fun _ inside => decide_eq_true fun same => line (same ▸ inside)

/-- Neither a blank nor a comment opens a text. -/
def Stops (text : List Char) : Prop :=
  ∀ bound pos, triviaWithin bound ⟨pos, text⟩ [] = (⟨pos, text⟩, [])

theorem stops_nil : Stops [] := by
  intro bound pos
  cases bound <;> rfl

theorem stops_cons (blank : c.isWhitespace = false) (slash : c ≠ '/') (text : List Char) : Stops (c :: text) := by
  intro bound pos
  cases bound with
  | nil => rfl
  | cons _ bound =>
    unfold triviaWithin
    split
    · rename_i same
      exact absurd (cons.inj same).1 slash
    · rename_i same
      exact absurd (cons.inj same).1 slash
    · rename_i same
      obtain ⟨rfl, rfl⟩ := cons.inj same
      exact if_neg (Bool.eq_false_iff.1 blank)
    · rfl

theorem stops_of_class (blanks : [' ', '\t', '\r', '\n'].all (!p ·) = true) (slash : p '/' = false)
    (holds : p c = true) (text : List Char) : Stops (c :: text) := by
  refine stops_cons (Bool.eq_false_iff.2 fun blank => ?_) ?_ text
  · cases holds.symm.trans (eq_false_of_blank blanks blank)
  · rintro rfl
    cases holds.symm.trans slash

theorem triviaWithin_blank (blank : c.isWhitespace = true) (x : Char) (bound text : List Char) (pos : Position) :
    triviaWithin (x :: bound) ⟨pos, c :: text⟩ [] = triviaWithin bound ⟨pos.after c, text⟩ [] := by
  obtain rfl | rfl | rfl | rfl := eq_of_blank blank <;> rfl

theorem triviaWithin_line (x : Char) (bound text : List Char) (pos : Position) :
    triviaWithin (x :: bound) ⟨pos, '/' :: '/' :: text⟩ [] =
      triviaWithin bound (lineComment pos ('/' :: '/' :: text)) [] :=
  rfl

theorem triviaWithin_block {x : Char} {bound : List Char} {pos : Position} {next : Cursor}
    (ends : blockComment (pos.afterAll ['/', '*']) text = (true, next)) :
    triviaWithin (x :: bound) ⟨pos, '/' :: '*' :: text⟩ [] = triviaWithin bound next [] := by
  simp only [triviaWithin, ends]

theorem triviaWithin_skips (skips : Skips rest text) (stops : Stops rest) :
    ∀ {bound : List Char} (pos : Position), text.length ≤ bound.length →
      ∃ next, triviaWithin bound ⟨pos, text⟩ [] = (⟨next, rest⟩, []) := by
  induction skips with
  | none => exact fun pos _ => ⟨pos, stops _ pos⟩
  | blank blank _ ih =>
    rintro (_ | ⟨x, bound⟩) pos long
    · cases long
    · rw [triviaWithin_blank blank]
      exact ih _ (Nat.le_of_succ_le_succ long)
  | @line body text line _ ih =>
    rintro (_ | ⟨x, _ | ⟨y, bound⟩⟩) pos long
    · cases long
    · simp at long
    · have slashes : '\n' ∉ '/' :: '/' :: body := by simpa using line
      have ends : ('/' :: '/' :: (body ++ '\n' :: text)).dropWhile (· ≠ '\n') = '\n' :: text :=
        dropWhile_line slashes ('\n' :: text)
      rw [triviaWithin_line, lineComment, ends, Cursor.past]
      refine ih _ ?_
      simp only [length_cons, length_append] at long
      omega
  | @last body line nil =>
    subst nil
    rintro (_ | ⟨x, bound⟩) pos long
    · cases long
    · have slashes : '\n' ∉ '/' :: '/' :: body := by simpa using line
      have ends := dropWhile_line slashes []
      rw [append_nil] at ends
      rw [triviaWithin_line, lineComment, ends]
      exact ⟨_, stops _ _⟩
  | @block body text plain _ ih =>
    rintro (_ | ⟨x, bound⟩) pos long
    · cases long
    · obtain ⟨next, ends⟩ := blockComment_append plain text (pos.afterAll ['/', '*'])
      rw [triviaWithin_block ends]
      refine ih _ ?_
      simp only [length_cons, length_append] at long
      omega

theorem trivia_skips (skips : Skips rest text) (stops : Stops rest) (pos : Position) :
    ∃ next, trivia ⟨pos, text⟩ = (⟨next, rest⟩, []) :=
  triviaWithin_skips skips stops pos le_rfl

/-! ## Tokens -/

/-- The scanner reads a token of a kind and has nothing to complain about. -/
structure Reads (kind : TokenKind) (text rest : List Char) : Prop where
  stops : Stops text
  lexeme : ∀ pos, ∃ next, lexeme? pos text = some ⟨kind, ⟨next, rest⟩, []⟩

theorem isDigit_wordStart (start : isWordStart c = true) : isDigit c = false := by
  simp only [isWordStart, isAlpha_eq, Bool.or_eq_true, decide_eq_true_eq, Bool.and_eq_true, Char.le_def,
    UInt32.le_iff_toNat_le] at start
  rw [Bool.eq_false_iff, Ne, isDigit, Bool.and_eq_true, decide_eq_true_eq, decide_eq_true_eq,
    Char.le_def, Char.le_def, UInt32.le_iff_toNat_le]
  rintro ⟨-, low⟩
  obtain (⟨high, -⟩ | ⟨high, -⟩) | rfl := start
  · exact absurd (high.trans low) (by decide)
  · exact absurd (high.trans low) (by decide)
  · exact absurd low (by decide)

theorem reads_word (start : isWordStart c = true) (all : ∀ d ∈ word, isWordChar d = true) (apart : Apart behind) :
    Reads ((TokenKind.ofWord? (String.ofList (c :: word))).getD (.identifier (String.ofList (c :: word))))
      (c :: word ++ behind) behind := by
  have letters : ∀ d ∈ c :: word, Scan.isWordChar d = true := by
    rintro d (_ | ⟨_, inside⟩)
    · rw [Scan.isWordChar, isWordStart_eq, start, Bool.true_or]
    · exact (isWordChar_eq d).trans (all d inside)
  obtain ⟨taken, dropped⟩ := takeWhile_apart (by decide) letters apart
  rw [cons_append] at taken dropped ⊢
  refine ⟨stops_of_class (by decide) rfl start _, fun pos => ⟨pos.afterAll (c :: word), ?_⟩⟩
  have quote : c ≠ '\"' := by
    rintro rfl
    cases start
  rw [Scan.lexeme?, if_neg quote, if_neg (Bool.eq_false_iff.1 (isDigit_wordStart start)),
    if_pos ((isWordStart_eq c).trans start), Scan.word, taken, dropped]
  rfl

theorem isFixed_of_ofWord? {name : String} (reserved : TokenKind.ofWord? name = some kind) :
    kind.isFixed = true ∧ kind.text = name := by
  unfold TokenKind.ofWord? at reserved
  split at reserved
  iterate 7
    cases reserved
    exact ⟨rfl, rfl⟩
  obtain ⟨primitive, named, rfl⟩ := Option.map_eq_some_iff.1 reserved
  unfold Primitive.ofName? at named
  split at named
  iterate 6
    cases named
    exact ⟨rfl, rfl⟩
  cases named

theorem reads_reserved (reserved : TokenKind.ofWord? kind.text = some kind)
    (letters : kind.text.toList.all isWordStart = true) (some : kind.text.toList ≠ []) (apart : Apart behind) :
    Reads kind (kind.text.toList ++ behind) behind := by
  obtain ⟨c, word, same⟩ := exists_cons_of_ne_nil some
  rw [same, all_cons, Bool.and_eq_true, all_eq_true] at letters
  have all : ∀ d ∈ word, isWordChar d = true := by
    intro d inside
    rw [isWordChar, Char.isAlphanum, Bool.or_right_comm]
    exact Bool.or_eq_true_iff.2 (.inl (letters.2 d inside))
  have reads := reads_word letters.1 all apart
  rw [← same, String.ofList_toList, reserved] at reads
  exact reads

theorem reads_fixed (fixed : kind.isFixed = true) (apart : Apart behind) :
    Reads kind (kind.text.toList ++ behind) behind := by
  cases kind with
  | intLit | floatLit | stringLit | identifier | eof => cases fixed
  | kwFn | kwVar | kwConst | kwReturn | kwIf | kwElif | kwElse =>
    exact reads_reserved rfl (by decide) (by decide) apart
  | typeName primitive =>
    cases primitive with
    | unknown => cases fixed
    | _ => exact reads_reserved rfl (by decide) (by decide) apart
  | slash | eq | bang | less | greater =>
    -- another character behind these marks would make a comment or a longer mark
    have stops : behind = [] ∨ ∃ c rest, behind = c :: rest ∧ c.isWhitespace = true := by
      cases behind with
      | nil => exact .inl rfl
      | cons c rest => exact .inr ⟨c, rest, rfl, apart c rfl⟩
    obtain rfl | ⟨c, rest, rfl, blank⟩ := stops
    · exact ⟨fun bound pos => by cases bound <;> rfl, fun pos => ⟨_, rfl⟩⟩
    · obtain rfl | rfl | rfl | rfl := eq_of_blank blank <;>
        exact ⟨fun bound pos => by cases bound <;> rfl, fun pos => ⟨_, rfl⟩⟩
  | _ => exact ⟨stops_cons rfl (by decide) _, fun pos => ⟨_, rfl⟩⟩

theorem all_of_forall₂ {digits : List Nat} {r : Nat → Char → Prop} (same : digits.Forall₂ r text)
    (holds : ∀ d c, r d c → p c = true) : ∀ c ∈ text, p c = true := by
  induction same with
  | nil => nofun
  | cons here _ ih => exact forall_mem_cons.2 ⟨holds _ _ here, ih⟩

theorem hexValue?_digit {base digit : Nat} (small : base ≤ 16) (is : IsDigit base digit c) :
    hexValue? c = some digit := by
  have table : ∀ d < 16, hexValue? d.digitChar = some d ∧ hexValue? d.digitChar.toUpper = some d := by
    decide
  obtain ⟨below, rfl | rfl⟩ := is
  exacts [(table _ (below.trans_le small)).1, (table _ (below.trans_le small)).2]

theorem isDigit_digit {digit : Nat} (is : IsDigit 10 digit c) : isDigit c = true := by
  have table : ∀ d < 10, isDigit d.digitChar = true ∧ isDigit d.digitChar.toUpper = true := by decide
  obtain ⟨below, rfl | rfl⟩ := is
  exacts [(table _ below).1, (table _ below).2]

theorem number_writes {base n : Nat} (small : base ≤ 16) (writes : Writes base n text) :
    number base text = n := by
  obtain ⟨digits, -, same, rfl⟩ := writes
  rw [Nat.ofDigits_eq_foldr, foldr_reverse]
  suffices folds : ∀ start, text.foldl (fun n c => n * base + (hexValue? c).getD 0) start =
      digits.foldl (fun n d => d + base * n) start from folds 0
  induction same with
  | nil => exact fun _ => rfl
  | cons is _ ih =>
    intro start
    rw [foldl_cons, ih, hexValue?_digit small is, Nat.mul_comm, Nat.add_comm]
    rfl

theorem Writes.ne_nil {base n : Nat} (writes : Writes base n text) : text ≠ [] := by
  obtain ⟨digits, some, same, -⟩ := writes
  rintro rfl
  cases same
  exact some rfl

theorem reads_decimal {n : UInt64} (writes : Writes 10 n.toNat text) (apart : Apart behind) :
    Reads (.intLit n) (text ++ behind) behind := by
  have value := number_writes (by decide) writes
  obtain ⟨c, more, rfl⟩ := exists_cons_of_ne_nil writes.ne_nil
  obtain ⟨digits, -, same, -⟩ := writes
  have all := all_of_forall₂ same fun _ _ => isDigit_digit
  have digit := all c (mem_cons_self ..)
  obtain ⟨taken, dropped⟩ := takeWhile_apart (by decide) all apart
  have decimal (mark : Char) (other : isDigit mark = false) (space : mark.isWhitespace = false)
      (rest : List Char) : more ++ behind ≠ mark :: rest := by
    intro marked
    cases more with
    | nil =>
      subst marked
      cases space.symm.trans (apart mark rfl)
    | cons d more =>
      obtain ⟨rfl, -⟩ := cons.inj marked
      cases other.symm.trans (all d (mem_cons_of_mem _ (mem_cons_self ..)))
  have quote : c ≠ '\"' := by
    rintro rfl
    cases digit
  refine ⟨stops_of_class (by decide) rfl digit _, fun pos => ⟨pos.afterAll (c :: more), ?_⟩⟩
  have literal : numberLiteral pos (c :: (more ++ behind)) =
      decimalLiteral pos (c :: (more ++ behind)) := by
    refine numberLiteral.eq_3 _ _ ?_ ?_
    · intro rest same
      exact decimal _ rfl rfl rest (cons.inj same).2
    · intro rest same
      exact decimal _ rfl rfl rest (cons.inj same).2
  rw [cons_append] at taken dropped ⊢
  rw [lexeme?, if_neg quote, if_pos digit, literal]
  simp only [decimalLiteral, taken, dropped, value, if_pos n.toNat_lt_size, UInt64.ofNat_toNat]
  split
  · cases apart _ rfl
  · rfl

theorem reads_hex {n : UInt64} {mark : Char} (marks : mark = 'x' ∨ mark = 'X') (writes : Writes 16 n.toNat text)
    (apart : Apart behind) : Reads (.intLit n) ('0' :: mark :: text ++ behind) behind := by
  have value := number_writes (by decide) writes
  have some := writes.ne_nil
  obtain ⟨digits, -, same, -⟩ := writes
  have all := all_of_forall₂ same fun _ _ is => Option.isSome_of_mem (hexValue?_digit (by decide) is)
  obtain ⟨taken, -⟩ := takeWhile_apart (p := fun c => (hexValue? c).isSome) (by decide) all apart
  refine ⟨stops_cons rfl (by decide) _, fun pos => ⟨pos.afterAll ('0' :: mark :: text), ?_⟩⟩
  have literal : lexeme? pos ('0' :: mark :: text ++ behind) =
      Option.some (hexLiteral pos mark (text ++ behind)) := by
    obtain rfl | rfl := marks <;> rfl
  have valid : ¬ (text.isEmpty || decide (UInt64.size ≤ n.toNat)) = true := by
    simpa [some] using n.toNat_lt_size
  rw [literal, hexLiteral]
  simp only [taken, value, if_neg valid, UInt64.ofNat_toNat, drop_left]
  rfl

theorem stringBody_shown (start : Position) (behind text : List Char) :
    ∀ pos acc, ∃ next, stringBody start pos acc [] (text.flatMap shown ++ '\"' :: behind) =
      ⟨text.reverse ++ acc, ⟨next, behind⟩, []⟩ := by
  induction text with
  | nil => exact fun pos acc => ⟨_, rfl⟩
  | cons c text ih =>
    intro pos acc
    rw [reverse_cons, append_assoc, flatMap_cons, append_assoc]
    unfold shown
    split
    iterate 6 exact ih _ _
    rename_i quote backslash newline _ _ _
    rw [singleton_append, stringBody.eq_6 _ _ _ _ _ _ quote (fun _ _ same => absurd same backslash)
      (fun same => absurd same backslash) newline]
    exact ih _ _

theorem reads_string (text : String) :
    Reads (.stringLit text) ('\"' :: (text.toList.flatMap shown ++ ['\"']) ++ behind) behind := by
  refine ⟨stops_cons rfl (by decide) _, fun pos => ?_⟩
  obtain ⟨next, body⟩ := stringBody_shown pos behind text.toList (pos.after '\"') []
  refine ⟨next, ?_⟩
  rw [cons_append, append_assoc, singleton_append, lexeme?, stringLiteral, body]
  simp

theorem Spells.reads {kind : TokenKind} {word behind : List Char} (spells : Spells kind word)
    (apart : Apart behind) : Reads kind (word ++ behind) behind := by
  cases spells with
  | fixed fixed => exact reads_fixed fixed apart
  | @name c rest start all free =>
    have reads := reads_word start all apart
    cases reserved : TokenKind.ofWord? (String.ofList (c :: rest)) with
    | none => rwa [reserved] at reads
    | some kind => exact absurd (isFixed_of_ofWord? reserved).2 (free kind (isFixed_of_ofWord? reserved).1)
  | decimal writes => exact reads_decimal writes apart
  | hex marks writes => exact reads_hex marks writes apart
  | string text => exact reads_string text

/-! ## Whole texts -/

theorem Skips.length_le (skips : Skips rest text) : rest.length ≤ text.length := by
  induction skips with
  | none => exact le_rfl
  | last _ nil => simp [nil]
  | blank | line | block =>
    simp only [length_cons, length_append]
    omega

theorem Spells.ne_nil (spells : Spells kind word) : word ≠ [] := by
  cases spells with
  | fixed fixed =>
    cases kind with
    | intLit | floatLit | stringLit | identifier | eof => cases fixed
    | typeName primitive => cases primitive <;> decide
    | _ => decide
  | decimal writes => exact writes.ne_nil
  | name | hex | string => exact cons_ne_nil _ _

theorem tokensWithin_end {source : SourceText} {cur : Cursor} {next : Position}
    (skipped : trivia cur = (⟨next, []⟩, [])) (bound : List Char) (tokens : Array Token) :
    tokensWithin source bound cur tokens .empty = (tokens.push ⟨.eof, .point next⟩, .empty) := by
  unfold tokensWithin
  rw [skipped]
  cases bound <;> rfl

theorem tokensWithin_token {source : SourceText} {cur next : Cursor} {here : Position}
    (skipped : trivia cur = (⟨here, text⟩, [])) (lexed : lexeme? here text = some ⟨kind, next, []⟩)
    (x : Char) (bound : List Char) (tokens : Array Token) :
    ∃ span, tokensWithin source (x :: bound) cur tokens .empty =
      tokensWithin source bound next (tokens.push ⟨kind, span⟩) .empty := by
  cases text with
  | nil => cases lexed
  | cons c text =>
    refine ⟨.upTo here next.pos, ?_⟩
    rw [tokensWithin, skipped]
    simp only [lexed]
    rfl

theorem tokensWithin_spelled (source : SourceText) {kinds : List TokenKind} (spelled : Spelled kinds text) :
    ∀ {bound : List Char} (pos : Position) (tokens : Array Token), text.length ≤ bound.length →
      ∃ more, tokensWithin source bound ⟨pos, text⟩ tokens .empty = (more, .empty) ∧
        more.toList.map (·.kind) = tokens.toList.map (·.kind) ++ kinds ++ [.eof] := by
  induction spelled with
  | done skips =>
    intro bound pos tokens long
    obtain ⟨next, skipped⟩ := trivia_skips skips stops_nil pos
    refine ⟨_, tokensWithin_end skipped bound tokens, ?_⟩
    simp
  | @more kind kinds word behind text skips spells apart _ ih =>
    intro bound pos tokens long
    obtain ⟨stops, lexeme⟩ := spells.reads apart
    obtain ⟨here, skipped⟩ := trivia_skips skips stops pos
    obtain ⟨next, lexed⟩ := lexeme here
    have shorter := skips.length_le
    have some := length_pos_iff.2 spells.ne_nil
    rw [length_append] at shorter
    cases bound with
    | nil =>
      simp only [length_nil] at long
      omega
    | cons x bound =>
      simp only [length_cons] at long
      obtain ⟨span, goes⟩ := tokensWithin_token skipped lexed x bound tokens
      have fits : behind.length ≤ bound.length := by omega
      obtain ⟨tokens', scanned, same⟩ := ih next (tokens.push ⟨kind, span⟩) fits
      refine ⟨tokens', goes.trans scanned, ?_⟩
      simp [same]

end Spelling

open Spelling in
/-- The scanner reads every spelling of kinds of tokens back: it finds nothing wrong, and its tokens are of
those kinds, with the end of the text behind them. -/
theorem scan_spelled {source : SourceText} {kinds : List TokenKind} (spelled : Spelled kinds source.text.toList) :
    (scan source).2 = .empty ∧ (scan source).1.toList.map (·.kind) = kinds ++ [.eof] := by
  obtain ⟨tokens, scanned, same⟩ := tokensWithin_spelled source spelled ⟨1, 1⟩ #[] le_rfl
  rw [scan, scanned]
  exact ⟨rfl, same⟩

theorem scan_spelled_commented : (scan ⟨"x", "x /*/ */= 0x1F \"\\n\" // x"⟩).2 = .empty ∧
      (scan ⟨"x", "x /*/ */= 0x1F \"\\n\" // x"⟩).1.toList.map (·.kind) =
        [.identifier "x", .eq, .intLit 31, .stringLit "\n", .eof] := by
  have free : ∀ kind : TokenKind, kind.isFixed = true → kind.text ≠ String.ofList ['x'] := by
    intro kind fixed
    cases kind with
    | intLit | floatLit | stringLit | identifier | eof => cases fixed
    | typeName primitive => cases primitive <;> decide
    | _ => decide
  have writes : Spelling.Writes 16 31 ['1', 'F'] :=
    ⟨[1, 15], by decide, .cons ⟨by decide, .inl rfl⟩ (.cons ⟨by decide, .inr rfl⟩ .nil), rfl⟩
  have apart : ∀ behind, Spelling.Apart (' ' :: behind) := by
    rintro behind _ ⟨⟩
    rfl
  have last : Spelling.Spelled [.stringLit "\n"] " \"\\n\" // x".toList :=
    .more (.blank rfl .none) (.string "\n") (apart _) (.done (.blank rfl (.last (by decide) rfl)))
  have second : Spelling.Spelled [.eq, .intLit 31, .stringLit "\n"] " /*/ */= 0x1F \"\\n\" // x".toList :=
    .more (.blank rfl (@Spelling.Skips.block _ ['/', ' '] _ (by decide) .none)) (.fixed rfl) (apart _)
      (.more (.blank rfl .none) (.hex (n := 31) (.inl rfl) writes) (apart _) last)
  exact scan_spelled (.more .none (.name rfl (List.forall_mem_nil _) free) (apart _) second)

end RegisterLang
