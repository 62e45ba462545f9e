/-! # Regions of source text

A span is a pair of positions, both inclusive. Lines and columns start at one and columns count
bytes of the UTF-8 text.
-/

namespace RegisterLang

structure Position where
  line : Nat
  col : Nat
  deriving DecidableEq, Repr, Inhabited

namespace Position

/-- Positions are ordered by line, then by column. -/
def before (a b : Position) : Bool :=
  a.line < b.line || (a.line == b.line && a.col < b.col)

/-- The earlier of two positions, the first one when they agree. -/
def earlier (a b : Position) : Position :=
  if b.before a then b else a

/-- The later of two positions, the first one when they agree. -/
def later (a b : Position) : Position :=
  if a.before b then b else a

/-- Where the next character stands after `c` was read at `p`. -/
def after (p : Position) (c : Char) : Position :=
  if c = '\n' then ⟨p.line + 1, 1⟩ else ⟨p.line, p.col + c.utf8Size⟩

/-- Where the next character stands after a whole text was read at `p`. -/
def afterAll (p : Position) (text : List Char) : Position :=
  text.foldl after p

end Position

structure Span where
  start : Position
  stop : Position
  deriving DecidableEq, Repr, Inhabited

namespace Span

def ofLines (startLine startCol stopLine stopCol : Nat) : Span :=
  ⟨⟨startLine, startCol⟩, ⟨stopLine, stopCol⟩⟩

def point (p : Position) : Span :=
  ⟨p, p⟩

/-- The span of an absent thing: no line has number zero. -/
def absent : Span :=
  ofLines 0 0 0 0

/-- The smallest span that covers both. -/
def cover (a b : Span) : Span :=
  ⟨a.start.earlier b.start, a.stop.later b.stop⟩

/-- The span from `start` to the last byte read before `next`. A region never ends in column zero, so
one that stops right after a line break ends in column one of the new line. -/
def upTo (start next : Position) : Span :=
  ⟨start, ⟨next.line, max (next.col - 1) 1⟩⟩

def text (s : Span) : String :=
  s!"{s.start.line}:{s.start.col}"

end Span

end RegisterLang
