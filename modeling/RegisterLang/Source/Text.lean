import RegisterLang.Source.Span

/-! # Named source texts

A source text keeps the name under which diagnostics report it. Its lines are numbered from one and
are separated by line feeds; carriage returns at the end of a line do not belong to it.
-/

namespace RegisterLang

structure SourceText where
  name : String
  text : String
  deriving DecidableEq, Repr, Inhabited

namespace SourceText

/-- What follows the first `n` line feeds of a text, if it has that many. -/
def afterLines : Nat → List Char → Option (List Char)
  | 0, text => some text
  | _ + 1, [] => none
  | n + 1, c :: text => if c = '\n' then afterLines n text else afterLines (n + 1) text

def trimReturns (line : List Char) : List Char :=
  (line.reverse.dropWhile (· = '\r')).reverse

def line? (source : SourceText) : Nat → Option String
  | 0 => none
  | n + 1 =>
    (afterLines n source.text.toList).map fun text =>
      String.ofList (trimReturns (text.takeWhile (· ≠ '\n')))

/-- How many lines a text has; an empty text has one. -/
def lineCount (source : SourceText) : Nat :=
  source.text.toList.count '\n' + 1

end SourceText

end RegisterLang
