import Kelt.Lib.PyInt

/-!
# Looking for a pattern in a text

The pieces that `re.search` is put together from for patterns that need no
backtracking: a run of characters of one kind, a literal, white space. `search`
tries a pattern at every position, the first one first. `words` is `str.split`
without an argument.
-/

namespace Kelt

section Scan

/-- The result at the first position where the pattern matches. -/
def search {α : Type} (pattern : Text → Option α) : Text → Option α
  | [] => pattern []
  | c :: rest => (pattern (c :: rest)).or (search pattern rest)

/-- `\d` -/
def isDecimal (c : Char) : Bool :=
  (decimalValue? c).isSome

/-- `[\d.]` -/
def isFigure (c : Char) : Bool :=
  isDecimal c || c = '.'

/-- One or more characters of a kind, and what follows them. -/
def takeRun (p : Char → Bool) (t : Text) : Option (Text × Text) :=
  if (t.takeWhile p).isEmpty then none
  else some (t.takeWhile p, t.dropWhile p)

/-- What follows a literal. -/
def dropLiteral (literal t : Text) : Option Text :=
  if literal.isPrefixOf t then some (t.drop literal.length) else none

/-- `\s+` -/
def dropBlanks (t : Text) : Option Text :=
  (takeRun isBlank t).map (·.2)

/-- `text.split()` -/
def words (text : Text) : List Text :=
  (text.splitOnP isBlank).filter (fun word => !word.isEmpty)

end Scan

end Kelt
