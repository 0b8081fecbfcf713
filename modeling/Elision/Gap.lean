import Elision.CharClass

namespace Elision

/-- What was elided since the last retained character. Only the widest part counts: whether there
was any text, and whether a line ended in it. -/
inductive Gap
  | empty
  | blank
  | lineBreak
  deriving DecidableEq

/-- The wider of two gaps. -/
def Gap.widen : Gap → Gap → Gap
  | .lineBreak, _ | _, .lineBreak => .lineBreak
  | .blank, _ | _, .blank => .blank
  | .empty, .empty => .empty

/-- The last character kept. A letter behind a slash that closes a regular expression would be read
as its flag, so such a slash is marked. -/
structure Retained where
  char : Char
  closesRegex : Bool
  deriving DecidableEq

def Retained.isWordLike (last : Retained) : Bool :=
  last.closesRegex || Elision.isWordLike last.char

/-- Whether a statement may end behind this character. -/
def Retained.endsStatement (last : Retained) : Bool :=
  last.closesRegex || classify last.char = .letter || classify last.char = .quote ||
    last.char ∈ [rightBrace, ']', ')', '+', '-']

/-- Whether a statement may begin with this character. -/
def startsStatement (next : Char) : Bool :=
  classify next ∈ [.letter, .quote, .slash, .other] ||
    next ∈ [leftBrace, '[', '(', '+', '-', '!', '~']

/-- Whether two characters that stood apart would be read differently side by side: two words would
become one, two signs an increment, a slash would open a comment. Two marks such as `#` and `@` need
no room between themselves. -/
def Retained.mustStayApart (last : Retained) (next : Char) : Bool :=
  if last.isWordLike && Elision.isWordLike next then
    last.closesRegex || isLetterLike last.char || isLetterLike next
  else
    (last.char, next) ∈ [('+', '+'), ('-', '-'), ('/', '/'), ('/', '*')]

/-- What is written in place of a gap. -/
inductive Separator
  | nothing
  | space
  | newline
  deriving DecidableEq

def Separator.text : Separator → List Char
  | .nothing => []
  | .space => [' ']
  | .newline => ['\n']

/-- What keeps two characters apart, given the gap between them. A line break is also kept where it
may end one statement and begin another. -/
def Separator.between (last : Retained) (next : Char) : Gap → Separator
  | .empty => .nothing
  | .blank => if last.mustStayApart next then .space else .nothing
  | .lineBreak =>
    if last.mustStayApart next || (last.endsStatement && startsStatement next) then .newline
    else .nothing

end Elision
