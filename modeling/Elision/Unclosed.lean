import Elision.CharClass
import Elision.Position

namespace Elision

/-- What can be left open in a source text. -/
inductive Construct
  | comment
  | string
  | regex
  deriving DecidableEq

/-- How a construct is named to a reader. -/
def Construct.text : Construct → String
  | .comment => "comment"
  | .string => "string literal"
  | .regex => "regular expression literal"

/-- A construct found open by a scan, with the text from its opening delimiter on. -/
structure Unclosed where
  construct : Construct
  opener : List Char
  deriving DecidableEq

/-- What is kept of a text in which a construct is found open: nothing of a comment, and of a regular
expression only what stands before the end of its line. -/
def Unclosed.kept (unclosed : Unclosed) (text : List Char) : List Char :=
  match unclosed.construct with
  | .comment => []
  | .string => text
  | .regex =>
    text.take (text.length - unclosed.opener.length) ++
      unclosed.opener.takeWhile (!isLineTerminator ·)

/-- A construct that a source text leaves open, and where it was opened. -/
structure Failure where
  construct : Construct
  start : Position
  deriving DecidableEq

def Failure.message (failure : Failure) : String :=
  "unterminated " ++ failure.construct.text ++ " starting at " ++ failure.start.text

/-- Finds the opening delimiter of an unclosed construct in its source. -/
def Unclosed.locate (unclosed : Unclosed) (source : List Char) : Failure where
  construct := unclosed.construct
  start := ((Cursor.start source).skip (source.length - unclosed.opener.length)).position

end Elision
