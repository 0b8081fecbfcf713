import Elision.Minify
import Elision.Text.Bytes

namespace Elision

/-- What a scan tells about a source, with the bytes before the place it speaks of. -/
inductive Event
  | regexLiteral (offset : Nat)
  | blockComment (offset : Nat) (multiline : Bool)
  deriving DecidableEq

/-- The events up to some place, newest first, and the bytes before that place. -/
structure Trace where
  offset : Nat
  events : List Event
  deriving DecidableEq

namespace Trace

/-- Before the first lexeme of a source. -/
def start (source : List Char) : Trace :=
  ⟨if source.head? = some byteOrderMark then byteOrderMark.utf8Size else 0, []⟩

/-- Behind one more lexeme. Only regular expressions and block comments are told of. -/
def step (trace : Trace) (lexeme : Lexeme) : Trace where
  offset := trace.offset + byteLength lexeme.text
  events :=
    match lexeme with
    | .regex _ _ => .regexLiteral trace.offset :: trace.events
    | .blockComment tail => .blockComment trace.offset (tail.any isLineTerminator) :: trace.events
    | _ => trace.events

end Trace

/-- Whether a scan gave up in a regular expression of its own, not in one inside a template. -/
def Scan.failsInRegex (scan : Scan) : Bool :=
  scan.unread.head? = some '/' && scan.unclosed.any (·.construct = .regex)

/-- The events of a scan, in order. A regular expression is told of when it opens, a comment when it
is closed. -/
def Scan.events (scan : Scan) (source : List Char) : List Event :=
  let trace := scan.lexemes.foldl Trace.step (.start source)
  (if scan.failsInRegex then .regexLiteral trace.offset :: trace.events else trace.events).reverse

end Elision
