import Elision.Text.Bytes
import Elision.Writer

namespace Elision

/-- How far a source was read: the lexemes, in order, what was written, and the text left unread
because a construct in it has no end. -/
structure Scan where
  lexemes : List Lexeme
  writer : Writer
  unread : List Char
  unclosed : Option Unclosed
  deriving DecidableEq

/-- Reads and writes lexeme by lexeme. The lexemes before stand newest first in `seen`. -/
def Writer.run (writer : Writer) (seen : List Lexeme) (source : List Char) : Scan :=
  match source with
  | [] => ⟨seen.reverse, writer, [], none⟩
  | c :: cs =>
    match closed : Lexeme.read writer.token.opensRegex c cs with
    | .error unclosed => ⟨seen.reverse, writer, c :: cs, some unclosed⟩
    | .ok got =>
      have := Lexeme.read_rest_le closed
      (writer.accept got.lexeme got.rest.head?).run (got.lexeme :: seen) got.rest
termination_by source.length
decreasing_by simp only [List.length_cons]; omega

/-- The mark that may stand before a text and says nothing about it. -/
abbrev byteOrderMark : Char := '\uFEFF'

/-- The source without a leading byte-order mark. -/
def dropMark : List Char → List Char
  | [] => []
  | c :: cs => if c = byteOrderMark then cs else c :: cs

/-- Reads a whole source and writes behind `buffer`. -/
def scan (buffer source : List Char) : Scan :=
  (Writer.start buffer).run [] (dropMark source)

/-- What the buffer holds when a scan stops. A construct without an end has been written as far as it
was read. -/
def Scan.written (scan : Scan) : List Char :=
  match scan.unclosed with
  | none => scan.writer.out.reverse
  | some unclosed =>
    scan.writer.copied (unclosed.kept scan.unread) scan.unread.tail.head? scan.unread.length

/-- The buffer behind a scan, if the scan came to the end of its source. -/
def Scan.result (scan : Scan) (source : List Char) : Except Failure (List Char) :=
  match scan.unclosed with
  | some unclosed => .error (unclosed.locate source)
  | none => .ok scan.writer.out.reverse

/-- What a run over a source comes to: the buffer with the minified source behind it, or the failure. -/
def append (buffer source : String) : Except Failure String :=
  ((scan buffer.toList source.toList).result source.toList).map String.ofList

/-- The source without its comments and without the blanks that it does not need. The result starts
with a line break. -/
def minify (source : String) : Except Failure String :=
  append "" source

/-- Minifies a source into a buffer. What a run that fails has written is cut off again, at the length
that the buffer had before. There is no answer if that cuts a character. -/
def minifyInto (buffer source : String) : Option (String × Option Failure) :=
  let mark := buffer.utf8ByteSize
  let scan := scan buffer.toList source.toList
  match scan.unclosed with
  | none => some (.ofList scan.written, none)
  | some unclosed =>
    (truncate? scan.written mark).map fun kept =>
      (.ofList kept, some (unclosed.locate source.toList))

/-- The buffer after each of the sources in turn. Nothing comes behind a source without an answer. -/
def appendEach (buffer : String) : List String → List (String × Option Failure)
  | [] => []
  | source :: sources =>
    match minifyInto buffer source with
    | none => []
    | some (buffer, failure) => (buffer, failure) :: appendEach buffer sources

end Elision
