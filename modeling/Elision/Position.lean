namespace Elision

/-- A place in a source text: bytes before it, and its line and column, both counted from one. A
column counts characters. -/
structure Position where
  offset : Nat
  line : Nat
  column : Nat
  deriving DecidableEq

/-- The place before the first character. -/
def Position.start : Position := ⟨0, 1, 1⟩

/-- How a place is named to a reader. -/
def Position.text (position : Position) : String :=
  toString position.line ++ ":" ++ toString position.column

/-- Whether a character ends a counted line when `ahead` follows it. A carriage return before a line
feed leaves the break to the line feed, so that the pair counts once. -/
def endsLine (c : Char) (ahead : Option Char) : Bool :=
  c = '\n' || (c = '\r' && ahead ≠ some '\n')

/-- The place behind a character when `ahead` follows it. -/
def Position.after (position : Position) (c : Char) (ahead : Option Char) : Position where
  offset := position.offset + c.utf8Size
  line := if endsLine c ahead then position.line + 1 else position.line
  column := if endsLine c ahead then 1 else position.column + 1

/-- A source text read up to some place. -/
structure Cursor where
  rest : List Char
  position : Position
  deriving DecidableEq

namespace Cursor

/-- Nothing read yet. -/
def start (source : List Char) : Cursor := ⟨source, .start⟩

/-- The character at the place, left unread. -/
def peek (cursor : Cursor) : Option Char := cursor.rest.head?

def isEof (cursor : Cursor) : Bool := cursor.rest.isEmpty

/-- Reads one character. -/
def next? (cursor : Cursor) : Option (Char × Cursor) :=
  match cursor.rest with
  | [] => none
  | c :: rest => some (c, ⟨rest, cursor.position.after c rest.head?⟩)

/-- Reads up to `count` characters. -/
def skip : Nat → Cursor → Cursor
  | 0, cursor => cursor
  | count + 1, cursor =>
    match cursor.next? with
    | none => cursor
    | some (_, behind) => skip count behind

/-- Reads up to `count` characters and keeps what was read. -/
def take (count : Nat) (cursor : Cursor) : List Char × Cursor :=
  (cursor.rest.take count, cursor.skip count)

end Cursor

end Elision
