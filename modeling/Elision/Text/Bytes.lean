namespace Elision

/-- The bytes that a text takes. -/
def byteLength (text : List Char) : Nat :=
  text.foldl (fun bytes c => bytes + c.utf8Size) 0

/-- The text behind so many bytes, unless they end inside a character. -/
def dropBytes? : Nat → List Char → Option (List Char)
  | 0, text => some text
  | _ + 1, [] => none
  | bytes + 1, c :: text =>
    if c.utf8Size ≤ bytes + 1 then dropBytes? (bytes + 1 - c.utf8Size) text else none

/-- The first so many bytes of a text, unless they end inside a character. -/
def takeBytes? : Nat → List Char → Option (List Char)
  | 0, _ => some []
  | _ + 1, [] => none
  | bytes + 1, c :: text =>
    if c.utf8Size ≤ bytes + 1 then (takeBytes? (bytes + 1 - c.utf8Size) text).map (c :: ·) else none

/-- The text cut off behind so many bytes, unless that would cut a character. A text that has no more
stays whole. -/
def truncate? (text : List Char) (bytes : Nat) : Option (List Char) :=
  if byteLength text ≤ bytes then some text else takeBytes? bytes text

end Elision
