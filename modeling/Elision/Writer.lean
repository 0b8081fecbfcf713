import Elision.Lexeme

namespace Elision

/-- The state between two lexemes: the text written so far, newest first, the last character kept,
what was elided since, and the last token. -/
structure Writer where
  out : List Char
  last : Option Retained
  gap : Gap
  token : Token
  deriving DecidableEq

namespace Writer

/-- A writer that goes on behind `buffer`. Each source starts on a line of its own. -/
def start (buffer : List Char) : Writer where
  out := '\n' :: buffer.reverse
  last := none
  gap := .empty
  token := .start

/-- Whether the next character kept is the first, or stands right behind the last one. -/
def isGlued (writer : Writer) : Bool :=
  writer.last = none || writer.gap = .empty

/-- Whether `next` would complete the opener of a markup comment, `<!--`, if it stood right behind
`last`. The character behind `next` is `ahead`. -/
def opensMarkupComment (writer : Writer) (last next : Char) (ahead : Option Char) : Bool :=
  ahead = some '-' &&
    ((last = '<' && next = '!') ||
      (last = '!' && next = '-' && ['!', '<'].isPrefixOf writer.out))

/-- What is written between the last character kept and `next`, where the source has `ahead` behind
`next`. Where two characters could stand side by side, a number must still not take a sign into its
exponent or a dot as its decimal point, and no markup comment may open. -/
def joint (writer : Writer) (next : Char) (ahead : Option Char) : List Char :=
  match writer.last with
  | none => []
  | some last =>
    if writer.gap = .empty then []
    else
      match Separator.between last next writer.gap with
      | .nothing =>
        if writer.token.absorbsSign next then [' ']
        else if next = '.' && writer.token.isPlainInteger then ['.']
        else if writer.opensMarkupComment last.char next ahead then [' ']
        else []
      | separator => separator.text

/-- Writes a lexeme that is kept. -/
def keep (writer : Writer) (lexeme : Lexeme) (ahead : Option Char) : Writer where
  out := lexeme.text.reverse ++ (writer.joint lexeme.first ahead).reverse ++ writer.out
  last := some lexeme.last
  gap := .empty
  token := lexeme.track writer.token writer.isGlued

/-- What stands in the output when `count` characters of a text that is kept have been read. The text
is written while it is read, and with its first character what joins it to the text before. -/
def copied (writer : Writer) (text : List Char) (ahead : Option Char) (count : Nat) : List Char :=
  match text.take count with
  | [] => writer.out.reverse
  | c :: taken => writer.out.reverse ++ writer.joint c ahead ++ c :: taken

/-- Takes the next lexeme of the source, which has `ahead` behind it. -/
def accept (writer : Writer) (lexeme : Lexeme) (ahead : Option Char) : Writer :=
  match lexeme.gap? with
  | some gap => { writer with gap := writer.gap.widen gap }
  | none => writer.keep lexeme ahead

end Writer

end Elision
