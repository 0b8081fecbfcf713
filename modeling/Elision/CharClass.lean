namespace Elision

/-- The lexical class of one character of source text, or of its end. -/
inductive CharClass
  | letter
  | punctuator
  | quote
  | slash
  | whitespace
  | newline
  | eof
  | other
  deriving DecidableEq

/-- The brackets around a block of code, and around a substitution behind its dollar sign. -/
abbrev leftBrace : Char := '\x7b'
abbrev rightBrace : Char := '\x7d'

abbrev doubleQuote : Char := '\x22'
abbrev singleQuote : Char := '\x27'

/-- The quote that opens and closes a template literal. -/
abbrev backtick : Char := '\x60'

/-- The quotes that open and close a literal copied as it stands. -/
def quotes : List Char := [doubleQuote, singleQuote, backtick]

/-- Operators and brackets. The slash is left out: it may also open a comment or a regular
expression. -/
def punctuators : List Char :=
  [leftBrace, rightBrace, '(', ')', '[', ']', ';', ',', '.', '<', '>', '=', '+', '-', '*', '%', '&',
    '|', '^', '!', '~', '?', ':']

/-- The class of a character. A backslash counts as a letter, since it starts an escape in an
identifier, and so does every character beyond ASCII. -/
def classify (c : Char) : CharClass :=
  if c.isAlphanum || c = '_' || c = '$' || c = '\\' then .letter
  else if c ∈ quotes then .quote
  else if c = '/' then .slash
  else if c = '\n' || c = '\r' then .newline
  else if c.toNat ≤ 0x20 || c.toNat = 0x7f then .whitespace
  else if c ∈ punctuators then .punctuator
  else if 0x80 ≤ c.toNat then .letter
  else .other

/-- The slash has a class of its own. -/
theorem eq_slash_of_classify {c : Char} (slash : classify c = .slash) : c = '/' := by
  unfold classify at slash
  grind

/-- The class of what stands at a place of the text, where `none` is its end. -/
def CharClass.of : Option Char → CharClass
  | none => .eof
  | some c => classify c

/-- Whether a character can stand inside an identifier, a keyword or a number. -/
def isLetterLike (c : Char) : Bool :=
  classify c = .letter

/-- Whether a character must stay apart from a letter beside it. Besides the letters these are the
marks of private names and decorators. -/
def isWordLike (c : Char) : Bool :=
  classify c = .letter || classify c = .other

/-- Whether a character ends a line of the program. The two Unicode separators do so too, although
their class is that of letters. -/
def isLineTerminator (c : Char) : Bool :=
  c = '\n' || c = '\r' || c = '\u2028' || c = '\u2029'

end Elision
