import Elision.CharClass

namespace Elision

/-- The last whole token, as far as it decides how a slash, a dot or a sign behind it is read. -/
inductive Token
  | start
  /-- An identifier or keyword. It is a property if a dot stands before it. -/
  | word (text : List Char) (property : Bool)
  | number (text : List Char)
  /-- A string or template. -/
  | literal
  | regex
  /-- A closing bracket or parenthesis. -/
  | closer
  /-- A doubled sign. -/
  | increment
  | punct (c : Char)
  deriving DecidableEq

/-- The words behind which an operand is still to come. -/
def operandKeywords : List (List Char) :=
  ["return", "typeof", "instanceof", "in", "of", "new", "delete", "void", "throw", "case", "do",
    "else", "yield", "await"].map String.toList

/-- Whether the text of a number is octal in the old spelling, which takes no fraction. -/
def isLegacyOctal (text : List Char) : Bool :=
  1 < text.length && text.head? = some '0' && text.all (· ≤ '7')

/-- Whether the text of a number takes a dot behind it as its decimal point: a decimal integer with
no fraction, exponent, radix or suffix. -/
def isPlainInteger (text : List Char) : Bool :=
  text ≠ [] && text.all (fun c => c.isDigit || c = '_') && !isLegacyOctal text

/-- Whether the text of a number takes a sign behind it into its exponent. The `e` of a hexadecimal
number is a digit. -/
def awaitsExponentSign (text : List Char) : Bool :=
  !(['0', 'x'].isPrefixOf text || ['0', 'X'].isPrefixOf text) &&
    (text.getLast? = some 'e' || text.getLast? = some 'E')

/-- Whether the text of a number goes on with a character that stands right behind it. -/
def numberGoesOn (text : List Char) (c : Char) : Bool :=
  if c = '.' then isPlainInteger text
  else if c = '+' || c = '-' then awaitsExponentSign text
  else isLetterLike c

namespace Token

/-- The token with one more character, if it goes on with it. Only words and numbers do. -/
def extend? (token : Token) (c : Char) : Option Token :=
  match token with
  | .word text property => if isLetterLike c then some (.word (text ++ [c]) property) else none
  | .number text => if numberGoesOn text c then some (.number (text ++ [c])) else none
  | _ => none

/-- The token that begins with a character behind `token`. A dot right before a digit has been
recorded already and becomes part of the number. -/
def follow (token : Token) (c : Char) (glued : Bool) : Token :=
  if c.isDigit then .number (if glued && token = .punct '.' then ['.', c] else [c])
  else if isLetterLike c then .word [c] (token = .punct '.')
  else if c = ')' || c = ']' then .closer
  else if (c = '+' || c = '-') && glued && token = .punct c then .increment
  else .punct c

/-- The last token behind one more character of code. It is `glued` when nothing was elided before
it. -/
def push (token : Token) (c : Char) (glued : Bool) : Token :=
  if glued then (token.extend? c).getD (token.follow c glued) else token.follow c glued

/-- Whether a slash behind the token opens a regular expression. It divides only behind an operand.
A closing brace may end a block or an object, and is taken for the end of a block. -/
def opensRegex : Token → Bool
  | .start | .punct _ => true
  | .word text property => !property && text ∈ operandKeywords
  | .number _ | .literal | .regex | .closer | .increment => false

/-- Whether the token takes a dot behind it as its decimal point. -/
def isPlainInteger : Token → Bool
  | .number text => Elision.isPlainInteger text
  | _ => false

/-- Whether the token takes this sign behind it into its exponent. -/
def absorbsSign (token : Token) (c : Char) : Bool :=
  match token with
  | .number text => (c = '+' || c = '-') && awaitsExponentSign text
  | _ => false

end Token

end Elision
