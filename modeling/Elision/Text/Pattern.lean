import Elision.CharClass

namespace Elision

/-- Whether a character may stand behind the backslash of a pattern: a mark, which then stands for
itself, or the letter of a control character or of an end of the text. -/
def isEscape (c : Char) : Bool :=
  (0x21 ≤ c.toNat && c.toNat ≤ 0x7e && !c.isAlphanum) || c ∈ ['a', 'f', 't', 'n', 'r', 'v', 'A', 'z']

/-- Whether a pattern is well formed from here on. There are `groups` parentheses and `classes`
brackets open; `operand` says whether there is something to repeat, and `fresh` whether a class has
just been opened, so that a closing bracket is one of its members. -/
def patternGoesOn (groups classes : Nat) (operand fresh : Bool) : List Char → Bool
  | [] => groups = 0 && classes = 0
  | '\\' :: text =>
    match text with
    | [] => false
    | c :: text => isEscape c && patternGoesOn groups classes true false text
  | '[' :: '^' :: text => patternGoesOn groups (classes + 1) operand true text
  | '[' :: text => patternGoesOn groups (classes + 1) operand true text
  | c :: text =>
    if 0 < classes then
      if c = ']' && !fresh then patternGoesOn groups (classes - 1) true false text
      else patternGoesOn groups classes operand false text
    else if c = '(' then
      match text with
      | '?' :: ':' :: text => patternGoesOn (groups + 1) 0 false false text
      | text => patternGoesOn (groups + 1) 0 false false text
    else if c = ')' then 0 < groups && patternGoesOn (groups - 1) 0 true false text
    else if c = '*' || c = '+' || c = '?' then operand && patternGoesOn groups 0 true false text
    else if c = '|' then patternGoesOn groups 0 false false text
    else c ≠ leftBrace && patternGoesOn groups 0 true false text

/-- Whether a text is a well-formed pattern: groups and classes are closed, and what is repeated is
there. Counted repetition is not known. -/
def isPattern (text : List Char) : Bool :=
  patternGoesOn 0 0 false false text

end Elision
