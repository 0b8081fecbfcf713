import Elision.Scan.Comment
import Elision.Scan.Quoted
import Elision.Scan.Regex
import Elision.Unclosed

namespace Elision

/-- One level of nesting in a template literal: its text, or the code of a substitution with the
number of braces open in it. -/
inductive Frame
  | text
  | code (depth : Nat)
  deriving DecidableEq

/-- Whether a slash in a substitution opens a regular expression behind this character of code. -/
def expectsOperand (c : Char) : Bool :=
  !(isLetterLike c || c = ')' || c = ']')

/-- Takes what follows an opening backtick, up to and with the backtick that closes the template.
The frames still open stand innermost first. Code in a substitution is read only as far as needed to
tell which backticks and braces count, and `operand` says whether a slash would open a regular
expression. A string or regular expression left open inside is reported by itself; anything else
that is cut off is reported as `unclosed`. -/
def takeTemplate (unclosed : Unclosed) (frames : List Frame) (operand : Bool) (taken : List Char)
    (cs : List Char) : Except Unclosed Cut :=
  match frames, cs with
  | [], cs => .ok ⟨taken, cs⟩
  | _ :: _, [] => .error unclosed
  | frame :: outer, c :: cs =>
    if c = '\\' then
      match cs with
      | [] => .error unclosed
      | escaped :: cs => takeTemplate unclosed (frame :: outer) operand (escaped :: c :: taken) cs
    else
      match frame with
      | .text =>
        if c = backtick then takeTemplate unclosed outer false (c :: taken) cs
        else if c = '$' && cs.head? = some leftBrace then
          takeTemplate unclosed (.code 0 :: .text :: outer) true (leftBrace :: c :: taken) cs.tail
        else takeTemplate unclosed (.text :: outer) operand (c :: taken) cs
      | .code depth =>
        if classify c = .whitespace || isLineTerminator c then
          takeTemplate unclosed (.code depth :: outer) operand (c :: taken) cs
        else if c = backtick then
          takeTemplate unclosed (.text :: .code depth :: outer) operand (c :: taken) cs
        else if classify c = .quote then
          match closed : takeQuoted c (c :: taken) cs with
          | none => .error ⟨.string, c :: cs⟩
          | some cut =>
            have := takeQuoted_rest_lt closed
            takeTemplate unclosed (.code depth :: outer) false cut.taken cut.rest
        else if c = '/' then
          if cs.head? = some '/' then
            have := takeLineComment_rest_le ('/' :: c :: taken) cs.tail
            takeTemplate unclosed (.code depth :: outer) operand
              (takeLineComment ('/' :: c :: taken) cs.tail).taken
              (takeLineComment ('/' :: c :: taken) cs.tail).rest
          else if cs.head? = some '*' then
            match closed : takeBlockComment ('*' :: c :: taken) cs.tail with
            | none => .error unclosed
            | some cut =>
              have := takeBlockComment_rest_lt closed
              takeTemplate unclosed (.code depth :: outer) operand cut.taken cut.rest
          else if operand then
            match closed : takeRegex (c :: taken) cs with
            | none => .error ⟨.regex, c :: cs⟩
            | some cut =>
              have := takeRegex_rest_lt closed
              takeTemplate unclosed (.code depth :: outer) false cut.taken cut.rest
          else takeTemplate unclosed (.code depth :: outer) true (c :: taken) cs
        else if c = leftBrace then
          takeTemplate unclosed (.code (depth + 1) :: outer) true (c :: taken) cs
        else if c = rightBrace then
          match depth with
          | 0 => takeTemplate unclosed outer false (c :: taken) cs
          | depth + 1 => takeTemplate unclosed (.code depth :: outer) false (c :: taken) cs
        else takeTemplate unclosed (.code depth :: outer) (expectsOperand c) (c :: taken) cs
termination_by cs.length
decreasing_by
  all_goals simp only [List.length_cons, List.length_tail] at *
  all_goals omega

theorem takeTemplate_text {unclosed : Unclosed} {frames : List Frame} {operand : Bool}
    {taken cs : List Char} {cut : Cut}
    (closed : takeTemplate unclosed frames operand taken cs = .ok cut) :
    cut.text = taken.reverse ++ cs := by
  fun_induction takeTemplate unclosed frames operand taken cs with
  | case1 => cases closed; rfl
  | case2 | case3 | case10 | case13 | case15 => cases closed
  | case4 | case5 | case7 | case8 | case9 | case17 | case18 | case19 | case20 | case21 =>
    rename_i ih
    simpa using ih closed
  | case6 _ _ _ _ _ _ _ opening ih =>
    simp only [Bool.and_eq_true, decide_eq_true_eq] at opening
    obtain ⟨rest, rfl⟩ := List.head?_eq_some_iff.mp opening.2
    simpa using ih closed
  | case11 _ _ _ _ _ _ _ _ _ _ _ string _ ih =>
    have inner := takeQuoted_text string
    simp only [Cut.text] at inner
    simpa [inner] using ih closed
  | case12 _ _ _ _ _ opening _ _ _ _ _ ih =>
    obtain ⟨rest, rfl⟩ := List.head?_eq_some_iff.mp opening
    have inner := takeLineComment_text
    simp only [Cut.text] at inner
    simpa [inner] using ih closed
  | case14 _ _ _ _ _ _ opening _ _ _ _ _ comment _ ih =>
    obtain ⟨rest, rfl⟩ := List.head?_eq_some_iff.mp opening
    have inner := takeBlockComment_text comment
    simp only [Cut.text] at inner
    simpa [inner] using ih closed
  | case16 _ _ _ _ _ _ _ _ _ _ _ regex _ ih =>
    have inner := takeRegex_text regex
    simp only [Cut.text] at inner
    simpa [inner] using ih closed

end Elision
