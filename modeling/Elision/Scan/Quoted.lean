import Elision.Scan.Cut

namespace Elision

/-- Takes what follows an opening quote, up to and with the quote that closes it. A backslash takes
the next character with it, whatever that is; the end of a line has no effect. -/
def takeQuoted (quote : Char) (taken : List Char) : List Char → Option Cut
  | [] => none
  | c :: cs =>
    if c = '\\' then
      match cs with
      | [] => none
      | escaped :: cs => takeQuoted quote (escaped :: c :: taken) cs
    else if c = quote then some ⟨c :: taken, cs⟩
    else takeQuoted quote (c :: taken) cs

theorem takeQuoted_text {quote : Char} {taken cs : List Char} {cut : Cut}
    (closed : takeQuoted quote taken cs = some cut) : cut.text = taken.reverse ++ cs := by
  fun_induction takeQuoted quote taken cs with
  | case1 => simp at closed
  | case2 => simp at closed
  | case3 taken escaped cs ih => simpa using ih closed
  | case4 taken cs plain => cases closed; simp [Cut.text]
  | case5 taken c cs plain other ih => simpa using ih closed

theorem takeQuoted_rest_lt {quote : Char} {taken cs : List Char} {cut : Cut}
    (closed : takeQuoted quote taken cs = some cut) : cut.rest.length < cs.length := by
  fun_induction takeQuoted quote taken cs with
  | case1 => simp at closed
  | case2 => simp at closed
  | case3 taken escaped cs ih => have := ih closed; simp only [List.length_cons]; omega
  | case4 taken cs plain => cases closed; simp
  | case5 taken c cs plain other ih => have := ih closed; simp only [List.length_cons]; omega

end Elision
