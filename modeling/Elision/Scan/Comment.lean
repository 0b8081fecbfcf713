import Elision.CharClass
import Elision.Scan.Cut

namespace Elision

/-- Takes what follows two slashes. The character that ends the line stays. -/
def takeLineComment (taken cs : List Char) : Cut :=
  takeRun (fun c => !isLineTerminator c) taken cs

/-- Takes what follows a slash and a star, up to and with the next star and slash. -/
def takeBlockComment (taken : List Char) : List Char → Option Cut
  | [] => none
  | c :: cs =>
    if c = '*' && cs.head? = some '/' then some ⟨'/' :: c :: taken, cs.tail⟩
    else takeBlockComment (c :: taken) cs

theorem takeLineComment_text (taken cs : List Char) :
    (takeLineComment taken cs).text = taken.reverse ++ cs :=
  takeRun_text ..

theorem takeLineComment_rest_le (taken cs : List Char) :
    (takeLineComment taken cs).rest.length ≤ cs.length :=
  takeRun_rest_le ..

theorem takeBlockComment_text {taken cs : List Char} {cut : Cut}
    (closed : takeBlockComment taken cs = some cut) : cut.text = taken.reverse ++ cs := by
  fun_induction takeBlockComment taken cs with
  | case1 => simp at closed
  | case2 taken c cs closing =>
    cases closed
    cases cs with
    | nil => simp at closing
    | cons d cs => simp_all [Cut.text]
  | case3 taken c cs inner ih => simpa using ih closed

theorem takeBlockComment_rest_lt {taken cs : List Char} {cut : Cut}
    (closed : takeBlockComment taken cs = some cut) : cut.rest.length < cs.length := by
  fun_induction takeBlockComment taken cs with
  | case1 => simp at closed
  | case2 taken c cs closing => cases closed; simp only [List.length_tail, List.length_cons]; omega
  | case3 taken c cs inner ih => have := ih closed; simp only [List.length_cons]; omega

end Elision
