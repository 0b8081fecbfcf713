import Elision.CharClass
import Elision.Scan.Cut

namespace Elision

/-- Takes what follows an opening slash, up to and with the slash that closes the regular
expression. Inside a class in brackets a slash is an ordinary character. The line must not end
first. -/
def takeRegexBody (inClass : Bool) (taken : List Char) : List Char → Option Cut
  | [] => none
  | c :: cs =>
    if isLineTerminator c then none
    else if c = '\\' then
      match cs with
      | [] => none
      | escaped :: cs =>
        if isLineTerminator escaped then none
        else takeRegexBody inClass (escaped :: c :: taken) cs
    else if c = '[' then takeRegexBody true (c :: taken) cs
    else if c = ']' then takeRegexBody false (c :: taken) cs
    else if c = '/' && !inClass then some ⟨c :: taken, cs⟩
    else takeRegexBody inClass (c :: taken) cs

/-- Takes the letters behind a closed regular expression. -/
def takeFlags (taken cs : List Char) : Cut :=
  takeRun Char.isAlpha taken cs

/-- Takes what follows an opening slash: the body, the closing slash and the flags. -/
def takeRegex (taken cs : List Char) : Option Cut :=
  (takeRegexBody false taken cs).map fun body => takeFlags body.taken body.rest

theorem takeRegexBody_text {inClass : Bool} {taken cs : List Char} {cut : Cut}
    (closed : takeRegexBody inClass taken cs = some cut) : cut.text = taken.reverse ++ cs := by
  fun_induction takeRegexBody inClass taken cs with
  | case1 | case2 | case3 | case4 => simp at closed
  | case5 inClass taken _ escaped cs _ ih => simpa using ih closed
  | case6 inClass taken cs _ _ ih => simpa using ih closed
  | case7 inClass taken cs _ _ _ ih => simpa using ih closed
  | case8 => cases closed; simp [Cut.text]
  | case9 inClass taken c cs _ _ _ _ _ ih => simpa using ih closed

theorem takeRegexBody_rest_lt {inClass : Bool} {taken cs : List Char} {cut : Cut}
    (closed : takeRegexBody inClass taken cs = some cut) : cut.rest.length < cs.length := by
  fun_induction takeRegexBody inClass taken cs with
  | case1 | case2 | case3 | case4 => simp at closed
  | case5 inClass taken _ escaped cs _ ih =>
    have := ih closed; simp only [List.length_cons]; omega
  | case6 inClass taken cs _ _ ih => have := ih closed; simp only [List.length_cons]; omega
  | case7 inClass taken cs _ _ _ ih => have := ih closed; simp only [List.length_cons]; omega
  | case8 => cases closed; simp
  | case9 inClass taken c cs _ _ _ _ _ ih =>
    have := ih closed; simp only [List.length_cons]; omega

theorem takeRegex_text {taken cs : List Char} {cut : Cut} (closed : takeRegex taken cs = some cut) :
    cut.text = taken.reverse ++ cs := by
  obtain ⟨body, atBody, rfl⟩ := Option.map_eq_some_iff.mp closed
  exact (takeRun_text ..).trans (takeRegexBody_text atBody)

theorem takeRegex_rest_lt {taken cs : List Char} {cut : Cut}
    (closed : takeRegex taken cs = some cut) : cut.rest.length < cs.length := by
  obtain ⟨body, atBody, rfl⟩ := Option.map_eq_some_iff.mp closed
  exact Nat.lt_of_le_of_lt (takeRun_rest_le ..) (takeRegexBody_rest_lt atBody)

end Elision
