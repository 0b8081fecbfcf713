namespace Elision

/-- Where a scan stopped: the characters it took, newest first, and those it left. -/
structure Cut where
  taken : List Char
  rest : List Char
  deriving DecidableEq

/-- The text on both sides of the cut. A scan only moves the cut, so this never changes. -/
def Cut.text (cut : Cut) : List Char := cut.taken.reverse ++ cut.rest

/-- Takes characters as long as they are `wanted`. -/
def takeRun (wanted : Char → Bool) (taken : List Char) : List Char → Cut
  | [] => ⟨taken, []⟩
  | c :: cs => if wanted c then takeRun wanted (c :: taken) cs else ⟨taken, c :: cs⟩

theorem takeRun_text (wanted : Char → Bool) (taken cs : List Char) :
    (takeRun wanted taken cs).text = taken.reverse ++ cs := by
  fun_induction takeRun wanted taken cs with
  | case1 => rfl
  | case2 taken c cs good ih => simp [ih]
  | case3 => rfl

theorem takeRun_rest_le (wanted : Char → Bool) (taken cs : List Char) :
    (takeRun wanted taken cs).rest.length ≤ cs.length := by
  fun_induction takeRun wanted taken cs with
  | case1 => exact Nat.le_refl _
  | case2 taken c cs good ih => simp only [List.length_cons]; omega
  | case3 => exact Nat.le_refl _

end Elision
