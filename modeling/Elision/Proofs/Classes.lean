import Elision.Gap

namespace Elision

@[simp] theorem classify_slash : classify '/' = .slash := rfl

@[simp] theorem classify_backtick : classify backtick = .quote := rfl

theorem classify_eq_quote_iff {c : Char} :
    classify c = .quote ↔ c = doubleQuote ∨ c = singleQuote ∨ c = backtick := by
  constructor
  · intro quote
    unfold classify at quote
    grind [quotes]
  · rintro (rfl | rfl | rfl) <;> rfl

theorem isLineTerminator_of_quote {c : Char} (quote : classify c = .quote) :
    isLineTerminator c = false := by
  rcases classify_eq_quote_iff.mp quote with rfl | rfl | rfl <;> rfl

theorem isLineTerminator_of_isAlpha {c : Char} (alpha : c.isAlpha = true) :
    isLineTerminator c = false := by
  by_cases lineEnd : isLineTerminator c = true
  · simp only [isLineTerminator, Bool.or_eq_true, decide_eq_true_eq] at lineEnd
    rcases lineEnd with ((rfl | rfl) | rfl) | rfl <;> cases alpha
  · simpa using lineEnd

theorem classify_eq_newline_iff {c : Char} : classify c = .newline ↔ c = '\n' ∨ c = '\r' := by
  constructor
  · intro newline
    unfold classify at newline
    grind
  · rintro (rfl | rfl) <;> rfl

theorem ne_of_isLetterLike {c d : Char} (letter : isLetterLike c = true)
    (other : isLetterLike d = false) : c ≠ d := by
  intro same
  rw [same, other] at letter
  cases letter

end Elision
