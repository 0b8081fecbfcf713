import Elision.Lexeme

namespace Elision

/-- What may follow an opening quote, up to and with the first quote that closes it. -/
inductive QuotedTail (quote : Char) : List Char → Prop
  | close : quote ≠ '\\' → QuotedTail quote [quote]
  | escape {c cs} : QuotedTail quote cs → QuotedTail quote ('\\' :: c :: cs)
  | plain {c cs} : c ≠ '\\' → c ≠ quote → QuotedTail quote cs → QuotedTail quote (c :: cs)

/-- What may follow the slash of a regular expression, up to and with the slash that closes it.
The line does not end in it, and a slash does not close it inside a class in brackets. -/
inductive RegexTail : Bool → List Char → Prop
  | close : RegexTail false ['/']
  | escape {inClass c cs} : isLineTerminator c = false → RegexTail inClass cs →
      RegexTail inClass ('\\' :: c :: cs)
  | openClass {inClass cs} : RegexTail true cs → RegexTail inClass ('[' :: cs)
  | closeClass {inClass cs} : RegexTail false cs → RegexTail inClass (']' :: cs)
  | plain {inClass c cs} : isLineTerminator c = false → c ∉ ['\\', '[', ']'] →
      (c = '/' → inClass = true) → RegexTail inClass cs → RegexTail inClass (c :: cs)

/-- What may follow the slash and the star of a comment, up to and with the first star and slash. -/
inductive BlockTail : List Char → Prop
  | close : BlockTail ['*', '/']
  | plain {c cs} : ¬(c = '*' ∧ cs.head? = some '/') → BlockTail cs → BlockTail (c :: cs)

theorem RegexTail.ne_nil {inClass : Bool} {cs : List Char} (tail : RegexTail inClass cs) :
    cs ≠ [] := by
  cases tail <;> simp

theorem QuotedTail.getLast?_eq {quote : Char} {cs : List Char} (tail : QuotedTail quote cs) :
    cs.getLast? = some quote := by
  induction tail with
  | close => rfl
  | escape _ ih | plain _ _ _ ih => simp [List.getLast?_cons, ih]

theorem RegexTail.getLast?_eq {inClass : Bool} {cs : List Char} (tail : RegexTail inClass cs) :
    cs.getLast? = some '/' := by
  induction tail with
  | close => rfl
  | escape _ _ ih | openClass _ ih | closeClass _ ih | plain _ _ _ _ ih =>
    simp [List.getLast?_cons, ih]

theorem takeQuoted_eq_some_iff {quote : Char} {taken cs : List Char} {cut : Cut} :
    takeQuoted quote taken cs = some cut ↔
      ∃ part, QuotedTail quote part ∧ cs = part ++ cut.rest ∧
        cut.taken = part.reverse ++ taken := by
  constructor
  · intro closed
    fun_induction takeQuoted quote taken cs with
    | case1 | case2 => simp at closed
    | case3 taken escaped cs ih =>
      obtain ⟨part, inner, rfl, atTaken⟩ := ih closed
      exact ⟨_, .escape inner, rfl, by simp [atTaken]⟩
    | case4 taken cs plain =>
      cases closed
      exact ⟨[quote], .close plain, rfl, rfl⟩
    | case5 taken c cs plain other ih =>
      obtain ⟨part, inner, rfl, atTaken⟩ := ih closed
      exact ⟨_, .plain plain other inner, rfl, by simp [atTaken]⟩
  · rintro ⟨part, inner, rfl, atTaken⟩
    obtain ⟨result, rest⟩ := cut
    dsimp only at atTaken ⊢
    subst atTaken
    induction inner generalizing taken with
    | close proper =>
      unfold takeQuoted
      simp [proper]
    | escape inner ih =>
      unfold takeQuoted
      simpa using ih
    | plain plain other inner ih =>
      unfold takeQuoted
      simpa [plain, other] using ih

theorem takeRegexBody_eq_some_iff {inClass : Bool} {taken cs : List Char} {cut : Cut} :
    takeRegexBody inClass taken cs = some cut ↔
      ∃ part, RegexTail inClass part ∧ cs = part ++ cut.rest ∧
        cut.taken = part.reverse ++ taken := by
  constructor
  · intro closed
    fun_induction takeRegexBody inClass taken cs with
    | case1 | case2 | case3 | case4 => simp at closed
    | case5 inClass taken escaped cs sameLine _ ih =>
      obtain ⟨part, inner, rfl, atTaken⟩ := ih closed
      exact ⟨_, .escape (by simpa using sameLine) inner, rfl, by simp [atTaken]⟩
    | case6 inClass taken cs _ _ ih =>
      obtain ⟨part, inner, rfl, atTaken⟩ := ih closed
      exact ⟨_, .openClass inner, rfl, by simp [atTaken]⟩
    | case7 inClass taken cs _ _ _ ih =>
      obtain ⟨part, inner, rfl, atTaken⟩ := ih closed
      exact ⟨_, .closeClass inner, rfl, by simp [atTaken]⟩
    | case8 inClass taken c cs _ _ _ _ closing =>
      cases closed
      obtain ⟨rfl, rfl⟩ : c = '/' ∧ inClass = false := by simpa using closing
      exact ⟨['/'], .close, rfl, rfl⟩
    | case9 inClass taken c cs sameLine noEscape noOpen noClose inner ih =>
      obtain ⟨part, later, rfl, atTaken⟩ := ih closed
      refine ⟨_, .plain (by simpa using sameLine) (by simp [noEscape, noOpen, noClose]) ?_ later,
        rfl, by simp [atTaken]⟩
      intro slash
      simpa [slash] using inner
  · rintro ⟨part, inner, rfl, atTaken⟩
    obtain ⟨result, rest⟩ := cut
    dsimp only at atTaken ⊢
    subst atTaken
    induction inner generalizing taken with
    | close =>
      unfold takeRegexBody
      simp [show isLineTerminator '/' = false from rfl]
    | escape sameLine inner ih =>
      unfold takeRegexBody
      simpa [show isLineTerminator '\\' = false from rfl, sameLine] using ih
    | openClass inner ih =>
      unfold takeRegexBody
      simpa [show isLineTerminator '[' = false from rfl] using ih
    | closeClass inner ih =>
      unfold takeRegexBody
      simpa [show isLineTerminator ']' = false from rfl] using ih
    | @plain inClass c cs sameLine special slash inner ih =>
      simp only [List.mem_cons, List.not_mem_nil, or_false, not_or] at special
      have stays : (decide (c = '/') && !inClass) = false := by
        by_cases atSlash : c = '/'
        · simp [slash atSlash]
        · simp [atSlash]
      unfold takeRegexBody
      simpa [sameLine, special, stays] using ih

theorem takeBlockComment_eq_some_iff {taken cs : List Char} {cut : Cut} :
    takeBlockComment taken cs = some cut ↔
      ∃ part, BlockTail part ∧ cs = part ++ cut.rest ∧ cut.taken = part.reverse ++ taken := by
  constructor
  · intro closed
    fun_induction takeBlockComment taken cs with
    | case1 => simp at closed
    | case2 taken c cs closing =>
      cases closed
      simp only [Bool.and_eq_true, decide_eq_true_eq] at closing
      obtain ⟨rfl, atSlash⟩ := closing
      obtain ⟨rest, rfl⟩ := List.head?_eq_some_iff.mp atSlash
      exact ⟨['*', '/'], .close, rfl, rfl⟩
    | case3 taken c cs inner ih =>
      obtain ⟨part, later, rfl, atTaken⟩ := ih closed
      refine ⟨_, .plain ?_ later, rfl, by simp [atTaken]⟩
      rintro ⟨rfl, atSlash⟩
      obtain ⟨rest, rfl⟩ := List.head?_eq_some_iff.mp atSlash
      simp at inner
  · rintro ⟨part, inner, rfl, atTaken⟩
    obtain ⟨result, rest⟩ := cut
    dsimp only at atTaken ⊢
    subst atTaken
    induction inner generalizing taken with
    | close => simp [takeBlockComment]
    | @plain c cs inner later ih =>
      have nonempty : cs ≠ [] := by cases later <;> simp
      have stays : (decide (c = '*') && decide ((cs ++ rest).head? = some '/')) = false := by
        obtain ⟨d, cs, rfl⟩ := List.exists_cons_of_ne_nil nonempty
        simpa using inner
      rw [List.cons_append, takeBlockComment, stays]
      simpa using ih

theorem closes_iff {c : Char} {cs : List Char} :
    ['*', '/'] <+: c :: cs ↔ (c = '*' && cs.head? = some '/') = true := by
  rw [List.cons_prefix_cons, Bool.and_eq_true, decide_eq_true_eq, decide_eq_true_eq]
  cases cs <;> simp [List.cons_prefix_cons, eq_comm]

/-- A comment is left open exactly if no star and slash follow. -/
theorem takeBlockComment_eq_none_iff {taken cs : List Char} :
    takeBlockComment taken cs = none ↔ ¬['*', '/'] <:+: cs := by
  fun_induction takeBlockComment taken cs with
  | case1 => simp
  | case2 taken c cs closing => simp [List.infix_cons_iff, closes_iff.mpr closing]
  | case3 taken c cs inner ih => rw [ih, List.infix_cons_iff, closes_iff, or_iff_right inner]

/-- A comment that is left open can still be closed. -/
theorem blockTail_of_eq_none {taken cs : List Char} (failed : takeBlockComment taken cs = none) :
    BlockTail (cs ++ ['*', '/']) := by
  fun_induction takeBlockComment taken cs with
  | case1 => exact .close
  | case2 => cases failed
  | case3 taken c cs inner ih =>
    refine .plain ?_ (ih failed)
    rintro ⟨rfl, atSlash⟩
    cases cs with
    | nil => simp at atSlash
    | cons d cs => simp_all

/-- Taking a run stops at the first character that is not wanted. -/
theorem takeRun_eq_iff {wanted : Char → Bool} {taken cs : List Char} {cut : Cut} :
    takeRun wanted taken cs = cut ↔
      ∃ part, (∀ c ∈ part, wanted c = true) ∧ (∀ c ∈ cut.rest.head?, wanted c = false) ∧
        cs = part ++ cut.rest ∧ cut.taken = part.reverse ++ taken := by
  constructor
  · rintro rfl
    fun_induction takeRun wanted taken cs with
    | case1 => exact ⟨[], by simp⟩
    | case2 taken c cs good ih =>
      obtain ⟨part, allWanted, stop, atRest, atTaken⟩ := ih
      refine ⟨c :: part, ?_, stop, by rw [List.cons_append, ← atRest], by simp [atTaken]⟩
      simpa using ⟨good, allWanted⟩
    | case3 taken c cs bad => exact ⟨[], by simpa using bad⟩
  · rintro ⟨part, allWanted, stop, rfl, atTaken⟩
    obtain ⟨result, rest⟩ := cut
    dsimp only at atTaken stop ⊢
    subst atTaken
    induction part generalizing taken with
    | nil =>
      cases rest with
      | nil => rfl
      | cons c cs =>
        have bad : wanted c = false := stop c rfl
        simp [takeRun, bad]
    | cons c part ih =>
      have good := allWanted c (List.mem_cons_self ..)
      simpa [takeRun, good] using ih (fun d member => allWanted d (List.mem_cons_of_mem _ member))

theorem takeRegex_eq_some_iff {taken cs : List Char} {cut : Cut} :
    takeRegex taken cs = some cut ↔
      ∃ body flags, RegexTail false body ∧ (∀ c ∈ flags, c.isAlpha = true) ∧
        (∀ c ∈ cut.rest.head?, c.isAlpha = false) ∧ cs = body ++ (flags ++ cut.rest) ∧
        cut.taken = flags.reverse ++ (body.reverse ++ taken) := by
  rw [takeRegex, Option.map_eq_some_iff]
  constructor
  · rintro ⟨⟨result, rest⟩, closed, flagged⟩
    obtain ⟨body, inner, rfl, rfl⟩ := takeRegexBody_eq_some_iff.mp closed
    obtain ⟨flags, letters, stop, rfl, atTaken⟩ := takeRun_eq_iff.mp flagged
    exact ⟨body, flags, inner, letters, stop, rfl, atTaken⟩
  · rintro ⟨body, flags, inner, letters, stop, rfl, atTaken⟩
    refine ⟨⟨body.reverse ++ taken, flags ++ cut.rest⟩, ?_, ?_⟩
    · exact takeRegexBody_eq_some_iff.mpr ⟨body, inner, rfl, rfl⟩
    · exact takeRun_eq_iff.mpr ⟨flags, letters, stop, rfl, atTaken⟩

end Elision
