import Elision.Proofs.Numerals

namespace Elision

/-- What the last token is told: one more character of code, or a whole literal. -/
inductive Operation
  | push (c : Char) (glued : Bool)
  | literal
  | regex
  deriving DecidableEq

/-- A text is pushed character by character. Only the first one may stand apart. -/
def pushes (glued : Bool) : List Char → List Operation
  | [] => []
  | c :: text => .push c glued :: text.map (.push · true)

namespace Token

def operate (token : Token) : Operation → Token
  | .push c glued => token.push c glued
  | .literal => .literal
  | .regex => .regex

/-- The last token behind any operations. -/
def after (operations : List Operation) : Token :=
  operations.foldl operate .start

theorem after_append (history later : List Operation) :
    after (history ++ later) = later.foldl operate (after history) :=
  List.foldl_append

theorem after_pushes (history : List Operation) (glued : Bool) (text : List Char) :
    after (history ++ pushes glued text) = (after history).spell glued text := by
  rw [after_append]
  cases text with
  | nil => rfl
  | cons c text => simp only [pushes, List.foldl_cons, List.foldl_map, spell, feed, operate]

/-- A punctuator is the last token only right behind its own character. -/
theorem getLast?_of_after {history : List Operation} {c : Char} (atMark : after history = .punct c) :
    ∃ glued, history.getLast? = some (.push c glued) := by
  rcases List.eq_nil_or_concat history with rfl | ⟨earlier, operation, rfl⟩
  · cases atMark
  · rw [List.concat_eq_append, after_append] at atMark
    cases operation with
    | push d glued =>
      have fits := (after earlier).push_fits d glued
      have same : (after earlier).push d glued = .punct c := atMark
      rw [same] at fits
      cases fits.1
      exact ⟨glued, by simp⟩
    | literal => cases atMark
    | regex => cases atMark

theorem push_closer (token : Token) {c : Char} (closes : c ∈ [')', ']']) (glued : Bool) :
    token.push c glued = .closer := by
  have stops : token.extend? c = none := by
    simp only [List.mem_cons, List.not_mem_nil, or_false] at closes
    cases token with
    | word text property => rcases closes with rfl | rfl <;> rfl
    | number text => rcases closes with rfl | rfl <;> rfl
    | _ => rfl
  have ends : token.EndsBefore glued [c] := by simp [EndsBefore, stops]
  rw [ends.push_eq]
  simp only [List.mem_cons, List.not_mem_nil, or_false] at closes
  rcases closes with rfl | rfl <;> rfl

/-- Signs are counted in pairs: two of them are an increment, and the next one stands alone again. -/
theorem feed_signs {sign : Char} (isSign : sign ∈ ['+', '-']) (count : Nat) :
    feed (.punct sign) (List.replicate count sign) =
      if count % 2 = 0 then .punct sign else .increment := by
  induction count with
  | zero => rfl
  | succ count ih =>
    rw [List.replicate_succ', feed_append, ih]
    simp only [List.mem_cons, List.not_mem_nil, or_false] at isSign
    by_cases even : count % 2 = 0
    · have odd : ¬(count + 1) % 2 = 0 := by omega
      rw [if_pos even, if_neg odd]
      rcases isSign with rfl | rfl <;> rfl
    · have even : (count + 1) % 2 = 0 := by omega
      rw [if_neg (by omega), if_pos even]
      rcases isSign with rfl | rfl <;> rfl

/-- A row of signs ends with one that stands alone exactly if their number is odd. -/
theorem opensRegex_spell_signs {token : Token} {glued : Bool} {sign : Char} {count : Nat}
    (isSign : sign ∈ ['+', '-']) (positive : 0 < count) (ends : token.EndsBefore glued [sign])
    (apart : glued = true → token ≠ .punct sign) :
    (token.spell glued (List.replicate count sign)).opensRegex = decide (count % 2 = 1) := by
  obtain ⟨fewer, rfl⟩ : ∃ fewer, count = fewer + 1 := ⟨count - 1, by omega⟩
  have plain : isLetterLike sign = false ∧ sign ∉ [')', ']'] := by
    simp only [List.mem_cons, List.not_mem_nil, or_false] at isSign
    rcases isSign with rfl | rfl <;> decide
  have pushed : token.push sign glued = .punct sign :=
    ends.push_mark plain.1 plain.2 fun isGlued _ => apart isGlued
  rw [List.replicate_succ, spell, pushed, feed_signs isSign]
  by_cases even : fewer % 2 = 0
  · have odd : (fewer + 1) % 2 = 1 := by omega
    simp [even, odd, opensRegex]
  · have noOdd : ¬(fewer + 1) % 2 = 1 := by omega
    simp [even, noOdd, opensRegex]

end Token

/-- A whole token behind other operations, and whether a slash behind it opens a regular expression. -/
inductive SlashBehind (history : List Operation) : List Operation → Bool → Prop
  | number {glued text} : NumericLiteral text → (Token.after history).EndsBefore glued text →
      (glued = true → Token.after history ≠ .punct '.') →
      SlashBehind history (pushes glued text) false
  | closer {glued c} : c ∈ [')', ']'] → SlashBehind history [.push c glued] false
  | literal : SlashBehind history [.literal] false
  | regex : SlashBehind history [.regex] false
  | word {glued text} : Word text → text ∉ operandKeywords →
      (Token.after history).EndsBefore glued text → SlashBehind history (pushes glued text) false
  /-- The name of a property, even if it is spelled like a keyword. -/
  | property {glued text} : Word text → Token.after history = .punct '.' →
      SlashBehind history (pushes glued text) false
  /-- A keyword, with no dot and no mark of a private name right before it. -/
  | keyword {glued text} : text ∈ operandKeywords → (Token.after history).EndsBefore glued text →
      (∀ c apart, history.getLast? = some (.push c apart) → c ∉ ['.', '#']) →
      SlashBehind history (pushes glued text) true
  | mark {glued c} : isLetterLike c = false → c ∉ [')', ']', '+', '-'] →
      (Token.after history).EndsBefore glued [c] → SlashBehind history [.push c glued] true
  /-- Signs of one kind that begin a token, and do not go on with a row of the same sign. -/
  | signs {glued sign count} : sign ∈ ['+', '-'] → 0 < count →
      (Token.after history).EndsBefore glued [sign] →
      (glued = true → Token.after history ≠ .punct sign) →
      SlashBehind history (pushes glued (List.replicate count sign)) (count % 2 = 1)

/-- The last whole token alone decides about a slash, whatever was recorded before it. -/
theorem slash_decided_by_last_token {history token : List Operation} {opens : Bool}
    (whole : SlashBehind history token opens) :
    (Token.after (history ++ token)).opensRegex = opens := by
  cases whole with
  | number literal ends noPoint =>
    rw [Token.after_pushes, literal.spell ends noPoint]
    rfl
  | closer closes =>
    have closer := (Token.after history).push_closer closes
    rw [Token.after_append]
    simp [Token.operate, closer, Token.opensRegex]
  | literal =>
    rw [Token.after_append]
    rfl
  | regex =>
    rw [Token.after_append]
    rfl
  | word word noKeyword ends =>
    rw [Token.after_pushes, Token.spell_word word ends]
    simp [Token.opensRegex, noKeyword]
  | @property glued text word atDot =>
    have ends : (Token.after history).EndsBefore glued text := by
      rw [atDot]
      exact fun _ _ _ => rfl
    rw [Token.after_pushes, Token.spell_word word ends]
    simp [Token.opensRegex, atDot]
  | keyword keyword ends before =>
    have noDot : Token.after history ≠ .punct '.' := by
      intro atDot
      obtain ⟨apart, atLast⟩ := Token.getLast?_of_after atDot
      exact before '.' apart atLast (by simp)
    rw [Token.after_pushes, Token.spell_word (word_of_keyword keyword) ends]
    simp [Token.opensRegex, noDot, keyword]
  | @mark glued c noLetter other ends =>
    simp only [List.mem_cons, List.not_mem_nil, or_false, not_or] at other
    have pushed : (Token.after history).push c glued = .punct c := by
      refine ends.push_mark noLetter (by simp [other]) ?_
      intro _ isSign
      simp [other] at isSign
    rw [Token.after_append]
    simp [Token.operate, pushed, Token.opensRegex]
  | signs isSign positive ends apart =>
    rw [Token.after_pushes]
    exact Token.opensRegex_spell_signs isSign positive ends apart

/-- A keyword behind a name and a gap, a number with an exponent behind an operator, and three signs
behind a name. -/
theorem slash_decided_by_last_token_rows :
    (Token.after (pushes false "a.b".toList ++ pushes false "typeof".toList)).opensRegex = true ∧
      (Token.after (pushes false "x=".toList ++ pushes true "1.5e-3".toList)).opensRegex = false ∧
      (Token.after (pushes false "a".toList ++ pushes true "+++".toList)).opensRegex = true := by
  refine ⟨?_, ?_, ?_⟩
  · have keyword : "typeof".toList ∈ operandKeywords := by decide
    have before : ∀ c apart, (pushes false "a.b".toList).getLast? = some (.push c apart) →
        c ∉ ['.', '#'] := by
      intro c apart atLast
      cases atLast
      decide
    exact slash_decided_by_last_token (.keyword keyword (fun glued => Bool.noConfusion glued) before)
  · have numeral : Numeral "1.5e-3".toList :=
      .fraction (.single rfl) (.single rfl) (.signed (by decide) (by decide) (.single rfl))
    have literal : NumericLiteral "1.5e-3".toList := numeral.literal (by decide)
    exact slash_decided_by_last_token (.number literal (fun _ _ _ => rfl) (fun _ => by decide))
  · have isSign : '+' ∈ ['+', '-'] := by decide
    have ends : (Token.after (pushes false "a".toList)).EndsBefore true ['+'] := by
      intro _ c atFirst
      cases atFirst
      rfl
    have whole : SlashBehind (pushes false "a".toList) (pushes true (List.replicate 3 '+')) true :=
      .signs isSign (by decide) ends (by decide)
    exact slash_decided_by_last_token whole

end Elision
