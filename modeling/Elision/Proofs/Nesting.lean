import Elision.Proofs.Steps

namespace Elision

/-- What may stand inside one level of a template, up to and with the character that ends the level.
Inner levels stand in it as wholes, so no count of open levels is needed. `operand` says whether a
slash opens a regular expression; each substitution has its own. -/
inductive Level : Frame → Bool → List Char → Prop
  | escape {frame operand c cs} : Level frame operand cs → Level frame operand ('\\' :: c :: cs)
  | endText {operand} : Level .text operand [backtick]
  | substitution {operand code cs} : Level (.code 0) true code → Level .text false cs →
      Level .text operand ('$' :: leftBrace :: (code ++ cs))
  | textChar {operand c cs} : c ≠ '\\' → c ≠ backtick → ¬(c = '$' ∧ cs.head? = some leftBrace) →
      Level .text operand cs → Level .text operand (c :: cs)
  | space {depth operand c cs} : c ≠ '\\' → classify c = .whitespace ∨ isLineTerminator c = true →
      Level (.code depth) operand cs → Level (.code depth) operand (c :: cs)
  | template {depth operand inner cs} : Level .text operand inner → Level (.code depth) false cs →
      Level (.code depth) operand (backtick :: (inner ++ cs))
  | string {depth operand quote inner cs} : classify quote = .quote → quote ≠ backtick →
      QuotedTail quote inner → Level (.code depth) false cs →
      Level (.code depth) operand (quote :: (inner ++ cs))
  | lineComment {depth operand body cs} : (∀ c ∈ body, isLineTerminator c = false) →
      (∀ c ∈ cs.head?, isLineTerminator c = true) → Level (.code depth) operand cs →
      Level (.code depth) operand ('/' :: '/' :: (body ++ cs))
  | blockComment {depth operand body cs} : BlockTail body → Level (.code depth) operand cs →
      Level (.code depth) operand ('/' :: '*' :: (body ++ cs))
  | regex {depth body flags cs} : RegexTail false body → body.head? ≠ some '/' →
      body.head? ≠ some '*' → (∀ c ∈ flags, c.isAlpha = true) →
      (∀ c ∈ cs.head?, c.isAlpha = false) → Level (.code depth) false cs →
      Level (.code depth) true ('/' :: (body ++ (flags ++ cs)))
  | division {depth cs} : cs.head? ≠ some '/' → cs.head? ≠ some '*' →
      Level (.code depth) true cs → Level (.code depth) false ('/' :: cs)
  | openBrace {depth operand cs} : Level (.code (depth + 1)) true cs →
      Level (.code depth) operand (leftBrace :: cs)
  | closeBrace {depth operand cs} : Level (.code depth) false cs →
      Level (.code (depth + 1)) operand (rightBrace :: cs)
  | endCode {operand} : Level (.code 0) operand [rightBrace]
  | codeChar {depth operand c cs} : c ∉ ['\\', '/', leftBrace, rightBrace] →
      classify c ≠ .whitespace → isLineTerminator c = false → classify c ≠ .quote →
      Level (.code depth) (!(isLetterLike c || c = ')' || c = ']')) cs →
      Level (.code depth) operand (c :: cs)

/-- The rest of all levels that are open, innermost first. An outer level goes on behind an operand. -/
inductive Levels : List Frame → Bool → List Char → Prop
  | done {operand} : Levels [] operand []
  | level {frame outer operand cs rest} : Level frame operand cs → Levels outer false rest →
      Levels (frame :: outer) operand (cs ++ rest)

theorem Level.ne_nil {frame : Frame} {operand : Bool} {cs : List Char}
    (level : Level frame operand cs) : cs ≠ [] := by
  cases level <;> simp

/-- The character that ends a level. -/
def Frame.closer : Frame → Char
  | .text => backtick
  | .code _ => rightBrace

theorem Level.getLast?_eq {frame : Frame} {operand : Bool} {cs : List Char}
    (level : Level frame operand cs) : cs.getLast? = some frame.closer := by
  induction level with
  | endText | endCode => rfl
  | escape _ ih | textChar _ _ _ _ ih | space _ _ _ ih | codeChar _ _ _ _ _ ih | openBrace _ ih
  | closeBrace _ ih | division _ _ _ ih | string _ _ _ _ ih | lineComment _ _ _ ih
  | blockComment _ _ ih | regex _ _ _ _ _ _ ih | substitution _ _ _ ih | template _ _ _ ih =>
    simp [List.getLast?_cons, ih, Frame.closer]

theorem Level.head?_append {frame : Frame} {operand : Bool} {cs : List Char}
    (level : Level frame operand cs) (rest : List Char) : (cs ++ rest).head? = cs.head? := by
  obtain ⟨d, cs, rfl⟩ := List.exists_cons_of_ne_nil level.ne_nil
  rfl

/-- A level is taken step by step, whatever stands behind it. -/
theorem Level.steps {frame : Frame} {operand : Bool} {part : List Char}
    (level : Level frame operand part) (outer : List Frame) (rest : List Char) :
    TemplateSteps rest (frame :: outer) operand part outer false := by
  induction level generalizing outer rest with
  | escape _ ih => exact .next .escape (ih outer rest)
  | endText => exact .next .endText .done
  | @substitution operand code cs _ _ ihCode ihText =>
    exact .next .openCode ((ihCode (.text :: outer) (cs ++ rest)).append (ihText outer rest))
  | textChar plain noEnd noCode later ih =>
    rw [← later.head?_append rest] at noCode
    exact .next (.textChar plain noEnd noCode) (ih outer rest)
  | space plain blank _ ih => exact .next (.space plain blank) (ih outer rest)
  | @template depth operand inner cs _ _ ihText ihCode =>
    exact .next .openText ((ihText (.code depth :: outer) (cs ++ rest)).append (ihCode outer rest))
  | string isQuote noTemplate quoted _ ih =>
    exact .next (.string isQuote noTemplate quoted) (ih outer rest)
  | lineComment sameLine stop later ih =>
    rw [← later.head?_append rest] at stop
    exact .next (.lineComment sameLine stop) (ih outer rest)
  | blockComment closing _ ih => exact .next (.blockComment closing) (ih outer rest)
  | @regex depth body flags cs inner noLine noBlock letters stop later ih =>
    rw [← later.head?_append rest] at stop
    rw [← List.append_assoc]
    exact .next (.regex inner noLine noBlock letters stop) (ih outer rest)
  | division noLine noBlock later ih =>
    rw [← later.head?_append rest] at noLine noBlock
    exact .next (.division noLine noBlock) (ih outer rest)
  | openBrace _ ih => exact .next .openBrace (ih outer rest)
  | closeBrace _ ih => exact .next .closeBrace (ih outer rest)
  | endCode => exact .next .endCode .done
  | codeChar special visible sameLine noQuote _ ih =>
    exact .next (.codeChar special visible sameLine noQuote) (ih outer rest)

/-- The levels that a template leaves open grow at the innermost one. -/
theorem Levels.grow {frame grown : Frame} {outer : List Frame} {operand before : Bool}
    {part : List Char} (levels : Levels (frame :: outer) operand part) (front : List Char)
    (step : ∀ cs, Level frame operand cs → cs.head? = part.head? → Level grown before (front ++ cs)) :
    Levels (grown :: outer) before (front ++ part) := by
  cases levels with
  | @level _ _ _ cs rest inner later =>
    obtain ⟨d, cs, rfl⟩ := List.exists_cons_of_ne_nil inner.ne_nil
    rw [← List.append_assoc]
    exact .level (step (d :: cs) inner rfl) later

/-- What closes the levels behind a step closes those before it, with the text of the step in front. -/
theorem Levels.step {frames inner : List Frame} {operand behind : Bool} {front part : List Char}
    (levels : Levels inner behind part)
    (step : TemplateStep part.head? frames operand front inner behind) :
    Levels frames operand (front ++ part) := by
  cases step with
  | escape => exact levels.grow _ fun _ inner _ => .escape inner
  | endText => exact .level .endText levels
  | openCode =>
    -- The substitution was pushed on top, so the innermost level behind it is its code.
    cases levels with
    | @level _ _ _ code rest inner later =>
      exact later.grow ('$' :: leftBrace :: code) fun _ text _ => .substitution inner text
  | textChar plain noEnd noCode =>
    exact levels.grow _ fun _ inner atHead => .textChar plain noEnd (atHead ▸ noCode) inner
  | space plain blank => exact levels.grow _ fun _ inner _ => .space plain blank inner
  | openText =>
    cases levels with
    | @level _ _ _ inner rest nested later =>
      exact later.grow (backtick :: inner) fun _ code _ => .template nested code
  | string isQuote noTemplate quoted =>
    exact levels.grow _ fun _ code _ => .string isQuote noTemplate quoted code
  | lineComment sameLine stop =>
    exact levels.grow _ fun _ code atHead => .lineComment sameLine (atHead ▸ stop) code
  | blockComment closing => exact levels.grow _ fun _ code _ => .blockComment closing code
  | regex inner noLine noBlock letters stop =>
    refine levels.grow _ fun _ code atHead => ?_
    rw [List.cons_append, List.append_assoc]
    exact .regex inner noLine noBlock letters (atHead ▸ stop) code
  | division noLine noBlock =>
    exact levels.grow _ fun _ code atHead => .division (atHead ▸ noLine) (atHead ▸ noBlock) code
  | openBrace => exact levels.grow _ fun _ code _ => .openBrace code
  | closeBrace => exact levels.grow _ fun _ code _ => .closeBrace code
  | endCode => exact .level .endCode levels
  | codeChar special visible sameLine noQuote =>
    exact levels.grow _ fun _ code _ => .codeChar special visible sameLine noQuote code

theorem Levels.of_steps {frames final : List Frame} {operand last : Bool} {part rest : List Char}
    (levels : Levels final last rest) (steps : TemplateSteps rest frames operand part final last) :
    Levels frames operand (part ++ rest) := by
  induction steps with
  | done => exact levels
  | next step _ ih =>
    rw [List.append_assoc]
    exact (ih levels).step step

/-- What a scan takes closes every level that was open, the innermost first. -/
theorem takeTemplate_levels {unclosed : Unclosed} {frames : List Frame} {operand : Bool}
    {taken cs : List Char} {cut : Cut}
    (closed : takeTemplate unclosed frames operand taken cs = .ok cut) :
    ∃ part, Levels frames operand part ∧ cs = part ++ cut.rest ∧
      cut.taken = part.reverse ++ taken := by
  obtain ⟨part, rest, final, last, rfl, steps, atEnd⟩ :=
    takeTemplate_run unclosed frames operand taken cs
  rw [closed] at atEnd
  cases atEnd with
  | closed =>
    have alone : TemplateSteps [] frames operand part [] last := steps.of_ahead (.inr (by simp))
    have levels := Levels.done.of_steps alone
    rw [List.append_nil] at levels
    exact ⟨part, levels, rfl, rfl⟩

theorem Levels.level_of_singleton {frame : Frame} {operand : Bool} {part : List Char}
    (levels : Levels [frame] operand part) : Level frame operand part := by
  cases levels with
  | level inner outer =>
    cases outer
    rwa [List.append_nil]

/-- A template is closed where the level that its backtick opens comes to its end. -/
theorem takeTemplate_eq_ok_iff {unclosed : Unclosed} {taken cs : List Char} {cut : Cut} :
    takeTemplate unclosed [.text] true taken cs = .ok cut ↔
      ∃ part, Level .text true part ∧ cs = part ++ cut.rest ∧ cut.taken = part.reverse ++ taken := by
  constructor
  · intro closed
    obtain ⟨part, levels, same, atTaken⟩ := takeTemplate_levels closed
    exact ⟨part, levels.level_of_singleton, same, atTaken⟩
  · rintro ⟨part, inner, rfl, atTaken⟩
    rw [(inner.steps [] cut.rest).take, takeTemplate, ← atTaken]

end Elision
