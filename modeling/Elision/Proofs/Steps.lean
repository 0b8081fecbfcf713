import Elision.Proofs.Classes
import Elision.Proofs.Escapes

namespace Elision

/-- One step of the scan of a template: the text that it takes, with `ahead` behind it, and the levels
open before and behind that text, innermost first. `operand` says whether a slash opens a regular
expression. -/
inductive TemplateStep (ahead : Option Char) : List Frame → Bool → List Char → List Frame → Bool → Prop
  | escape {frame outer operand c} :
      TemplateStep ahead (frame :: outer) operand ['\\', c] (frame :: outer) operand
  | endText {outer operand} : TemplateStep ahead (.text :: outer) operand [backtick] outer false
  | openCode {outer operand} :
      TemplateStep ahead (.text :: outer) operand ['$', leftBrace] (.code 0 :: .text :: outer) true
  | textChar {outer operand c} : c ≠ '\\' → c ≠ backtick → ¬(c = '$' ∧ ahead = some leftBrace) →
      TemplateStep ahead (.text :: outer) operand [c] (.text :: outer) operand
  | space {depth outer operand c} : c ≠ '\\' →
      classify c = .whitespace ∨ isLineTerminator c = true →
      TemplateStep ahead (.code depth :: outer) operand [c] (.code depth :: outer) operand
  | openText {depth outer operand} :
      TemplateStep ahead (.code depth :: outer) operand [backtick] (.text :: .code depth :: outer) operand
  | string {depth outer operand quote inner} : classify quote = .quote → quote ≠ backtick →
      QuotedTail quote inner →
      TemplateStep ahead (.code depth :: outer) operand (quote :: inner) (.code depth :: outer) false
  | lineComment {depth outer operand body} : (∀ c ∈ body, isLineTerminator c = false) →
      (∀ c ∈ ahead, isLineTerminator c = true) →
      TemplateStep ahead (.code depth :: outer) operand ('/' :: '/' :: body) (.code depth :: outer)
        operand
  | blockComment {depth outer operand body} : BlockTail body →
      TemplateStep ahead (.code depth :: outer) operand ('/' :: '*' :: body) (.code depth :: outer)
        operand
  | regex {depth outer body flags} : RegexTail false body → body.head? ≠ some '/' →
      body.head? ≠ some '*' → (∀ c ∈ flags, c.isAlpha = true) → (∀ c ∈ ahead, c.isAlpha = false) →
      TemplateStep ahead (.code depth :: outer) true ('/' :: (body ++ flags)) (.code depth :: outer)
        false
  | division {depth outer} : ahead ≠ some '/' → ahead ≠ some '*' →
      TemplateStep ahead (.code depth :: outer) false ['/'] (.code depth :: outer) true
  | openBrace {depth outer operand} :
      TemplateStep ahead (.code depth :: outer) operand [leftBrace] (.code (depth + 1) :: outer) true
  | closeBrace {depth outer operand} :
      TemplateStep ahead (.code (depth + 1) :: outer) operand [rightBrace] (.code depth :: outer) false
  | endCode {outer operand} : TemplateStep ahead (.code 0 :: outer) operand [rightBrace] outer false
  | codeChar {depth outer operand c} : c ∉ ['\\', '/', leftBrace, rightBrace] →
      classify c ≠ .whitespace → isLineTerminator c = false → classify c ≠ .quote →
      TemplateStep ahead (.code depth :: outer) operand [c] (.code depth :: outer) (expectsOperand c)

/-- Steps one after the other, up to a place with `rest` behind it. -/
inductive TemplateSteps (rest : List Char) : List Frame → Bool → List Char → List Frame → Bool → Prop
  | done {frames operand} : TemplateSteps rest frames operand [] frames operand
  | next {frames operand part inner behind later final last} :
      TemplateStep (later ++ rest).head? frames operand part inner behind →
      TemplateSteps rest inner behind later final last →
      TemplateSteps rest frames operand (part ++ later) final last

/-- The end of the text or of a line may take the place of what stood behind a step. -/
theorem TemplateStep.of_lineEnd {ahead other : Option Char} {frames inner : List Frame}
    {operand behind : Bool} {part : List Char}
    (step : TemplateStep ahead frames operand part inner behind)
    (lineEnd : ∀ c ∈ other, isLineTerminator c = true) :
    TemplateStep other frames operand part inner behind := by
  have noMark {c : Char} (sameLine : isLineTerminator c = false) : other ≠ some c := by
    rintro rfl
    rw [lineEnd c rfl] at sameLine
    cases sameLine
  cases step with
  | escape => exact .escape
  | endText => exact .endText
  | openCode => exact .openCode
  | textChar plain noEnd _ => exact .textChar plain noEnd fun opens => noMark rfl opens.2
  | space plain blank => exact .space plain blank
  | openText => exact .openText
  | string isQuote noTemplate quoted => exact .string isQuote noTemplate quoted
  | lineComment sameLine _ => exact .lineComment sameLine lineEnd
  | blockComment closing => exact .blockComment closing
  | regex inner noLine noBlock letters _ =>
    refine .regex inner noLine noBlock letters ?_
    intro c atOther
    cases alpha : c.isAlpha with
    | false => rfl
    | true => exact absurd atOther (noMark (isLineTerminator_of_isAlpha alpha))
  | division => exact .division (noMark rfl) (noMark rfl)
  | openBrace => exact .openBrace
  | closeBrace => exact .closeBrace
  | endCode => exact .endCode
  | codeChar special visible sameLine noQuote => exact .codeChar special visible sameLine noQuote

theorem TemplateSteps.of_ahead {rest other : List Char} {frames final : List Frame}
    {operand last : Bool} {part : List Char}
    (steps : TemplateSteps rest frames operand part final last)
    (border : other.head? = rest.head? ∨ ∀ c ∈ other.head?, isLineTerminator c = true) :
    TemplateSteps other frames operand part final last := by
  induction steps with
  | done => exact .done
  | @next frames operand part inner behind later final last step _ ih =>
    refine .next ?_ ih
    cases later with
    | nil =>
      rcases border with same | lineEnd
      · rw [List.nil_append, same]
        exact step
      · exact step.of_lineEnd lineEnd
    | cons c later => exact step

theorem TemplateSteps.append {rest : List Char} {frames inner final : List Frame}
    {operand behind last : Bool} {part later : List Char}
    (steps : TemplateSteps (later ++ rest) frames operand part inner behind)
    (more : TemplateSteps rest inner behind later final last) :
    TemplateSteps rest frames operand (part ++ later) final last := by
  induction steps with
  | done => exact more
  | @next frames operand part inner behind middle final last step _ ih =>
    rw [List.append_assoc]
    refine .next ?_ (ih more)
    rw [List.append_assoc]
    exact step

/-- What a scan reports where no step leads on. `unclosed` is the template itself. -/
inductive TemplateStop (unclosed : Unclosed) : Frame → Bool → List Char → Unclosed → Prop
  | atEnd {frame operand} : TemplateStop unclosed frame operand [] unclosed
  | escape {frame operand} : TemplateStop unclosed frame operand ['\\'] unclosed
  | comment {depth operand cs} : ¬['*', '/'] <:+: cs →
      TemplateStop unclosed (.code depth) operand ('/' :: '*' :: cs) unclosed
  | string {depth operand quote cs} : classify quote = .quote → quote ≠ backtick →
      AllEscaped quote cs →
      TemplateStop unclosed (.code depth) operand (quote :: cs) ⟨.string, quote :: cs⟩
  | regex {depth cs} : cs.head? ≠ some '/' → cs.head? ≠ some '*' → SlashesStay false cs →
      TemplateStop unclosed (.code depth) true ('/' :: cs) ⟨.regex, '/' :: cs⟩

theorem TemplateStep.take {frames inner : List Frame} {operand behind : Bool} {part rest : List Char}
    (step : TemplateStep rest.head? frames operand part inner behind) (unclosed : Unclosed)
    (taken : List Char) :
    takeTemplate unclosed frames operand taken (part ++ rest) =
      takeTemplate unclosed inner behind (part.reverse ++ taken) rest := by
  cases step with
  | escape =>
    rw [takeTemplate.eq_def]
    simp
  | endText =>
    rw [takeTemplate.eq_def]
    simp [backtick]
  | openCode =>
    rw [takeTemplate.eq_def]
    simp [backtick]
  | textChar plain noEnd noCode =>
    rw [takeTemplate.eq_def]
    simp_all
  | space plain blank =>
    rw [takeTemplate.eq_def]
    simp_all
  | openText =>
    rw [takeTemplate.eq_def]
    simp +decide
  | @string depth outer operand quote inner isQuote noTemplate string =>
    have closed : takeQuoted quote (quote :: taken) (inner ++ rest) =
        some ⟨inner.reverse ++ quote :: taken, rest⟩ :=
      takeQuoted_eq_some_iff.mpr ⟨inner, string, rfl, rfl⟩
    have plain : quote ≠ '\\' := by rintro rfl; exact absurd isQuote (by decide)
    have sameLine := isLineTerminator_of_quote isQuote
    rw [takeTemplate.eq_def]
    simp only [List.cons_append, plain, noTemplate, isQuote, sameLine, reduceCtorEq, decide_false,
      Bool.or_self, Bool.false_eq_true, ↓reduceIte]
    split <;> simp_all
  | @lineComment depth outer operand body sameLine stop =>
    have taking : takeLineComment ('/' :: '/' :: taken) (body ++ rest) =
        ⟨body.reverse ++ '/' :: '/' :: taken, rest⟩ :=
      takeRun_eq_iff.mpr ⟨body, by simpa using sameLine, by simpa using stop, rfl, rfl⟩
    rw [takeTemplate.eq_def]
    simp_all +decide
  | @blockComment depth outer operand body closing =>
    have closed : takeBlockComment ('*' :: '/' :: taken) (body ++ rest) =
        some ⟨body.reverse ++ '*' :: '/' :: taken, rest⟩ :=
      takeBlockComment_eq_some_iff.mpr ⟨body, closing, rfl, rfl⟩
    rw [takeTemplate.eq_def]
    simp +decide only [List.cons_append, ↓reduceIte, List.head?_cons, List.tail_cons]
    split <;> simp_all
  | @regex depth outer body flags inner noLine noBlock letters stop =>
    obtain ⟨e, body, rfl⟩ := List.exists_cons_of_ne_nil inner.ne_nil
    have closed : takeRegex ('/' :: taken) (e :: body ++ (flags ++ rest)) =
        some ⟨flags.reverse ++ ((e :: body).reverse ++ '/' :: taken), rest⟩ :=
      takeRegex_eq_some_iff.mpr ⟨e :: body, flags, inner, letters, stop, rfl, rfl⟩
    have noLine : e ≠ '/' := by simpa using noLine
    have noBlock : e ≠ '*' := by simpa using noBlock
    rw [takeTemplate.eq_def]
    simp +decide only [List.cons_append, List.append_assoc, ↓reduceIte, List.head?_cons,
      Option.some.injEq, noLine, noBlock]
    split <;> simp_all
  | division noLine noBlock =>
    rw [takeTemplate.eq_def]
    simp_all +decide
  | openBrace =>
    rw [takeTemplate.eq_def]
    simp +decide
  | closeBrace =>
    rw [takeTemplate.eq_def]
    simp +decide
  | endCode =>
    rw [takeTemplate.eq_def]
    simp +decide
  | @codeChar depth outer operand c special visible sameLine noQuote =>
    have noTemplate : c ≠ backtick := by rintro rfl; exact noQuote rfl
    rw [takeTemplate.eq_def]
    simp_all

theorem TemplateSteps.take {frames final : List Frame} {operand last : Bool} {part rest : List Char}
    (steps : TemplateSteps rest frames operand part final last) (unclosed : Unclosed)
    (taken : List Char) :
    takeTemplate unclosed frames operand taken (part ++ rest) =
      takeTemplate unclosed final last (part.reverse ++ taken) rest := by
  induction steps generalizing taken with
  | done => rfl
  | next step _ ih =>
    rw [List.append_assoc, step.take, ih]
    simp

/-- How a scan ends behind its last step: with no level left open, or where it stops. -/
inductive TemplateEnd (unclosed : Unclosed) (taken rest : List Char) :
    List Frame → Bool → Except Unclosed Cut → Prop
  | closed {last} : TemplateEnd unclosed taken rest [] last (.ok ⟨taken, rest⟩)
  | stopped {frame outer last found} : TemplateStop unclosed frame last rest found →
      TemplateEnd unclosed taken rest (frame :: outer) last (.error found)

/-- A whole scan: steps from the first character on, and their end. -/
def TemplateRun (unclosed : Unclosed) (frames : List Frame) (operand : Bool) (taken cs : List Char)
    (result : Except Unclosed Cut) : Prop :=
  ∃ part rest final last, cs = part ++ rest ∧ TemplateSteps rest frames operand part final last ∧
    TemplateEnd unclosed (part.reverse ++ taken) rest final last result

section TemplateRun

variable {unclosed : Unclosed} {frames inner : List Frame} {operand behind : Bool}
  {front taken longer cs text : List Char} {result : Except Unclosed Cut}

theorem TemplateRun.step (run : TemplateRun unclosed inner behind longer cs result)
    (step : TemplateStep cs.head? frames operand front inner behind)
    (atTaken : longer = front.reverse ++ taken) (atText : text = front ++ cs) :
    TemplateRun unclosed frames operand taken text result := by
  obtain ⟨part, rest, final, last, rfl, steps, atEnd⟩ := run
  refine ⟨front ++ part, rest, final, last, by simp [atText], .next step steps, ?_⟩
  simpa [atTaken] using atEnd

theorem TemplateStop.run {frame : Frame} {found : Unclosed}
    (stop : TemplateStop unclosed frame operand cs found) (outer : List Frame) (taken : List Char) :
    TemplateRun unclosed (frame :: outer) operand taken cs (.error found) :=
  ⟨[], cs, _, _, rfl, .done, .stopped stop⟩

end TemplateRun

/-- A scan of a template takes one step for each of its branches, and stops only where no step is
possible. -/
theorem takeTemplate_run (unclosed : Unclosed) (frames : List Frame) (operand : Bool)
    (taken cs : List Char) :
    TemplateRun unclosed frames operand taken cs (takeTemplate unclosed frames operand taken cs) := by
  fun_induction takeTemplate unclosed frames operand taken cs with
  | case1 operand taken cs => exact ⟨[], cs, [], operand, rfl, .done, .closed⟩
  | case2 operand taken frame outer => exact TemplateStop.atEnd.run outer taken
  | case3 operand taken frame outer => exact TemplateStop.escape.run outer taken
  | case4 operand taken frame outer escaped cs ih => exact ih.step .escape rfl rfl
  | case5 operand taken outer cs _ ih => exact ih.step .endText rfl rfl
  | case6 operand taken outer c cs _ _ opening ih =>
    simp only [Bool.and_eq_true, decide_eq_true_eq] at opening
    obtain ⟨rfl, atBrace⟩ := opening
    obtain ⟨cs, rfl⟩ := List.head?_eq_some_iff.mp atBrace
    exact ih.step .openCode rfl rfl
  | case7 operand taken outer c cs plain noEnd noCode ih =>
    exact ih.step (.textChar plain noEnd (by simpa using noCode)) rfl rfl
  | case8 operand taken outer c cs plain depth blank ih =>
    exact ih.step (.space plain (by simpa using blank)) rfl rfl
  | case9 operand taken outer cs depth _ _ ih => exact ih.step .openText rfl rfl
  | case10 operand taken outer c cs plain depth visible noTemplate isQuote string =>
    have escaped := (takeQuoted_eq_none_iff plain).mp string
    exact (TemplateStop.string isQuote noTemplate escaped).run outer taken
  | case11 operand taken outer c cs _ depth _ noTemplate isQuote inside string _ ih =>
    obtain ⟨inner, quoted, atInner, atInside⟩ := takeQuoted_eq_some_iff.mp string
    exact ih.step (.string isQuote noTemplate quoted) (by simp [atInside]) (by simp [atInner])
  | case12 operand taken outer cs depth opening _ _ _ _ _ ih =>
    obtain ⟨cs, rfl⟩ := List.head?_eq_some_iff.mp opening
    obtain ⟨body, sameLine, stop, atBody, atInside⟩ :=
      takeRun_eq_iff.mp (rfl : takeLineComment ('/' :: '/' :: taken) cs = _)
    refine ih.step (.lineComment (by simpa using sameLine) (by simpa using stop)) ?_ ?_
    · simpa using atInside
    · simpa using atBody
  | case13 operand taken outer cs depth _ opening _ _ _ _ comment =>
    obtain ⟨cs, rfl⟩ := List.head?_eq_some_iff.mp opening
    exact (TemplateStop.comment (takeBlockComment_eq_none_iff.mp comment)).run outer taken
  | case14 operand taken outer cs depth _ opening inside _ _ _ _ comment _ ih =>
    obtain ⟨cs, rfl⟩ := List.head?_eq_some_iff.mp opening
    obtain ⟨body, closing, atBody, atInside⟩ := takeBlockComment_eq_some_iff.mp comment
    exact ih.step (.blockComment closing) (by simp [atInside]) (by simpa using atBody)
  | case15 taken outer cs depth noLine noBlock _ _ _ _ regex =>
    have slashes := takeRegexBody_eq_none_iff.mp (Option.map_eq_none_iff.mp regex)
    exact (TemplateStop.regex noLine noBlock slashes).run outer taken
  | case16 taken outer cs depth noLine noBlock inside _ _ _ _ regex _ ih =>
    obtain ⟨body, flags, inner, letters, stop, rfl, atInside⟩ := takeRegex_eq_some_iff.mp regex
    obtain ⟨e, body, rfl⟩ := List.exists_cons_of_ne_nil inner.ne_nil
    exact ih.step (.regex inner noLine noBlock letters stop) (by simp [atInside]) (by simp)
  | case17 operand taken outer cs depth noLine noBlock divides _ _ _ _ ih =>
    rw [Bool.not_eq_true] at divides
    subst divides
    exact ih.step (.division noLine noBlock) rfl rfl
  | case18 operand taken outer cs depth _ _ _ _ _ ih => exact ih.step .openBrace rfl rfl
  | case19 operand taken outer cs _ _ _ _ _ _ ih => exact ih.step .endCode rfl rfl
  | case20 operand taken outer cs _ _ _ _ _ _ depth ih => exact ih.step .closeBrace rfl rfl
  | case21 operand taken outer c cs plain depth visible noTemplate noQuote noSlash noOpen noClose ih =>
    simp only [Bool.or_eq_true, decide_eq_true_eq, not_or, Bool.not_eq_true] at visible
    have special : c ∉ ['\\', '/', leftBrace, rightBrace] := by simp [plain, noSlash, noOpen, noClose]
    exact ih.step (.codeChar special visible.1 visible.2 noQuote) rfl rfl

end Elision
