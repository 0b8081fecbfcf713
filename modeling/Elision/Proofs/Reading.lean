import Elision.Proofs.Nesting

namespace Elision

/-- A character that is kept by itself: no blank, no end of a line and no quote. -/
def IsCode (c : Char) : Prop :=
  classify c ≠ .whitespace ∧ isLineTerminator c = false ∧ classify c ≠ .quote

namespace Lexeme

/-- The lexeme has the form of its kind, whatever stands around it. -/
def Whole : Lexeme → Prop
  | .blank c => classify c = .whitespace
  | .lineBreak c => isLineTerminator c = true
  | .lineComment tail => ∀ c ∈ tail, isLineTerminator c = false
  | .blockComment tail => BlockTail tail
  | .code c => IsCode c
  | .quoted quote tail =>
    quote = backtick ∧ Level .text true tail ∨
      quote ≠ backtick ∧ classify quote = .quote ∧ QuotedTail quote tail
  | .regex tail flags =>
    RegexTail false tail ∧ tail.head? ≠ some '/' ∧ tail.head? ≠ some '*' ∧
      ∀ c ∈ flags, c.isAlpha = true

/-- The lexeme ends where `ahead` follows. Only comments up to the end of the line, flags and the
slash of a division depend on what stands behind them. -/
def EndsBefore (ahead : Option Char) : Lexeme → Prop
  | .lineComment _ => ∀ c ∈ ahead, isLineTerminator c = true
  | .code c => c = '/' → ahead ≠ some '/' ∧ ahead ≠ some '*'
  | .regex _ _ => ∀ c ∈ ahead, c.isAlpha = false
  | _ => True

/-- The lexeme fits the last token before it, of which only the reading of a slash depends. -/
def Agrees (opensRegex : Bool) : Lexeme → Prop
  | .code c => c = '/' → opensRegex = false
  | .regex _ _ => opensRegex = true
  | _ => True

/-- All that reading a lexeme depends on. -/
structure Legible (opensRegex : Bool) (lexeme : Lexeme) (rest : List Char) : Prop where
  whole : lexeme.Whole
  endsBefore : lexeme.EndsBefore rest.head?
  agrees : lexeme.Agrees opensRegex

theorem legible_of_read {opensRegex : Bool} {c : Char} {cs : List Char} {got : Read}
    (closed : read opensRegex c cs = .ok got) : got.lexeme.Legible opensRegex got.rest := by
  unfold read at closed
  split at closed
  · rename_i isBlank
    cases closed
    exact ⟨isBlank, trivial, trivial⟩
  · rename_i isNewline
    cases closed
    refine ⟨?_, trivial, trivial⟩
    rcases classify_eq_newline_iff.mp isNewline with rfl | rfl <;> rfl
  · rename_i isSlash
    cases eq_slash_of_classify isSlash
    split at closed
    · cases closed
      obtain ⟨tail, sameLine, stop, _, atTaken⟩ :=
        takeRun_eq_iff.mp (rfl : takeLineComment [] cs.tail = _)
      refine ⟨?_, by simpa [EndsBefore] using stop, trivial⟩
      simpa [Whole, atTaken] using sameLine
    · rename_i noLine
      split at closed
      · split at closed
        · cases closed
        · rename_i cut comment
          cases closed
          obtain ⟨tail, closing, _, atTaken⟩ := takeBlockComment_eq_some_iff.mp comment
          exact ⟨by simpa [Whole, atTaken] using closing, trivial, trivial⟩
      · rename_i noBlock
        split at closed
        · rename_i opens
          split at closed
          · cases closed
          · rename_i body regex
            cases closed
            obtain ⟨tail, inner, same, atTail⟩ := takeRegexBody_eq_some_iff.mp regex
            obtain ⟨flags, letters, stop, _, atFlags⟩ :=
              takeRun_eq_iff.mp (rfl : takeFlags [] body.rest = _)
            obtain ⟨e, tail, rfl⟩ := List.exists_cons_of_ne_nil inner.ne_nil
            subst same
            refine ⟨?_, stop, opens⟩
            simp only [atTail, atFlags, List.append_nil, List.reverse_reverse]
            exact ⟨inner, noLine, noBlock, letters⟩
        · rename_i divides
          cases closed
          exact ⟨⟨by decide, by decide, by decide⟩, fun _ => ⟨noLine, noBlock⟩,
            fun _ => by simpa using divides⟩
  · rename_i isQuote
    split at closed
    · rename_i isTemplate
      split at closed
      · cases closed
      · rename_i cut template
        cases closed
        obtain ⟨tail, level, _, atTaken⟩ := takeTemplate_eq_ok_iff.mp template
        refine ⟨.inl ⟨isTemplate, ?_⟩, trivial, trivial⟩
        simpa [atTaken] using level
    · rename_i noTemplate
      split at closed
      · cases closed
      · rename_i cut string
        cases closed
        obtain ⟨tail, inner, _, atTaken⟩ := takeQuoted_eq_some_iff.mp string
        refine ⟨.inr ⟨noTemplate, isQuote, ?_⟩, trivial, trivial⟩
        simpa [atTaken] using inner
  · rename_i noBlank noNewline noSlash noQuote
    cases closed
    dsimp only
    split
    · rename_i lineEnd
      exact ⟨lineEnd, trivial, trivial⟩
    · rename_i sameLine
      have apart : c ≠ '/' := by rintro rfl; exact noSlash rfl
      exact ⟨⟨noBlank, by simpa using sameLine, noQuote⟩, fun slash => absurd slash apart,
        fun slash => absurd slash apart⟩

theorem read_of_legible {opensRegex : Bool} {lexeme : Lexeme} {c : Char} {cs rest : List Char}
    (legible : lexeme.Legible opensRegex rest) (atText : lexeme.text ++ rest = c :: cs) :
    read opensRegex c cs = .ok ⟨lexeme, rest⟩ := by
  obtain ⟨whole, ends, agrees⟩ := legible
  cases lexeme with
  | blank d =>
    obtain ⟨rfl, rfl⟩ : d = c ∧ rest = cs := by simpa [text] using atText
    have isBlank : classify d = .whitespace := whole
    unfold read
    simp [isBlank]
  | lineBreak d =>
    obtain ⟨rfl, rfl⟩ : d = c ∧ rest = cs := by simpa [text] using atText
    simp only [Whole, isLineTerminator, Bool.or_eq_true, decide_eq_true_eq] at whole
    rcases whole with ((rfl | rfl) | rfl) | rfl <;> rfl
  | lineComment tail =>
    cases atText
    have taking : takeLineComment [] (tail ++ rest) = ⟨tail.reverse, rest⟩ :=
      takeRun_eq_iff.mpr ⟨tail, by simpa [Whole] using whole, by simpa [EndsBefore] using ends, rfl,
        by simp⟩
    unfold read
    simp [taking]
  | blockComment tail =>
    cases atText
    have closed : takeBlockComment [] (tail ++ rest) = some ⟨tail.reverse, rest⟩ :=
      takeBlockComment_eq_some_iff.mpr ⟨tail, whole, rfl, by simp⟩
    unfold read
    simp [closed]
  | code d =>
    obtain ⟨rfl, rfl⟩ : d = c ∧ rest = cs := by simpa [text] using atText
    obtain ⟨noBlank, sameLine, noQuote⟩ := whole
    by_cases slash : d = '/'
    · subst slash
      obtain ⟨noLine, noBlock⟩ := ends rfl
      have divides := agrees rfl
      unfold read
      simp [noLine, noBlock, divides]
    · have noSlash : classify d ≠ .slash := fun atSlash => slash (eq_slash_of_classify atSlash)
      have noNewline : classify d ≠ .newline := by
        intro atNewline
        rcases classify_eq_newline_iff.mp atNewline with rfl | rfl <;> cases sameLine
      unfold read
      split
      · contradiction
      · contradiction
      · contradiction
      · contradiction
      · simp [sameLine]
  | quoted quote tail =>
    cases atText
    rcases whole with ⟨rfl, level⟩ | ⟨noTemplate, isQuote, inner⟩
    · have closed : takeTemplate ⟨.string, backtick :: (tail ++ rest)⟩ [.text] true [] (tail ++ rest) =
          .ok ⟨tail.reverse, rest⟩ :=
        takeTemplate_eq_ok_iff.mpr ⟨tail, level, rfl, by simp⟩
      unfold read
      simp [closed]
    · have closed : takeQuoted c [] (tail ++ rest) = some ⟨tail.reverse, rest⟩ :=
        takeQuoted_eq_some_iff.mpr ⟨tail, inner, rfl, by simp⟩
      unfold read
      simp [isQuote, noTemplate, closed]
  | regex tail flags =>
    obtain ⟨inner, noLine, noBlock, letters⟩ := whole
    obtain ⟨e, tail, rfl⟩ := List.exists_cons_of_ne_nil inner.ne_nil
    simp only [text, List.cons_append, List.append_assoc, List.cons.injEq] at atText
    obtain ⟨rfl, rfl⟩ := atText
    have closed : takeRegexBody false [] (e :: (tail ++ (flags ++ rest))) =
        some ⟨(e :: tail).reverse, flags ++ rest⟩ :=
      takeRegexBody_eq_some_iff.mpr ⟨e :: tail, inner, rfl, by simp⟩
    have flagged : takeFlags [] (flags ++ rest) = ⟨flags.reverse, rest⟩ :=
      takeRun_eq_iff.mpr ⟨flags, letters, ends, rfl, by simp⟩
    have opens : opensRegex = true := agrees
    have noLine : e ≠ '/' := by simpa using noLine
    have noBlock : e ≠ '*' := by simpa using noBlock
    unfold read
    simp [noLine, noBlock, opens, closed, flagged]

/-- A lexeme is read from the head of a text exactly when it stands there as a whole, ends before
what follows and fits what came before. Nothing else of the text has any influence. -/
theorem read_eq_ok_iff {opensRegex : Bool} {c : Char} {cs : List Char} {got : Read} :
    read opensRegex c cs = .ok got ↔
      got.lexeme.text ++ got.rest = c :: cs ∧ got.lexeme.Legible opensRegex got.rest := by
  constructor
  · intro closed
    exact ⟨read_text closed, legible_of_read closed⟩
  · rintro ⟨atText, legible⟩
    exact read_of_legible legible atText

/-- What is reported where no lexeme can be read: the literal or comment that begins there, or what a
template that begins there leaves open. -/
inductive Stop (opensRegex : Bool) : Char → List Char → Unclosed → Prop
  | comment {cs} : takeBlockComment [] cs = none →
      Stop opensRegex '/' ('*' :: cs) ⟨.comment, '/' :: '*' :: cs⟩
  | regex {cs} : opensRegex = true → takeRegexBody false [] cs = none →
      Stop opensRegex '/' cs ⟨.regex, '/' :: cs⟩
  | string {quote cs} : classify quote = .quote → quote ≠ backtick → takeQuoted quote [] cs = none →
      Stop opensRegex quote cs ⟨.string, quote :: cs⟩
  | template {cs found} : takeTemplate ⟨.string, backtick :: cs⟩ [.text] true [] cs = .error found →
      Stop opensRegex backtick cs found

theorem stop_of_read {opensRegex : Bool} {c : Char} {cs : List Char} {unclosed : Unclosed}
    (failed : read opensRegex c cs = .error unclosed) : Stop opensRegex c cs unclosed := by
  unfold read at failed
  split at failed
  · cases failed
  · cases failed
  · rename_i isSlash
    cases eq_slash_of_classify isSlash
    split at failed
    · cases failed
    · split at failed
      · rename_i atStar
        obtain ⟨cs, rfl⟩ := List.head?_eq_some_iff.mp atStar
        split at failed
        · rename_i comment
          cases failed
          exact .comment comment
        · cases failed
      · split at failed
        · rename_i opens
          split at failed
          · rename_i regex
            cases failed
            exact .regex opens regex
          · cases failed
        · cases failed
  · rename_i isQuote
    split at failed
    · rename_i isTemplate
      subst isTemplate
      split at failed
      · rename_i template
        cases failed
        exact .template template
      · cases failed
    · rename_i noTemplate
      split at failed
      · rename_i string
        cases failed
        exact .string isQuote noTemplate string
      · cases failed
  · cases failed

end Lexeme

end Elision
