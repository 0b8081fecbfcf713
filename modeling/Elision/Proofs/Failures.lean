import Elision.Proofs.Escapes
import Elision.Proofs.Places
import Elision.Proofs.Reads

namespace Elision

/-- The construct is open at the end of the text: nothing behind its opening delimiter closes it. For
a template this says that the text can still become one, and that no part of it is one yet. -/
def Unclosed.IsOpen : Unclosed → Prop
  | ⟨.comment, opener⟩ => ∃ tail, opener = '/' :: '*' :: tail ∧ ¬['*', '/'] <:+: tail
  | ⟨.regex, opener⟩ => ∃ tail, opener = '/' :: tail ∧ SlashesStay false tail
  | ⟨.string, opener⟩ => ∃ quote tail, opener = quote :: tail ∧
      (quote ∈ [doubleQuote, singleQuote] ∧ AllEscaped quote tail ∨
        quote = backtick ∧ (∃ more, Level .text true (tail ++ more)) ∧
          ∀ part rest, tail = part ++ rest → ¬Level .text true part)

theorem isOpen_comment {taken tail : List Char} (failed : takeBlockComment taken tail = none) :
    Unclosed.IsOpen ⟨.comment, '/' :: '*' :: tail⟩ :=
  ⟨tail, rfl, takeBlockComment_eq_none_iff.mp failed⟩

theorem isOpen_regex {taken tail : List Char} (failed : takeRegexBody false taken tail = none) :
    Unclosed.IsOpen ⟨.regex, '/' :: tail⟩ :=
  ⟨tail, rfl, takeRegexBody_eq_none_iff.mp failed⟩

theorem isOpen_quoted {quote : Char} {tail : List Char} (isQuote : classify quote = .quote)
    (noTemplate : quote ≠ backtick) (escaped : AllEscaped quote tail) :
    Unclosed.IsOpen ⟨.string, quote :: tail⟩ := by
  refine ⟨quote, tail, rfl, .inl ⟨?_, escaped⟩⟩
  rcases classify_eq_quote_iff.mp isQuote with rfl | rfl | rfl
  · simp
  · simp
  · exact absurd rfl noTemplate

theorem level_code (depth : Nat) (operand : Bool) : ∃ cs, Level (.code depth) operand cs := by
  induction depth generalizing operand with
  | zero => exact ⟨_, .endCode⟩
  | succ depth ih =>
    obtain ⟨cs, level⟩ := ih false
    exact ⟨_, .closeBrace level⟩

/-- Whatever levels are open, they can be closed. -/
theorem exists_levels (frames : List Frame) (operand : Bool) : ∃ part, Levels frames operand part := by
  induction frames generalizing operand with
  | nil => exact ⟨[], .done⟩
  | cons frame outer ih =>
    obtain ⟨rest, levels⟩ := ih false
    cases frame with
    | text => exact ⟨_, .level .endText levels⟩
    | code depth =>
      obtain ⟨cs, level⟩ := level_code depth operand
      exact ⟨_, .level level levels⟩

theorem Levels.lineBreak {frame : Frame} {outer : List Frame} {operand : Bool} {part : List Char}
    (levels : Levels (frame :: outer) operand part) :
    Levels (frame :: outer) operand ('\n' :: part) := by
  cases frame with
  | text => exact levels.step (.textChar (by decide) (by decide) (by simp))
  | code => exact levels.step (.space (by decide) (.inr rfl))

/-- A construct found open while a template is scanned is the template itself, whose levels can then
still be closed, or another one inside it. -/
theorem takeTemplate_explains {unclosed found : Unclosed} {frames : List Frame} {operand : Bool}
    {taken cs : List Char} (failed : takeTemplate unclosed frames operand taken cs = .error found) :
    (found = unclosed ∧ ∃ more, Levels frames operand (cs ++ more)) ∨
      found.IsOpen ∧ found.opener <:+ cs := by
  obtain ⟨part, rest, final, last, rfl, steps, atEnd⟩ :=
    takeTemplate_run unclosed frames operand taken cs
  rw [failed] at atEnd
  cases atEnd with
  | @stopped frame outer _ _ stop =>
    obtain ⟨more, levels⟩ := exists_levels (frame :: outer) last
    cases stop with
    | atEnd =>
      -- The text may end in a comment, which the end of a line closes first.
      have broken := levels.lineBreak.of_steps (steps.of_ahead (.inr (by simp [isLineTerminator])))
      exact .inl ⟨rfl, '\n' :: more, by rwa [List.append_nil]⟩
    | escape =>
      have escaped : Levels (frame :: outer) last ('\\' :: 'x' :: more) := levels.step .escape
      have closed := escaped.of_steps (steps.of_ahead (.inl rfl))
      exact .inl ⟨rfl, 'x' :: more, by rwa [List.append_assoc]⟩
    | @comment depth _ cs noEnd =>
      have isOpen : takeBlockComment [] cs = none := takeBlockComment_eq_none_iff.mpr noEnd
      have ended := levels.step (.blockComment (blockTail_of_eq_none isOpen))
      have commented := ended.of_steps (steps.of_ahead (.inl rfl))
      exact .inl ⟨rfl, '*' :: '/' :: more, by simpa using commented⟩
    | string isQuote noTemplate escaped =>
      exact .inr ⟨isOpen_quoted isQuote noTemplate escaped, List.suffix_append part _⟩
    | regex _ _ slashes => exact .inr ⟨⟨_, rfl, slashes⟩, List.suffix_append part _⟩

theorem isOpen_template {taken tail : List Char} {found : Unclosed}
    (failed : takeTemplate ⟨.string, backtick :: tail⟩ [.text] true taken tail = .error found) :
    found.IsOpen ∧ found.opener <:+ backtick :: tail := by
  rcases takeTemplate_explains failed with ⟨rfl, more, levels⟩ | ⟨isOpen, inside⟩
  · refine ⟨⟨backtick, tail, rfl, .inr ⟨rfl, ⟨more, levels.level_of_singleton⟩, ?_⟩⟩,
      List.suffix_rfl⟩
    rintro part rest rfl level
    rw [(level.steps [] rest).take, takeTemplate] at failed
    cases failed
  · exact ⟨isOpen, inside.trans (List.suffix_cons backtick tail)⟩

/-- What a lexeme leaves open stands in its own text. -/
theorem Lexeme.isOpen_of_read {opensRegex : Bool} {c : Char} {cs : List Char} {unclosed : Unclosed}
    (failed : Lexeme.read opensRegex c cs = .error unclosed) :
    unclosed.IsOpen ∧ unclosed.opener <:+ c :: cs := by
  cases Lexeme.stop_of_read failed with
  | comment isOpen => exact ⟨isOpen_comment isOpen, List.suffix_rfl⟩
  | regex _ isOpen => exact ⟨isOpen_regex isOpen, List.suffix_rfl⟩
  | string isQuote noTemplate isOpen =>
    have plain : c ≠ '\\' := by
      rintro rfl
      cases isQuote
    have escaped := (takeQuoted_eq_none_iff plain).mp isOpen
    exact ⟨isOpen_quoted isQuote noTemplate escaped, List.suffix_rfl⟩
  | template isOpen => exact isOpen_template isOpen

theorem Writer.isOpen_of_run {writer : Writer} {seen : List Lexeme} {source : List Char}
    {unclosed : Unclosed} (failed : (writer.run seen source).unclosed = some unclosed) :
    unclosed.IsOpen ∧ unclosed.opener <:+ source := by
  fun_induction Writer.run writer seen source with
  | case1 => cases failed
  | case2 writer seen c cs found reading =>
    cases failed
    exact Lexeme.isOpen_of_read reading
  | case3 writer seen c cs got reading shorter ih =>
    obtain ⟨isOpen, inside⟩ := ih failed
    rw [← Lexeme.read_text reading]
    exact ⟨isOpen, inside.trans (List.suffix_append got.lexeme.text got.rest)⟩

theorem dropMark_suffix (source : List Char) : dropMark source <:+ source := by
  cases source with
  | nil => exact List.suffix_rfl
  | cons c cs =>
    rw [dropMark]
    split
    · exact List.suffix_cons c cs
    · exact List.suffix_rfl

theorem Unclosed.IsOpen.opener_ne_nil {unclosed : Unclosed} (isOpen : unclosed.IsOpen) :
    unclosed.opener ≠ [] := by
  obtain ⟨construct, opener⟩ := unclosed
  cases construct with
  | comment | regex =>
    obtain ⟨tail, rfl, _⟩ := isOpen
    simp
  | string =>
    obtain ⟨quote, tail, rfl, _⟩ := isOpen
    simp

/-- Every failure is real and tells where it began. A construct is opened at the place that it names,
in the main text or inside a template, and nothing behind that place closes it. Line and column are told
of places that counters of 32 bits can reach, and there such counters tell the same. -/
theorem minify_fails_at_opener {source : String} {failure : Failure}
    (failed : minify source = .error failure) :
    ∃ before opener, source.toList = before ++ opener ∧
      failure.start.offset = byteLength before ∧
      failure.start.offset < source.utf8ByteSize ∧
      String.Pos.Raw.IsValid source ⟨failure.start.offset⟩ ∧
      Unclosed.IsOpen ⟨failure.construct, opener⟩ ∧
      (before.length < UInt32.size - 1 →
        failure.start = .behind before opener ∧
          ∃ narrow, NarrowPosition.start.afterText? opener before = some narrow ∧
            narrow.wide = failure.start) := by
  obtain ⟨unclosed, atUnclosed, rfl⟩ := minify_eq_error_iff.mp failed
  obtain ⟨isOpen, inside⟩ := Writer.isOpen_of_run atUnclosed
  obtain ⟨before, atOpener⟩ := inside.trans (dropMark_suffix source.toList)
  have isBehind := Unclosed.locate_isBehind atOpener.symm
  have place : (unclosed.locate source.toList).start = .behind before unclosed.opener := by
    rw [← atOpener] at isBehind ⊢
    exact isBehind.eq_behind
  refine ⟨before, unclosed.opener, atOpener.symm, isBehind.offset_eq atOpener.symm,
    isBehind.offset_lt atOpener.symm isOpen.opener_ne_nil, isBehind.isValid atOpener.symm, isOpen, ?_⟩
  intro few
  obtain ⟨narrow, atNarrow, same⟩ := NarrowPosition.afterText?_start unclosed.opener few
  exact ⟨place, narrow, atNarrow, same.trans place.symm⟩

/-- A regular expression inside a substitution: one slash stands in a class, one is escaped, and the
line before it ends with two characters. -/
theorem minify_fails_at_opener_nested :
    minify "\uFEFFa\r\n\x60$\x7b /[/]\\/ \x7d\x60" = .error ⟨.regex, ⟨10, 2, 5⟩⟩ ∧
      ∃ before opener, "\uFEFFa\r\n\x60$\x7b /[/]\\/ \x7d\x60".toList = before ++ opener ∧
        byteLength before = 10 ∧ before.length < UInt32.size - 1 ∧
        Unclosed.IsOpen ⟨.regex, opener⟩ ∧
        ∃ narrow, NarrowPosition.start.afterText? opener before = some narrow ∧
          narrow.line = 2 ∧ narrow.column = 5 := by
  have failed : minify "\uFEFFa\r\n\x60$\x7b /[/]\\/ \x7d\x60" = .error ⟨.regex, ⟨10, 2, 5⟩⟩ :=
    minify_eq_error_iff.mpr
      ⟨⟨.regex, "/[/]\\/ \x7d\x60".toList⟩, by decide +kernel, by decide +kernel⟩
  obtain ⟨before, opener, split, offset, _, _, isOpen, counted⟩ := minify_fails_at_opener failed
  have few : before.length < UInt32.size - 1 := by
    have whole := congrArg List.length split
    rw [List.length_append] at whole
    have short : "\uFEFFa\r\n\x60$\x7b /[/]\\/ \x7d\x60".toList.length < UInt32.size - 1 := by decide
    omega
  obtain ⟨_, narrow, atNarrow, same⟩ := counted few
  have line : narrow.line.toNat = 2 := congrArg Position.line same
  have column : narrow.column.toNat = 5 := congrArg Position.column same
  exact ⟨failed, before, opener, split, offset.symm, few, isOpen, narrow, atNarrow,
    UInt32.toNat_inj.mp line, UInt32.toNat_inj.mp column⟩

end Elision
