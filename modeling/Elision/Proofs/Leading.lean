import Elision.Proofs.Extension
import Elision.Proofs.Opacity

namespace Elision

/-- Blanks, ends of lines and comments in any order. A comment up to the end of its line has that end
behind it, so that it takes nothing of what follows. -/
inductive Trivia : List Char → Prop
  | done : Trivia []
  | blank {c text} : classify c = .whitespace → Trivia text → Trivia (c :: text)
  | lineEnd {c text} : isLineTerminator c = true → Trivia text → Trivia (c :: text)
  | blockComment {tail text} : BlockTail tail → Trivia text → Trivia ('/' :: '*' :: (tail ++ text))
  | lineComment {body c text} : (∀ d ∈ body, isLineTerminator d = false) →
      isLineTerminator c = true → Trivia text → Trivia ('/' :: '/' :: (body ++ c :: text))

/-- What may stand before a source and say nothing: trivia, with a byte-order mark in front or
without. -/
inductive Leading : List Char → Prop
  | plain {text} : Trivia text → Leading text
  | marked {text} : Trivia text → Leading (byteOrderMark :: text)

theorem Trivia.elided {text : List Char} (trivia : Trivia text) :
    ∃ gap, textOf gap = text ∧ ∀ rest, Elided rest gap := by
  induction trivia with
  | done => exact ⟨[], rfl, fun _ => trivial⟩
  | @blank c text isBlank _ ih =>
    obtain ⟨gap, rfl, elided⟩ := ih
    exact ⟨.blank c :: gap, rfl, fun rest => ⟨by simp [Lexeme.gap?], isBlank, trivial, elided rest⟩⟩
  | @lineEnd c text isEnd _ ih =>
    obtain ⟨gap, rfl, elided⟩ := ih
    exact ⟨.lineBreak c :: gap, rfl, fun rest => ⟨by simp [Lexeme.gap?], isEnd, trivial, elided rest⟩⟩
  | @blockComment tail text closing _ ih =>
    obtain ⟨gap, rfl, elided⟩ := ih
    exact ⟨.blockComment tail :: gap, rfl,
      fun rest => ⟨by simp [Lexeme.gap?], closing, trivial, elided rest⟩⟩
  | @lineComment body c text sameLine isEnd _ ih =>
    obtain ⟨gap, rfl, elided⟩ := ih
    refine ⟨.lineComment body :: .lineBreak c :: gap, by simp [Lexeme.text], ?_⟩
    intro rest
    have ends : (Lexeme.lineComment body).EndsBefore
        (textOf (.lineBreak c :: gap) ++ rest).head? := by
      simpa [Lexeme.EndsBefore, Lexeme.text] using isEnd
    exact ⟨by simp [Lexeme.gap?], sameLine, ends, by simp [Lexeme.gap?], isEnd, trivial, elided rest⟩

theorem Trivia.head?_ne {text : List Char} (trivia : Trivia text) :
    text.head? ≠ some byteOrderMark := by
  intro mark
  cases trivia with
  | done => cases mark
  | blank isBlank | lineEnd isEnd =>
    cases mark
    contradiction
  | blockComment | lineComment => cases mark

/-- Of all that leads a source only the trivia are read, and its mark is not taken for one of the
source. -/
theorem Leading.elided {lead source : List Char} (leading : Leading lead)
    (noMark : source.head? ≠ some byteOrderMark) :
    ∃ gap, dropMark (lead ++ source) = textOf gap ++ dropMark source ∧ ∀ rest, Elided rest gap := by
  cases leading with
  | plain trivia =>
    obtain ⟨gap, rfl, elided⟩ := trivia.elided
    refine ⟨gap, ?_, elided⟩
    rw [dropMark_append_of_head noMark, dropMark_of_head trivia.head?_ne, dropMark_of_head noMark]
  | marked trivia =>
    obtain ⟨gap, rfl, elided⟩ := trivia.elided
    refine ⟨gap, ?_, elided⟩
    rw [dropMark_of_head noMark]
    simp [dropMark]

theorem Elided.append {rest : List Char} {gap later : List Lexeme}
    (elided : Elided (textOf later ++ rest) gap) (more : Elided rest later) :
    Elided rest (gap ++ later) := by
  induction gap with
  | nil => exact more
  | cons lexeme gap ih =>
    obtain ⟨isGap, whole, ends, elided⟩ := elided
    refine ⟨isGap, whole, ?_, ih elided⟩
    simpa using ends

/-- More may be elided before the first piece. -/
theorem Laid.led {rest : List Char} {writer : Writer} {placed : Placed} {later : List Placed}
    {gap : List Lexeme} (laid : Laid rest writer (placed :: later)) (first : writer.last = none)
    (elided : ∀ text, Elided text gap) :
    Laid rest writer ({ placed with gap := gap ++ placed.gap } :: later) := by
  cases laid with
  | next inGap kept legible joint token laid =>
    -- There is no last character yet, so the wider gap changes neither the joint nor the writer.
    rw [Writer.keep_first first] at token laid
    refine .next ((elided _).append inGap) kept legible ?_ ?_ ?_
    · rw [joint]
      simp [Writer.joint, Writer.across, first]
    · rw [Writer.keep_first first]
      exact token
    · rw [Writer.keep_first first]
      exact laid

theorem Layout.Reaches.led {plan : Layout} {source other unread : List Char} {gap : List Lexeme}
    (reaches : plan.Reaches source unread) (elided : ∀ rest, Elided rest gap)
    (text : dropMark other = textOf gap ++ dropMark source) :
    (gap.foldr Layout.elide plan).Reaches other unread := by
  obtain ⟨atSource, laid, trail⟩ := reaches
  obtain ⟨pieces, lexemes⟩ := plan
  cases pieces with
  | nil =>
    rw [Layout.foldr_elide_nil]
    refine ⟨?_, .done, (elided _).append trail⟩
    rw [text, atSource]
    simp
  | cons placed later =>
    rw [Layout.foldr_elide_cons]
    refine ⟨?_, laid.led rfl elided, trail⟩
    rw [text, atSource]
    simp [Placed.source]

theorem Layout.foldr_elide_unchanged (gap : List Lexeme) (plan : Layout) :
    writtenOf (gap.foldr Layout.elide plan).pieces = writtenOf plan.pieces ∧
      ∀ token, endToken token (gap.foldr Layout.elide plan).pieces = endToken token plan.pieces := by
  induction gap with
  | nil => exact ⟨rfl, fun _ => rfl⟩
  | cons lexeme gap ih =>
    rw [List.foldr_cons, Layout.elide_written, ih.1]
    refine ⟨rfl, ?_⟩
    intro token
    rw [Layout.endToken_elide, ih.2]

/-- Behind what leads a source the run is the one over the source alone: it comes to the same end, and
it has written the same. -/
theorem scan_led {lead source : List Char} (leading : Leading lead)
    (noMark : source.head? ≠ some byteOrderMark) :
    (scan [] (lead ++ source)).unclosed = (scan [] source).unclosed ∧
      (scan [] (lead ++ source)).writer.out.reverse = (scan [] source).writer.out.reverse := by
  obtain ⟨gap, text, elided⟩ := leading.elided noMark
  obtain ⟨reaches, _, written⟩ := layout_reaches source
  obtain ⟨sameText, sameToken⟩ := Layout.foldr_elide_unchanged gap (layout source)
  obtain ⟨sameEnd, _, writtenLed⟩ := (reaches.led elided text).ends (sameToken .start)
  rw [writtenLed, written, sameText]
  exact ⟨sameEnd, rfl⟩

/-- A construct that is open begins behind all that leads the source. -/
theorem Unclosed.locate_led {source : List Char} {unclosed : Unclosed}
    (failed : (scan [] source).unclosed = some unclosed) (lead : List Char) :
    (unclosed.locate (lead ++ source)).start.offset =
      byteLength lead + (unclosed.locate source).start.offset := by
  have inside := (Writer.isOpen_of_run failed).2.trans (dropMark_suffix source)
  obtain ⟨before, atOpener⟩ := inside
  have ledOpener : lead ++ source = (lead ++ before) ++ unclosed.opener := by
    rw [← atOpener, List.append_assoc]
  rw [Unclosed.locate_offset ledOpener, Unclosed.locate_offset atOpener.symm, byteLength_append]

/-- Blanks, comments and a byte-order mark in front of a source say nothing. The source is minified as
if they were not there, and if it fails, it fails at the same construct, which begins as many bytes
later as were put before it. -/
theorem minify_behind_trivia {lead source : String} (leading : Leading lead.toList)
    (noMark : source.toList.head? ≠ some byteOrderMark) :
    (∀ out, minify (lead ++ source) = .ok out ↔ minify source = .ok out) ∧
      (∀ failure, minify source = .error failure →
        ∃ later, minify (lead ++ source) = .error later ∧ later.construct = failure.construct ∧
          later.start.offset = lead.utf8ByteSize + failure.start.offset) ∧
      (∀ later, minify (lead ++ source) = .error later →
        ∃ failure, minify source = .error failure ∧ later.construct = failure.construct ∧
          later.start.offset = lead.utf8ByteSize + failure.start.offset) := by
  obtain ⟨sameEnd, sameText⟩ := scan_led leading noMark
  rw [← String.toList_append] at sameEnd sameText
  have bytes : byteLength lead.toList = lead.utf8ByteSize := by
    rw [byteLength_eq, String.ofList_toList]
  have shifted {unclosed : Unclosed} (failed : (scan [] source.toList).unclosed = some unclosed) :
      (unclosed.locate (lead ++ source).toList).start.offset =
        lead.utf8ByteSize + (unclosed.locate source.toList).start.offset := by
    rw [String.toList_append, Unclosed.locate_led failed, bytes]
  refine ⟨?_, ?_, ?_⟩
  · intro out
    rw [minify_eq_ok_iff, minify_eq_ok_iff, sameEnd, sameText]
  · intro failure failed
    obtain ⟨unclosed, atUnclosed, rfl⟩ := minify_eq_error_iff.mp failed
    refine ⟨_, minify_eq_error_iff.mpr ⟨unclosed, ?_, rfl⟩, rfl, shifted atUnclosed⟩
    rw [sameEnd, atUnclosed]
  · intro later failed
    obtain ⟨unclosed, atUnclosed, rfl⟩ := minify_eq_error_iff.mp failed
    rw [sameEnd] at atUnclosed
    exact ⟨_, minify_eq_error_iff.mpr ⟨unclosed, atUnclosed, rfl⟩, rfl, shifted atUnclosed⟩

/-- Behind a mark and both kinds of comment a slash still opens a regular expression, as it does in
front of everything. -/
theorem minify_behind_trivia_comments :
    minify "\uFEFF /*/ x*/// y\n/a b/.c" = .ok "\n/a b/.c" ∧
      ∃ later, minify "\uFEFF /*/ x*/// y\n/a" = .error later ∧ later.construct = .regex ∧
        later.start.offset = 16 := by
  have comment : BlockTail "/ x*/".toList :=
    .plain (by decide) (.plain (by decide) (.plain (by decide) .close))
  have sameLine : ∀ c ∈ " y".toList, isLineTerminator c = false := by simp [isLineTerminator]
  have leading : Leading "\uFEFF /*/ x*/// y\n".toList :=
    .marked (.blank (by decide) (.blockComment comment (.lineComment sameLine rfl .done)))
  have done : minify "/a b/.c" = .ok "\n/a b/.c" := minify_eq_ok_iff.mpr (by decide +kernel)
  have failed : minify "/a" = .error ⟨.regex, .start⟩ :=
    minify_eq_error_iff.mpr ⟨⟨.regex, "/a".toList⟩, by decide +kernel, by decide +kernel⟩
  have closedMark : "/a b/.c".toList.head? ≠ some byteOrderMark := by decide
  have openMark : "/a".toList.head? ≠ some byteOrderMark := by decide
  obtain ⟨sameResult, _, _⟩ := minify_behind_trivia leading closedMark
  obtain ⟨_, sameFailure, _⟩ := minify_behind_trivia leading openMark
  exact ⟨(sameResult _).mpr done, sameFailure _ failed⟩

end Elision
