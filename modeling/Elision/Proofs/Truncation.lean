import Elision.Proofs.Lookahead
import Elision.Proofs.Positions

namespace Elision

/-- The text of a template leads into the code of a substitution, when `rest` stands behind it. -/
def EntersCode (inside rest : List Char) : Prop :=
  ∃ depth outer operand, TemplateSteps rest [.text] true inside (.code depth :: outer) operand

/-- A construct reported for a template is the template, or stands in a substitution of it. -/
theorem takeTemplate_error_cases {unclosed found : Unclosed} {taken cs : List Char}
    (failed : takeTemplate unclosed [.text] true taken cs = .error found) :
    found = unclosed ∨ ∃ inside, cs = inside ++ found.opener ∧ EntersCode inside found.opener := by
  obtain ⟨part, rest, final, last, rfl, steps, atEnd⟩ := takeTemplate_run unclosed [.text] true taken cs
  rw [failed] at atEnd
  cases atEnd with
  | stopped stop =>
    cases stop with
    | atEnd | escape | comment => exact .inl rfl
    | string | regex => exact .inr ⟨part, rfl, _, _, _, steps⟩

/-- Cut off in a substitution, a template is open itself. -/
theorem EntersCode.take {inside rest : List Char} (enters : EntersCode inside rest)
    (unclosed : Unclosed) (taken : List Char) :
    takeTemplate unclosed [.text] true taken inside = .error unclosed := by
  obtain ⟨depth, outer, operand, steps⟩ := enters
  have cut : TemplateSteps [] [.text] true inside (.code depth :: outer) operand :=
    steps.of_ahead (.inr (by simp))
  have taking := cut.take unclosed taken
  rwa [List.append_nil, takeTemplate] at taking

theorem Lexeme.read_error_cases {opensRegex : Bool} {c : Char} {cs : List Char} {unclosed : Unclosed}
    (failed : Lexeme.read opensRegex c cs = .error unclosed) :
    c ∈ ['/', doubleQuote, singleQuote, backtick] ∧
      (unclosed.opener = c :: cs ∨
        c = backtick ∧ ∃ inside, cs = inside ++ unclosed.opener ∧ EntersCode inside unclosed.opener) := by
  cases Lexeme.stop_of_read failed with
  | comment | regex => exact ⟨by simp, .inl rfl⟩
  | string isQuote => exact ⟨by simpa using .inr (classify_eq_quote_iff.mp isQuote), .inl rfl⟩
  | template template =>
    refine ⟨by simp, ?_⟩
    rcases takeTemplate_error_cases template with rfl | nested
    · exact .inl rfl
    · exact .inr ⟨rfl, nested⟩

theorem EntersCode.read {inside rest : List Char} (enters : EntersCode inside rest)
    (opensRegex : Bool) :
    Lexeme.read opensRegex backtick inside = .error ⟨.string, backtick :: inside⟩ := by
  have failed := enters.take ⟨.string, backtick :: inside⟩ []
  unfold Lexeme.read
  simp [failed]

/-- The construct at `opener` stands in a substitution of the template at which the run over the
source stops. The template begins behind `outside`, and `inside` is its text up to the construct. -/
structure NestedIn (source outside inside opener : List Char) : Prop where
  text : source = outside ++ backtick :: (inside ++ opener)
  stops : (scan [] source).unread = backtick :: (inside ++ opener)
  enters : EntersCode inside opener

/-- What stands before a lexeme that cannot be read is a source in itself. -/
theorem Reads.minify_front {c : Char} {cs front : List Char} {writer : Writer} {lexemes : List Lexeme}
    (reads : Reads (c :: cs) (.start []) lexemes writer) (noDash : c ≠ '-')
    (atFront : dropMark front = textOf lexemes) : ∃ out, minify (String.ofList front) = .ok out := by
  have alone : Reads [] (.start []) lexemes writer := by
    refine reads.of_ahead ?_
    intro lexeme _
    exact lexeme.ignores_none (by simpa using noDash)
  have run := alone.run []
  refine ⟨_, minify_eq_ok_iff.mpr ⟨?_, String.toList_ofList⟩⟩
  rw [String.toList_ofList, scan, atFront, run]

theorem Reads.minify_cut {cs inside rest front : List Char} {writer : Writer} {lexemes : List Lexeme}
    (reads : Reads (backtick :: cs) (.start []) lexemes writer) (enters : EntersCode inside rest)
    (atFront : dropMark front = textOf lexemes) :
    minify (String.ofList (front ++ backtick :: inside)) =
      .error (Unclosed.locate ⟨.string, backtick :: inside⟩ (front ++ backtick :: inside)) := by
  have cut : Reads (backtick :: inside) (.start []) lexemes writer := reads.of_head rfl
  have noMark : (backtick :: inside).head? ≠ some byteOrderMark := by simp +decide
  refine minify_eq_error_iff.mpr ⟨_, ?_, by rw [String.toList_ofList]⟩
  rw [String.toList_ofList, scan, dropMark_append_of_head noMark, atFront, cut.run_append,
    Writer.run_unclosed (enters.read _)]

/-- A run that fails has read the text before the lexeme at which it stops. -/
theorem scan_stops {source : List Char} {unclosed : Unclosed}
    (failed : (scan [] source).unclosed = some unclosed) :
    ∃ front c cs lexemes opensRegex writer, source = front ++ c :: cs ∧
      (scan [] source).unread = c :: cs ∧ dropMark front = textOf lexemes ∧
      Reads (c :: cs) (.start []) lexemes writer ∧
      Lexeme.read opensRegex c cs = .error unclosed := by
  obtain ⟨c, cs, atUnread, reading⟩ := Writer.run_stops failed
  obtain ⟨lexemes, _, atSource, reads⟩ := (Writer.start []).run_reads [] (dropMark source)
  rw [atUnread] at atSource reads
  obtain ⟨front, split, atFront⟩ := exists_dropMark_eq atSource
  exact ⟨front, c, cs, lexemes, _, _, split, atUnread, atFront, reads, reading⟩

/-- A source that is cut where its first failure begins can be minified, unless the cut is inside a
substitution. In that case the outermost template is left open, and nothing before it is. -/
theorem minify_cut_at_failure {source : String} {failure : Failure}
    (failed : minify source = .error failure) :
    ∃ before opener, source.toList = before ++ opener ∧
      byteLength before = failure.start.offset ∧
      ((¬∃ outside inside, NestedIn source.toList outside inside opener) ∧
          (∃ out, minify (String.ofList before) = .ok out) ∨
        ∃ outside inside, NestedIn source.toList outside inside opener ∧
          before = outside ++ backtick :: inside ∧
          (∃ out, minify (String.ofList outside) = .ok out) ∧
          ∃ earlier, minify (String.ofList before) = .error earlier ∧ earlier.construct = .string ∧
            earlier.start.offset = byteLength outside ∧
            earlier.start.offset < failure.start.offset) := by
  obtain ⟨unclosed, atUnclosed, rfl⟩ := minify_eq_error_iff.mp failed
  obtain ⟨front, c, cs, lexemes, opensRegex, writer, split, atUnread, atFront, reads, reading⟩ :=
    scan_stops atUnclosed
  obtain ⟨opens, atOpener | ⟨rfl, inside, rfl, enters⟩⟩ := Lexeme.read_error_cases reading
  · have noDash : c ≠ '-' := by
      rintro rfl
      simp +decide at opens
    have top : ¬∃ outside inside, NestedIn source.toList outside inside (c :: cs) := by
      rintro ⟨outside, inside, nested⟩
      have length := congrArg List.length (atUnread.symm.trans nested.stops)
      simp only [List.length_cons, List.length_append] at length
      omega
    have atStart : source.toList = front ++ unclosed.opener := by rw [atOpener, ← split]
    exact ⟨front, c :: cs, split, (Unclosed.locate_offset atStart).symm,
      .inl ⟨top, reads.minify_front noDash atFront⟩⟩
  · have atStart : source.toList = (front ++ backtick :: inside) ++ unclosed.opener := by
      rw [split, List.append_assoc, List.cons_append]
    have offset := Unclosed.locate_offset atStart
    have earlier : (Unclosed.locate ⟨.string, backtick :: inside⟩
        (front ++ backtick :: inside)).start.offset = byteLength front :=
      Unclosed.locate_offset rfl
    have more : 0 < byteLength (backtick :: inside) := byteLength_pos (List.cons_ne_nil _ _)
    refine ⟨front ++ backtick :: inside, unclosed.opener, atStart, offset.symm,
      .inr ⟨front, inside, ⟨split, atUnread, enters⟩, rfl, ?_, _, reads.minify_cut enters atFront,
        rfl, earlier, ?_⟩⟩
    · exact reads.minify_front (by decide) atFront
    · rw [offset, earlier, byteLength_append]
      omega

/-- A regular expression is open in a template that stands in a substitution itself. -/
theorem minify_cut_at_failure_nested :
    minify "a \x60$\x7b\x60$\x7b /[/]" = .error ⟨.regex, ⟨9, 1, 10⟩⟩ ∧
      ∃ before opener, "a \x60$\x7b\x60$\x7b /[/]".toList = before ++ opener ∧
        byteLength before = 9 ∧
        ((∃ out, minify (String.ofList before) = .ok out) ∨
          ∃ outside inside, NestedIn "a \x60$\x7b\x60$\x7b /[/]".toList outside inside opener ∧
            ∃ earlier, minify (String.ofList before) = .error earlier ∧ earlier.construct = .string ∧
              earlier.start.offset = byteLength outside ∧ earlier.start.offset < 9) := by
  have failed : minify "a \x60$\x7b\x60$\x7b /[/]" = .error ⟨.regex, ⟨9, 1, 10⟩⟩ :=
    minify_eq_error_iff.mpr ⟨⟨.regex, "/[/]".toList⟩, by decide +kernel, by decide +kernel⟩
  obtain ⟨before, opener, split, offset, ⟨_, finishes⟩ | ⟨outside, inside, nested, _, _, stops⟩⟩ :=
    minify_cut_at_failure failed
  · exact ⟨failed, before, opener, split, offset, .inl finishes⟩
  · exact ⟨failed, before, opener, split, offset, .inr ⟨outside, inside, nested, stops⟩⟩

end Elision
