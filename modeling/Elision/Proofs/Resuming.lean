import Elision.Proofs.Failures
import Elision.Proofs.Lookahead
import Elision.Proofs.Separation

namespace Elision

theorem BlockTail.getLast?_eq {cs : List Char} (tail : BlockTail cs) : cs.getLast? = some '/' := by
  induction tail with
  | close => rfl
  | plain _ _ ih => simp [List.getLast?_cons, ih]

theorem Lexeme.last_sameLine {piece : Lexeme} (kept : piece.gap? = none) (whole : piece.Whole) :
    isLineTerminator piece.last.char = false := by
  cases piece with
  | code c => exact whole.2.1
  | quoted quote tail =>
    rcases whole with ⟨rfl, _⟩ | ⟨_, isQuote, _⟩
    · rfl
    · exact isLineTerminator_of_quote isQuote
  | regex tail flags =>
    cases atFlag : flags.getLast? with
    | none => simp [Lexeme.last, atFlag, isLineTerminator]
    | some flag =>
      have alpha := whole.2.2.2 flag (List.mem_of_getLast? atFlag)
      simpa [Lexeme.last, atFlag] using isLineTerminator_of_isAlpha alpha
  | _ => cases kept

/-- A lexeme that ends where a line ends is the end of that line and nothing more. -/
theorem Lexeme.Whole.eq_lineBreak {lexeme : Lexeme} {c : Char} (whole : lexeme.Whole)
    (atEnd : lexeme.text.getLast? = some c) (lineEnd : isLineTerminator c = true) :
    lexeme = .lineBreak c := by
  have sameLine : isLineTerminator c = false ∨ lexeme = .lineBreak c := by
    cases lexeme with
    | lineBreak d =>
      obtain rfl : d = c := by simpa [Lexeme.text] using atEnd
      exact .inr rfl
    | blank d =>
      obtain rfl : d = c := by simpa [Lexeme.text] using atEnd
      exact .inl (isLineTerminator_of_whitespace whole)
    | lineComment tail =>
      have inside : ∀ d ∈ tail, isLineTerminator d = false := whole
      have member : c = '/' ∨ c ∈ tail := by
        simpa [Lexeme.text, or_assoc] using List.mem_of_getLast? atEnd
      rcases member with rfl | member
      · exact .inl rfl
      · exact .inl (inside c member)
    | blockComment tail =>
      have atSlash := BlockTail.getLast?_eq whole
      obtain rfl : '/' = c := by simpa [Lexeme.text, List.getLast?_cons, atSlash] using atEnd
      exact .inl rfl
    | code | quoted | regex =>
      rw [Lexeme.getLast?_text rfl whole] at atEnd
      cases atEnd
      exact .inl (Lexeme.last_sameLine rfl whole)
  rcases sameLine with sameLine | same
  · rw [lineEnd] at sameLine
    cases sameLine
  · exact same

theorem dropMark_getLast? {source : List Char} {c : Char} (atEnd : source.getLast? = some c)
    (noMark : c ≠ byteOrderMark) : (dropMark source).getLast? = some c := by
  cases source with
  | nil => cases atEnd
  | cons d cs =>
    rw [dropMark]
    split
    · rename_i mark
      cases cs with
      | nil =>
        cases atEnd
        exact absurd mark noMark
      | cons e cs => simpa [List.getLast?_cons_cons] using atEnd
    · exact atEnd

/-- Behind a source that ends with its last line, a run goes on with all that it knew there. -/
theorem scan_append_line {first : List Char} {c : Char} (atEnd : first.getLast? = some c)
    (lineEnd : isLineTerminator c = true) (closed : (scan [] first).unclosed = none)
    (second : List Char) :
    scan [] (first ++ second) =
      (scan [] first).writer.run (scan [] first).lexemes.reverse second := by
  obtain ⟨lexemes, atLexemes, atSource, reads⟩ := (Writer.start []).run_reads [] (dropMark first)
  have finished := Writer.run_unread_of_closed closed
  rw [← scan] at atLexemes atSource reads
  rw [← scan] at finished
  rw [finished] at atSource reads
  rw [List.append_nil] at atSource
  have noMark : c ≠ byteOrderMark := by
    rintro rfl
    cases lineEnd
  have ignores : ∀ lexeme ∈ lexemes.getLast?, lexeme.Ignores ([] : List Char).head? second.head? := by
    intro lexeme atLast
    obtain ⟨before, rfl⟩ := List.getLast?_eq_some_iff.mp atLast
    have endText := dropMark_getLast? atEnd noMark
    have last := List.getLast?_eq_some_getLast (List.ne_nil_of_length_pos lexeme.text_length_pos)
    rw [atSource, textOf_append, textOf_cons, textOf_nil, List.append_nil, List.getLast?_append, last,
      Option.some_or] at endText
    rw [(reads.whole lexeme (by simp)).eq_lineBreak (last.trans endText) lineEnd]
    exact Lexeme.lineBreak_ignores c _ _
  have resumed := (reads.of_ahead ignores).run_append []
  have nonempty : first ≠ [] := by
    rintro rfl
    cases atEnd
  rw [scan, dropMark_append nonempty, atSource, resumed, atLexemes]
  simp

/-- What is written stays written. -/
theorem Writer.out_prefix_run (writer : Writer) (seen : List Lexeme) (source : List Char) :
    writer.out.reverse <+: (writer.run seen source).writer.out.reverse := by
  obtain ⟨lexemes, _, _, reads⟩ := writer.run_reads seen source
  exact ⟨_, reads.written.symm⟩

/-- Text behind a finished line neither changes what was written for the lines before it nor makes
any construct in them fail. -/
theorem minify_append_line {first out : String} {c : Char} (atEnd : first.toList.getLast? = some c)
    (lineEnd : isLineTerminator c = true) (done : minify first = .ok out) (second : String) :
    (∃ more, minify (first ++ second) = .ok (out ++ more)) ∨
      ∃ failure, minify (first ++ second) = .error failure ∧
        first.utf8ByteSize ≤ failure.start.offset := by
  obtain ⟨closed, atOut⟩ := minify_eq_ok_iff.mp done
  have resumed := scan_append_line atEnd lineEnd closed second.toList
  rw [← String.toList_append] at resumed
  cases result : (scan [] (first ++ second).toList).unclosed with
  | none =>
    obtain ⟨more, written⟩ := (scan [] first.toList).writer.out_prefix_run
      (scan [] first.toList).lexemes.reverse second.toList
    rw [← resumed, ← atOut] at written
    exact .inl ⟨String.ofList more, minify_eq_ok_iff.mpr ⟨result, by simp [written]⟩⟩
  | some unclosed =>
    have failed := minify_eq_error_iff.mpr ⟨unclosed, result, rfl⟩
    refine .inr ⟨_, failed, ?_⟩
    rw [resumed] at result
    obtain ⟨before, atSecond⟩ := (Writer.isOpen_of_run result).2
    have split : (first ++ second).toList = (first.toList ++ before) ++ unclosed.opener := by
      rw [String.toList_append, ← atSecond, List.append_assoc]
    have offset := Unclosed.locate_offset split
    have bytes : byteLength first.toList = first.utf8ByteSize := by
      rw [byteLength_eq, String.ofList_toList]
    rw [byteLength_append] at offset
    omega

/-- The line ends between two characters that count as one end, and a string behind it is open. -/
theorem minify_append_line_split :
    "a // x\r".toList.getLast? = some '\r' ∧ minify "a // x\r" = .ok "\na" ∧
      ((∃ more, minify ("a // x\r" ++ "\n'b") = .ok ("\na" ++ more)) ∨
        ∃ failure, minify ("a // x\r" ++ "\n'b") = .error failure ∧
          "a // x\r".utf8ByteSize ≤ failure.start.offset) := by
  have atEnd : "a // x\r".toList.getLast? = some '\r' := by decide
  have done : minify "a // x\r" = .ok "\na" := minify_eq_ok_iff.mpr (by decide +kernel)
  exact ⟨atEnd, done, minify_append_line atEnd rfl done "\n'b"⟩

end Elision
