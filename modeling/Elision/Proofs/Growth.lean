import Elision.Proofs.Failures
import Elision.Proofs.Joints
import Elision.Proofs.Positions
import Elision.Proofs.Squeezing
import Mathlib.Data.List.Infix

namespace Elision

theorem Unclosed.kept_isPrefix {unclosed : Unclosed} {text : List Char}
    (inside : unclosed.opener <:+ text) : unclosed.kept text <+: text := by
  obtain ⟨front, rfl⟩ := inside
  unfold Unclosed.kept
  split
  · exact List.nil_prefix
  · exact List.prefix_rfl
  · rw [List.length_append, Nat.add_sub_cancel, List.take_left]
    exact (List.prefix_append_right_inj front).mpr (List.takeWhile_prefix _)

theorem byteLength_le_of_prefix {front text : List Char} (isPrefix : front <+: text) :
    byteLength front ≤ byteLength text := by
  obtain ⟨rest, rfl⟩ := isPrefix
  rw [byteLength_append]
  omega

namespace Writer

/-- What stands in the output when `count` more characters of the source have been read. Blanks and
comments are only read. A literal that has no end is written as far as it is read. -/
def writtenAt (writer : Writer) (source : List Char) (count : Nat) : List Char :=
  match source with
  | [] => writer.out.reverse
  | c :: cs =>
    match closed : Lexeme.read writer.token.opensRegex c cs with
    | .error unclosed => writer.copied (unclosed.kept (c :: cs)) cs.head? count
    | .ok got =>
      if count < got.lexeme.text.length then
        if got.lexeme.gap? = none then writer.copied got.lexeme.text got.rest.head? count
        else writer.out.reverse
      else
        have := Lexeme.read_rest_le closed
        (writer.accept got.lexeme got.rest.head?).writtenAt got.rest (count - got.lexeme.text.length)
termination_by source.length
decreasing_by simp only [List.length_cons]; omega

/-- The bytes written so far, and the one that an open gap may still cost. -/
def bytesDue (writer : Writer) : Nat :=
  byteLength writer.out.reverse + if writer.gap = .empty then 0 else 1

theorem byteLength_joint_le (writer : Writer) (next : Char) (ahead : Option Char) :
    byteLength (writer.joint next ahead) ≤ if writer.gap = .empty then 0 else 1 := by
  have joins : Joins writer next ahead (writer.joint next ahead) := Writer.joins rfl
  generalize writer.joint next ahead = joint at joins ⊢
  cases joins with
  | glued => exact Nat.zero_le _
  | spaced _ gap _ | broken _ gap _ => rw [gap]; exact Nat.le_refl 1
  | sign _ gapped | point _ gapped | markup _ gapped => rw [if_neg gapped]; exact Nat.le_refl 1
  | dropped => exact Nat.zero_le _

theorem byteLength_copied_le (writer : Writer) (text : List Char) (ahead : Option Char) (count : Nat) :
    byteLength (writer.copied text ahead count) ≤ writer.bytesDue + byteLength (text.take count) := by
  unfold copied bytesDue
  split
  · omega
  · rename_i c taken atTake
    have joint := writer.byteLength_joint_le c ahead
    rw [atTake, byteLength_append, byteLength_append]
    omega

/-- A lexeme that is kept costs its own bytes, and before them at most the one that was due. One that
is elided costs nothing, and its first byte pays for what may have to be written in its place. -/
theorem bytesDue_accept_le (writer : Writer) (lexeme : Lexeme) (ahead : Option Char) :
    (writer.accept lexeme ahead).bytesDue ≤ writer.bytesDue + byteLength lexeme.text := by
  have paid := byteLength_pos (List.ne_nil_of_length_pos lexeme.text_length_pos)
  unfold accept
  split
  · rename_i gap atGap
    have due : (if writer.gap.widen gap = .empty then 0 else 1) ≤ 1 := by split <;> omega
    simp only [bytesDue] at due ⊢
    omega
  · have joint := writer.byteLength_joint_le lexeme.first ahead
    simp only [bytesDue, keep, List.reverse_append, List.reverse_reverse, byteLength_append, ↓reduceIte]
    omega

/-- At no place has more been written than was due and has been read since. -/
theorem byteLength_writtenAt_le (writer : Writer) (source : List Char) (count : Nat) :
    byteLength (writer.writtenAt source count) ≤
      writer.bytesDue + byteLength (source.take count) := by
  fun_induction Writer.writtenAt writer source count with
  | case1 writer count => simp only [bytesDue]; omega
  | case2 writer count c cs unclosed failed =>
    have kept := Unclosed.kept_isPrefix (Lexeme.isOpen_of_read failed).2
    have copied := writer.byteLength_copied_le (unclosed.kept (c :: cs)) cs.head? count
    have read := byteLength_le_of_prefix (kept.take count)
    omega
  | case3 writer count c cs got closed inside kept =>
    have copied := writer.byteLength_copied_le got.lexeme.text got.rest.head? count
    rwa [← Lexeme.read_text closed, List.take_append_of_le_length (Nat.le_of_lt inside)]
  | case4 writer count c cs got closed inside elided => simp only [bytesDue]; omega
  | case5 writer count c cs got closed behind shorter ih =>
    -- The lexeme has paid for itself, and the bound goes on with the writer behind it.
    have step := writer.bytesDue_accept_le got.lexeme got.rest.head?
    rw [← Lexeme.read_text closed, List.take_append, List.take_of_length_le (by omega),
      byteLength_append]
    omega

@[simp] theorem copied_zero (writer : Writer) (text : List Char) (ahead : Option Char) :
    writer.copied text ahead 0 = writer.out.reverse := rfl

theorem copied_length (writer : Writer) (piece : Lexeme) (ahead : Option Char) :
    writer.copied piece.text ahead piece.text.length = (writer.keep piece ahead).out.reverse := by
  obtain ⟨tail, atText⟩ := piece.text_eq_cons
  simp [copied, keep, atText]

theorem copied_grows (writer : Writer) (text : List Char) (ahead : Option Char) (count : Nat) :
    writer.copied text ahead count <+: writer.copied text ahead (count + 1) := by
  cases text with
  | nil => simp [copied]
  | cons c text =>
    cases count with
    | zero => simp [copied]
    | succ count =>
      have more : c :: text.take count <+: c :: text.take (count + 1) :=
        List.cons_prefix_cons.mpr ⟨rfl, List.take_prefix_take_left (Nat.le_succ count)⟩
      exact (List.prefix_append_right_inj _).mpr more

section WrittenAt

variable {writer : Writer} {c : Char} {cs : List Char}

theorem writtenAt_error {unclosed : Unclosed}
    (failed : Lexeme.read writer.token.opensRegex c cs = .error unclosed) (count : Nat) :
    writer.writtenAt (c :: cs) count = writer.copied (unclosed.kept (c :: cs)) cs.head? count := by
  rw [writtenAt.eq_def]
  dsimp only
  split
  · rename_i found same
    cases failed.symm.trans same
    rfl
  · rename_i same
    cases failed.symm.trans same

theorem writtenAt_ok {got : Lexeme.Read}
    (closed : Lexeme.read writer.token.opensRegex c cs = .ok got) (count : Nat) :
    writer.writtenAt (c :: cs) count =
      if count < got.lexeme.text.length then
        if got.lexeme.gap? = none then writer.copied got.lexeme.text got.rest.head? count
        else writer.out.reverse
      else
        (writer.accept got.lexeme got.rest.head?).writtenAt got.rest
          (count - got.lexeme.text.length) := by
  rw [writtenAt.eq_def]
  dsimp only
  split
  · rename_i same
    cases closed.symm.trans same
  · rename_i other same
    cases closed.symm.trans same
    rfl

end WrittenAt

@[simp] theorem writtenAt_zero (writer : Writer) (source : List Char) :
    writer.writtenAt source 0 = writer.out.reverse := by
  cases source with
  | nil => rw [writtenAt]
  | cons c cs =>
    cases reading : Lexeme.read writer.token.opensRegex c cs with
    | error unclosed =>
      rw [writtenAt_error reading]
      rfl
    | ok got =>
      rw [writtenAt_ok reading, if_pos got.lexeme.text_length_pos]
      split <;> rfl

/-- What is written stays written, from each character read to the next. -/
theorem writtenAt_grows (writer : Writer) (source : List Char) (count : Nat) :
    writer.writtenAt source count <+: writer.writtenAt source (count + 1) := by
  fun_induction Writer.writtenAt writer source count with
  | case1 writer count => simp [writtenAt]
  | case2 writer count c cs unclosed failed =>
    rw [writtenAt_error failed]
    exact writer.copied_grows _ _ _
  | case3 writer count c cs got closed inside kept =>
    have more := writer.copied_grows got.lexeme.text got.rest.head? count
    rw [writtenAt_ok closed, if_pos kept]
    split
    · exact more
    · have atEnd : count + 1 = got.lexeme.text.length := by omega
      rw [atEnd, copied_length] at more
      rwa [atEnd, Nat.sub_self, writtenAt_zero, writer.accept_kept kept]
  | case4 writer count c cs got closed inside elided =>
    rw [writtenAt_ok closed, if_neg elided]
    split
    · exact List.prefix_rfl
    · have atEnd : count + 1 = got.lexeme.text.length := by omega
      refine ⟨[], ?_⟩
      rw [List.append_nil, atEnd, Nat.sub_self, writtenAt_zero, writer.accept_elided elided]
      rfl
  | case5 writer count c cs got closed behind shorter ih =>
    have atNext : count + 1 - got.lexeme.text.length = count - got.lexeme.text.length + 1 := by omega
    rw [writtenAt_ok closed, if_neg (by omega), atNext]
    exact ih

/-- Between two lexemes this is what the run itself has written. -/
theorem writtenAt_reads {unread : List Char} {writer final : Writer} {lexemes : List Lexeme}
    (reads : Reads unread writer lexemes final) :
    writer.writtenAt (textOf lexemes ++ unread) (textOf lexemes).length = final.out.reverse := by
  induction reads with
  | done => exact writtenAt_zero _ _
  | @next writer final lexeme later legible reads ih =>
    obtain ⟨tail, atText⟩ := lexeme.text_eq_cons
    have atSource : lexeme.text ++ (textOf later ++ unread) =
        lexeme.first :: (tail ++ (textOf later ++ unread)) := by simp [atText]
    have closed := Lexeme.read_of_legible legible atSource
    rw [textOf_cons, List.append_assoc, atSource, writtenAt_ok closed, List.length_append,
      if_neg (by simp), Nat.add_sub_cancel_left, ih]

/-- When a run stops, it has written what was due for all that it has read. -/
theorem run_written (writer : Writer) (seen : List Lexeme) (source : List Char) :
    (writer.run seen source).written = writer.writtenAt source source.length := by
  fun_induction Writer.run writer seen source with
  | case1 writer seen => rw [writtenAt, Scan.written]
  | case2 writer seen c cs unclosed failed => rw [writtenAt_error failed, Scan.written]; rfl
  | case3 writer seen c cs got closed shorter ih =>
    have whole : (c :: cs).length = got.lexeme.text.length + got.rest.length := by
      rw [← Lexeme.read_text closed, List.length_append]
    rw [ih, writtenAt_ok closed, if_neg (by omega), whole, Nat.add_sub_cancel_left]

end Writer

/-- The buffer when `count` characters of a source have been read. A byte-order mark in front is only
read. -/
def bufferAt (buffer source : List Char) (count : Nat) : List Char :=
  (Writer.start buffer).writtenAt (dropMark source) (count - (markOf source).length)

theorem bufferAt_grows (buffer source : List Char) (count : Nat) :
    bufferAt buffer source count <+: bufferAt buffer source (count + 1) := by
  unfold bufferAt
  by_cases inMark : count < (markOf source).length
  · have same : count + 1 - (markOf source).length = count - (markOf source).length := by omega
    exact ⟨[], by rw [same, List.append_nil]⟩
  · have next : count + 1 - (markOf source).length = count - (markOf source).length + 1 := by omega
    rw [next]
    exact Writer.writtenAt_grows _ _ _

/-- The buffer that was there before is left alone, and a line break follows it at once. -/
theorem buffer_prefix_bufferAt (buffer source : List Char) (count : Nat) :
    buffer ++ ['\n'] <+: bufferAt buffer source count := by
  induction count with
  | zero => simp [bufferAt, Writer.start]
  | succ count ih => exact ih.trans (bufferAt_grows buffer source count)

/-- Whether a scan fails or not, it leaves the buffer that it has come to at the end. -/
theorem scan_written (buffer source : List Char) :
    (scan buffer source).written = bufferAt buffer source source.length := by
  have whole : source.length = (markOf source).length + (dropMark source).length := by
    rw [← List.length_append, markOf_append_dropMark]
  rw [scan, Writer.run_written, bufferAt, whole, Nat.add_sub_cancel_left]

theorem byteLength_bufferAt_le (buffer source : List Char) (count : Nat) :
    byteLength (bufferAt buffer source count) ≤
      byteLength buffer + byteLength (source.take count) + 1 := by
  have due : (Writer.start buffer).bytesDue = byteLength buffer + 1 := by
    have newline : byteLength ['\n'] = 1 := rfl
    simp [Writer.bytesDue, Writer.start, byteLength_append, newline]
  have written := (Writer.start buffer).byteLength_writtenAt_le (dropMark source)
    (count - (markOf source).length)
  have read : byteLength (source.take count) = byteLength ((markOf source).take count) +
      byteLength ((dropMark source).take (count - (markOf source).length)) := by
    rw [← byteLength_append, ← List.take_append, markOf_append_dropMark]
  rw [due] at written
  unfold bufferAt
  omega

/-- The buffer follows the run: it only grows, and between two lexemes it is what was written for
those before. -/
theorem bufferAt_reads {buffer source unread : List Char} {lexemes : List Lexeme} {final : Writer}
    (reads : Reads unread (.start buffer) lexemes final)
    (atSource : dropMark source = textOf lexemes ++ unread) :
    bufferAt buffer source ((markOf source).length + (textOf lexemes).length) =
      final.out.reverse := by
  rw [bufferAt, Nat.add_sub_cancel_left, atSource, Writer.writtenAt_reads reads]

theorem bufferAt_of_ok {source out : String} (done : minify source = .ok out) :
    bufferAt [] source.toList source.toList.length = out.toList := by
  obtain ⟨closed, atOut⟩ := minify_eq_ok_iff.mp done
  obtain ⟨lexemes, _, atSource, reads⟩ := (Writer.start []).run_reads [] (dropMark source.toList)
  have finished := Writer.run_unread_of_closed closed
  rw [finished] at atSource reads
  have whole := bufferAt_reads reads atSource
  rw [List.append_nil] at atSource
  rw [← atSource, ← List.length_append, markOf_append_dropMark] at whole
  rw [whole, atOut]
  rfl

/-- At no moment has more been appended than was read, but for the line break in front: a separator
is always paid for by the gap that it stands for. So a buffer with one byte more than the source has
room for all of the result. -/
theorem appended_within_read (buffer source : String) :
    (∀ count, bufferAt buffer.toList source.toList count <+:
        bufferAt buffer.toList source.toList (count + 1)) ∧
      (∀ lexemes final unread, Reads unread (.start buffer.toList) lexemes final →
        dropMark source.toList = textOf lexemes ++ unread →
        bufferAt buffer.toList source.toList
          ((markOf source.toList).length + (textOf lexemes).length) = final.out.reverse) ∧
      (∀ count, buffer.toList <+: bufferAt buffer.toList source.toList count) ∧
      (∀ count appended, buffer.toList ++ appended <+: bufferAt buffer.toList source.toList count →
        byteLength appended ≤ byteLength (source.toList.take count) + 1) ∧
      (∀ count, byteLength (bufferAt [] source.toList count) ≤ source.utf8ByteSize + 1) ∧
      (∀ out, minify source = .ok out →
        bufferAt [] source.toList source.toList.length = out.toList ∧
        out.utf8ByteSize ≤ source.utf8ByteSize + 1) := by
  have room (count : Nat) : byteLength (bufferAt [] source.toList count) ≤ source.utf8ByteSize + 1 := by
    have written := byteLength_bufferAt_le [] source.toList count
    have read := byteLength_le_of_prefix (source.toList.take_prefix count)
    have whole : byteLength source.toList = source.utf8ByteSize := by
      rw [byteLength_eq, String.ofList_toList]
    have nothing : byteLength [] = 0 := rfl
    omega
  refine ⟨bufferAt_grows _ _, ?_, ?_, ?_, room, ?_⟩
  · intro lexemes final unread reads atSource
    exact bufferAt_reads reads atSource
  · intro count
    exact (List.prefix_append _ _).trans (buffer_prefix_bufferAt buffer.toList source.toList count)
  · intro count appended standing
    have written := byteLength_bufferAt_le buffer.toList source.toList count
    have within := byteLength_le_of_prefix standing
    rw [byteLength_append] at within
    omega
  · intro out done
    have atEnd := bufferAt_of_ok done
    have bytes := room source.toList.length
    rw [atEnd, byteLength_eq, String.ofList_toList] at bytes
    exact ⟨atEnd, bytes⟩

/-- A run that fails in a string behind a doubled dot has appended as much as it has read, and one
over a single letter has appended one byte more. -/
theorem appended_within_read_open :
    bufferAt "<".toList "1 .x 'ab".toList 8 = "<".toList ++ "\n1..x'ab".toList ∧
      byteLength "\n1..x'ab".toList ≤ byteLength ("1 .x 'ab".toList.take 8) + 1 ∧
      minify "a" = .ok "\na" ∧ "\na".utf8ByteSize ≤ "a".utf8ByteSize + 1 := by
  have standing : bufferAt "<".toList "1 .x 'ab".toList 8 = "<".toList ++ "\n1..x'ab".toList := by
    decide +kernel
  have done : minify "a" = .ok "\na" := minify_eq_ok_iff.mpr (by decide +kernel)
  obtain ⟨_, _, _, within, _, _⟩ := appended_within_read "<" "1 .x 'ab"
  obtain ⟨_, _, _, _, _, finished⟩ := appended_within_read "" "a"
  exact ⟨standing, within 8 _ ⟨[], standing.symm⟩, done, (finished _ done).2⟩

end Elision
