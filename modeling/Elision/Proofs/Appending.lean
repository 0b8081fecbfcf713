import Elision.Proofs.Growth
import Elision.Proofs.Lookback
import Elision.Proofs.Places

namespace Elision

/-- The line break in front is still there. It hides the buffer from the only rule that looks back
into the text. -/
def Writer.OnOwnLine (writer : Writer) : Prop := writer.out.getLast? = some '\n'

theorem Writer.OnOwnLine.screened {writer : Writer} (ownLine : writer.OnOwnLine) : writer.Screened :=
  ⟨'\n', ownLine, by decide⟩

/-- The buffer has no influence on how a source is read or on what is written for it. -/
theorem scan_behind (buffer source : List Char) :
    scan buffer source = (scan [] source).behind buffer := by
  have ownLine : (Writer.start []).OnOwnLine := rfl
  exact Writer.run_behind ownLine.screened buffer [] (dropMark source)

theorem append_eq (buffer source : String) :
    append buffer source = (minify source).map (buffer ++ ·) := by
  unfold minify append Scan.result
  rw [scan_behind buffer.toList, show "".toList = [] from rfl]
  dsimp only [Scan.behind]
  split
  · rfl
  · simp [Except.map, Writer.behind, String.ofList_append]

/-- Whatever a run has written by some moment, the buffer that it began with is got back from it by
cutting. -/
theorem truncate?_bufferAt (buffer source : List Char) (count : Nat) :
    truncate? (bufferAt buffer source count) (byteLength buffer) = some buffer := by
  obtain ⟨more, written⟩ := buffer_prefix_bufferAt buffer source count
  rw [← written, List.append_assoc]
  exact truncate?_append buffer _

theorem minifyInto_eq_of_ok {source out : String} (done : minify source = .ok out) (buffer : String) :
    minifyInto buffer source = some (buffer ++ out, none) := by
  obtain ⟨closed, atOut⟩ := minify_eq_ok_iff.mp done
  have written : (scan buffer.toList source.toList).written = (buffer ++ out).toList := by
    rw [scan_behind, Scan.written, Scan.behind, closed, String.toList_append, atOut]
    simp [Writer.behind]
  have alsoClosed : (scan buffer.toList source.toList).unclosed = none := by
    rw [scan_behind]
    exact closed
  rw [minifyInto, alsoClosed, written]
  simp

/-- A run that fails leaves part of a result behind the buffer. The cut takes all of it away, and
nothing of the buffer. -/
theorem minifyInto_eq_of_error {source : String} {failure : Failure}
    (failed : minify source = .error failure) (buffer : String) :
    minifyInto buffer source = some (buffer, some failure) := by
  obtain ⟨unclosed, isOpen, rfl⟩ := minify_eq_error_iff.mp failed
  have alsoOpen : (scan buffer.toList source.toList).unclosed = some unclosed := by
    rw [scan_behind]
    exact isOpen
  have mark : buffer.utf8ByteSize = byteLength buffer.toList := by
    rw [byteLength_eq, String.ofList_toList]
  rw [minifyInto, alsoOpen, scan_written, mark, truncate?_bufferAt]
  simp

/-- The buffer behind the last of the sources. -/
def bufferAfter (buffer : String) (sources : List String) : String :=
  ((appendEach buffer sources).getLast?.map Prod.fst).getD buffer

/-- The results of those sources that have one, one behind the other. -/
def minifyEach (sources : List String) : String :=
  String.join (sources.filterMap fun source => (minify source).toOption)

theorem appendEach_ok {source out : String} (done : minify source = .ok out) (buffer : String)
    (sources : List String) :
    appendEach buffer (source :: sources) =
      (buffer ++ out, none) :: appendEach (buffer ++ out) sources := by
  rw [appendEach, minifyInto_eq_of_ok done]

theorem appendEach_error {source : String} {failure : Failure} (failed : minify source = .error failure)
    (buffer : String) (sources : List String) :
    appendEach buffer (source :: sources) = (buffer, some failure) :: appendEach buffer sources := by
  rw [appendEach, minifyInto_eq_of_error failed]

theorem appendEach_length (buffer : String) (sources : List String) :
    (appendEach buffer sources).length = sources.length := by
  induction sources generalizing buffer with
  | nil => rfl
  | cons source sources ih =>
    cases result : minify source with
    | ok out => simp [appendEach_ok result, ih]
    | error failure => simp [appendEach_error result, ih]

theorem minifyEach_append (before after : List String) :
    minifyEach (before ++ after) = minifyEach before ++ minifyEach after := by
  simp [minifyEach]

theorem minifyEach_ok {source out : String} (done : minify source = .ok out) :
    minifyEach [source] = out := by
  simp [minifyEach, done, Except.toOption]

theorem minifyEach_error {source : String} {failure : Failure}
    (failed : minify source = .error failure) : minifyEach [source] = "" := by
  simp [minifyEach, failed, Except.toOption]

theorem bufferAfter_cons (buffer source : String) (sources : List String) :
    bufferAfter buffer (source :: sources) = bufferAfter (buffer ++ minifyEach [source]) sources := by
  unfold bufferAfter
  cases result : minify source with
  | ok out =>
    rw [appendEach_ok result, minifyEach_ok result, List.getLast?_cons]
    cases (appendEach (buffer ++ out) sources).getLast? <;> rfl
  | error failure =>
    rw [appendEach_error result, minifyEach_error result, String.append_empty, List.getLast?_cons]
    cases (appendEach buffer sources).getLast? <;> rfl

theorem bufferAfter_eq (buffer : String) (sources : List String) :
    bufferAfter buffer sources = buffer ++ minifyEach sources := by
  induction sources generalizing buffer with
  | nil => simp [bufferAfter, minifyEach, appendEach]
  | cons source sources ih =>
    rw [bufferAfter_cons, ih, String.append_assoc, ← minifyEach_append, List.singleton_append]

theorem appendEach_append (buffer : String) (before after : List String) :
    appendEach buffer (before ++ after) =
      appendEach buffer before ++ appendEach (bufferAfter buffer before) after := by
  induction before generalizing buffer with
  | nil => rfl
  | cons source before ih =>
    rw [List.cons_append, bufferAfter_cons]
    cases result : minify source with
    | ok out =>
      rw [appendEach_ok result, appendEach_ok result, ih, minifyEach_ok result, List.cons_append]
    | error failure =>
      rw [appendEach_error result, appendEach_error result, ih, minifyEach_error result,
        String.append_empty, List.cons_append]

/-- Appended one after the other, each source fares as it does alone. One that can be minified adds its
result to the buffer, which in the end has grown by these results. One that fails has written part of a
result by then, as far as it was read, but at every moment the cut to the length from before gives the
buffer back, and never falls inside a character. -/
theorem appendEach_minifies (buffer : String) (sources : List String) :
    (appendEach buffer sources).length = sources.length ∧
      (∀ before source after, sources = before ++ source :: after →
        (∀ out, minify source = .ok out →
          (appendEach buffer sources)[before.length]? =
            some (bufferAfter buffer before ++ out, none)) ∧
        (∀ failure, minify source = .error failure →
          (appendEach buffer sources)[before.length]? =
            some (bufferAfter buffer before, some failure))) ∧
      bufferAfter buffer sources = buffer ++ minifyEach sources ∧
      (∀ source : String,
        (scan buffer.toList source.toList).written =
          bufferAt buffer.toList source.toList source.toList.length) ∧
      (∀ (source : String) (count : Nat),
        buffer.toList ++ ['\n'] <+: bufferAt buffer.toList source.toList count ∧
        truncate? (bufferAt buffer.toList source.toList count) buffer.utf8ByteSize =
          some buffer.toList) := by
  have mark : buffer.utf8ByteSize = byteLength buffer.toList := by
    rw [byteLength_eq, String.ofList_toList]
  refine ⟨appendEach_length buffer sources, ?_, bufferAfter_eq buffer sources, ?_, ?_⟩
  · rintro before source after rfl
    rw [appendEach_append, ← appendEach_length buffer before]
    constructor
    · intro out done
      simp [appendEach_ok done]
    · intro failure failed
      simp [appendEach_error failed]
  · intro source
    exact scan_written buffer.toList source.toList
  · intro source count
    rw [mark]
    exact ⟨buffer_prefix_bufferAt .., truncate?_bufferAt ..⟩

/-- The buffer ends as a markup comment begins, which the first source would complete. The second source
fails in a string whose last character takes two bytes, and the third goes on behind the first. -/
theorem appendEach_minifies_markup :
    minify "! --x" = .ok "\n!--x" ∧ minify "x = 'é" = .error ⟨.string, ⟨4, 1, 5⟩⟩ ∧
      (appendEach "<" ["! --x", "x = 'é", "y"])[1]? =
        some (bufferAfter "<" ["! --x"], some ⟨.string, ⟨4, 1, 5⟩⟩) ∧
      bufferAfter "<" ["! --x"] = "<\n!--x" ∧
      (scan "<\n!--x".toList "x = 'é".toList).written = "<\n!--x\nx='é".toList ∧
      truncate? "<\n!--x\nx='é".toList 6 = some "<\n!--x".toList := by
  have done : minify "! --x" = .ok "\n!--x" := minify_eq_ok_iff.mpr (by decide +kernel)
  have failed : minify "x = 'é" = .error ⟨.string, ⟨4, 1, 5⟩⟩ :=
    minify_eq_error_iff.mpr ⟨⟨.string, "'é".toList⟩, by decide +kernel, by decide +kernel⟩
  have partial_ : bufferAt "<\n!--x".toList "x = 'é".toList 6 = "<\n!--x\nx='é".toList := by
    decide +kernel
  obtain ⟨_, steps, _, _, _⟩ := appendEach_minifies "<" ["! --x", "x = 'é", "y"]
  obtain ⟨_, _, atEnd, _, _⟩ := appendEach_minifies "<" ["! --x"]
  obtain ⟨_, _, _, written, cut⟩ := appendEach_minifies "<\n!--x" []
  rw [minifyEach_ok done] at atEnd
  exact ⟨done, failed, (steps ["! --x"] "x = 'é" ["y"] rfl).2 _ failed, atEnd,
    (written "x = 'é").trans partial_, partial_ ▸ (cut "x = 'é" 6).2⟩

end Elision
