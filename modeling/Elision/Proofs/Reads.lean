import Elision.Minify
import Elision.Proofs.Reading

namespace Elision

/-- The text of several lexemes, one behind the other. -/
def textOf (lexemes : List Lexeme) : List Char := lexemes.flatMap Lexeme.text

@[simp] theorem textOf_nil : textOf [] = [] := rfl

@[simp] theorem textOf_cons (lexeme : Lexeme) (later : List Lexeme) :
    textOf (lexeme :: later) = lexeme.text ++ textOf later := rfl

@[simp] theorem textOf_append (before after : List Lexeme) :
    textOf (before ++ after) = textOf before ++ textOf after :=
  List.flatMap_append

theorem textOf_eq_nil_iff {lexemes : List Lexeme} : textOf lexemes = [] ↔ lexemes = [] := by
  cases lexemes with
  | nil => simp
  | cons lexeme later =>
    have nonempty := List.ne_nil_of_length_pos lexeme.text_length_pos
    simp [nonempty]

/-- A writer takes lexemes one by one, each from the head of the text that is left, and comes out as
another. Behind the last lexeme stands `unread`. -/
inductive Reads (unread : List Char) : Writer → List Lexeme → Writer → Prop
  | done {writer} : Reads unread writer [] writer
  | next {writer final lexeme later} :
      lexeme.Legible writer.token.opensRegex (textOf later ++ unread) →
      Reads unread (writer.accept lexeme (textOf later ++ unread).head?) later final →
      Reads unread writer (lexeme :: later) final

/-- Every run reads the lexemes that it reports, up to the text that it leaves unread. -/
theorem Writer.run_reads (writer : Writer) (seen : List Lexeme) (source : List Char) :
    ∃ lexemes, (writer.run seen source).lexemes = seen.reverse ++ lexemes ∧
      source = textOf lexemes ++ (writer.run seen source).unread ∧
      Reads (writer.run seen source).unread writer lexemes (writer.run seen source).writer := by
  fun_induction Writer.run writer seen source with
  | case1 => exact ⟨[], by simp, rfl, .done⟩
  | case2 => exact ⟨[], by simp, rfl, .done⟩
  | case3 writer seen c cs got closed shorter ih =>
    obtain ⟨later, atLexemes, atRest, reads⟩ := ih
    obtain ⟨atText, legible⟩ := Lexeme.read_eq_ok_iff.mp closed
    refine ⟨got.lexeme :: later, by simp [atLexemes], ?_, ?_⟩
    · rw [← atText, textOf_cons, List.append_assoc, ← atRest]
    · refine .next ?_ ?_
      · rw [← atRest]; exact legible
      · rw [← atRest]; exact reads

theorem Writer.run_legible {writer : Writer} {lexeme : Lexeme} {rest : List Char}
    (legible : lexeme.Legible writer.token.opensRegex rest) (seen : List Lexeme) :
    writer.run seen (lexeme.text ++ rest) =
      (writer.accept lexeme rest.head?).run (lexeme :: seen) rest := by
  obtain ⟨c, cs, atText⟩ := List.exists_cons_of_ne_nil
    (List.append_ne_nil_of_left_ne_nil (List.ne_nil_of_length_pos lexeme.text_length_pos) rest)
  have closed := Lexeme.read_of_legible legible atText
  rw [atText, Writer.run.eq_def]
  split
  · contradiction
  · rename_i same
    cases same
    split
    · rename_i failed
      rw [closed] at failed
      cases failed
    · rename_i got closed'
      rw [closed] at closed'
      cases closed'
      rfl

/-- Lexemes that can be read one by one are what the run reads from their text, and it goes on behind
them as if it had started there. -/
theorem Reads.run_append {unread : List Char} {writer final : Writer} {lexemes : List Lexeme}
    (reads : Reads unread writer lexemes final) (seen : List Lexeme) :
    writer.run seen (textOf lexemes ++ unread) = final.run (lexemes.reverse ++ seen) unread := by
  induction reads generalizing seen with
  | done => rfl
  | next legible reads ih =>
    rw [textOf_cons, List.append_assoc, Writer.run_legible legible, ih]
    simp

theorem Reads.run {writer final : Writer} {lexemes : List Lexeme}
    (reads : Reads [] writer lexemes final) (seen : List Lexeme) :
    writer.run seen (textOf lexemes) = ⟨seen.reverse ++ lexemes, final, [], none⟩ := by
  have run := reads.run_append seen
  rw [List.append_nil] at run
  rw [run, Writer.run.eq_def]
  simp

theorem Reads.whole {unread : List Char} {writer final : Writer} {lexemes : List Lexeme}
    (reads : Reads unread writer lexemes final) : ∀ lexeme ∈ lexemes, lexeme.Whole := by
  induction reads with
  | done => simp
  | next legible _ ih => simpa using ⟨legible.whole, ih⟩

theorem scan_whole (source : List Char) : ∀ lexeme ∈ (scan [] source).lexemes, lexeme.Whole := by
  obtain ⟨lexemes, atLexemes, _, reads⟩ := (Writer.start []).run_reads [] (dropMark source)
  rw [scan, atLexemes]
  exact reads.whole

/-- The lexemes settle the writer behind them. -/
theorem Reads.unique {unread : List Char} {writer final other : Writer} {lexemes : List Lexeme}
    (reads : Reads unread writer lexemes final) (again : Reads unread writer lexemes other) :
    final = other := by
  induction reads with
  | done => cases again; rfl
  | next _ _ ih =>
    cases again with
    | next _ later => exact ih later

theorem Writer.run_unread_of_closed {writer : Writer} {seen : List Lexeme} {source : List Char}
    (closed : (writer.run seen source).unclosed = none) : (writer.run seen source).unread = [] := by
  fun_induction Writer.run writer seen source with
  | case1 => rfl
  | case2 => simp at closed
  | case3 writer seen c cs got _ _ ih => exact ih closed

theorem Writer.run_unclosed {writer : Writer} {c : Char} {cs : List Char} {unclosed : Unclosed}
    (failed : Lexeme.read writer.token.opensRegex c cs = .error unclosed) (seen : List Lexeme) :
    writer.run seen (c :: cs) = ⟨seen.reverse, writer, c :: cs, some unclosed⟩ := by
  rw [Writer.run.eq_def]
  dsimp only
  split
  · rename_i other same
    rw [failed] at same
    cases same
    rfl
  · rename_i got same
    rw [failed] at same
    cases same

/-- A run that is not closed has stopped at the lexeme that it could not read. -/
theorem Writer.run_stops {writer : Writer} {seen : List Lexeme} {source : List Char}
    {unclosed : Unclosed} (failed : (writer.run seen source).unclosed = some unclosed) :
    ∃ c cs, (writer.run seen source).unread = c :: cs ∧
      Lexeme.read (writer.run seen source).writer.token.opensRegex c cs = .error unclosed := by
  fun_induction Writer.run writer seen source with
  | case1 => cases failed
  | case2 writer seen c cs found reading =>
    cases failed
    exact ⟨c, cs, rfl, reading⟩
  | case3 writer seen c cs got _ _ ih => exact ih failed

theorem minify_eq_ok_iff {source out : String} :
    minify source = .ok out ↔
      (scan [] source.toList).unclosed = none ∧
        out.toList = (scan [] source.toList).writer.out.reverse := by
  unfold minify append Scan.result
  rw [show "".toList = [] from rfl]
  constructor
  · intro done
    split at done
    · cases done
    · rename_i closed
      cases done
      exact ⟨closed, by simp⟩
  · rintro ⟨closed, written⟩
    rw [closed, ← written]
    simp [Except.map]

theorem minify_eq_error_iff {source : String} {failure : Failure} :
    minify source = .error failure ↔
      ∃ unclosed, (scan [] source.toList).unclosed = some unclosed ∧
        failure = unclosed.locate source.toList := by
  unfold minify append Scan.result
  rw [show "".toList = [] from rfl]
  constructor
  · intro failed
    split at failed
    · rename_i unclosed atUnclosed
      cases failed
      exact ⟨unclosed, atUnclosed, rfl⟩
    · cases failed
  · rintro ⟨unclosed, atUnclosed, rfl⟩
    rw [atUnclosed]
    rfl

end Elision
