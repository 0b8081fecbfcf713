import Elision.Proofs.Lookahead
import Elision.Proofs.Replay

namespace Elision

/-- A blank may follow the last piece of a source. -/
theorem Laid.spaced {writer : Writer} {pieces : List Placed} (laid : Laid [] writer pieces)
    (more : List Char) : Laid (' ' :: more) writer pieces := by
  induction laid with
  | done => exact .done
  | @next writer placed later elided kept legible joint token laid ih =>
    have heads : (sourceOf later ++ []).head? = (sourceOf later ++ ' ' :: more).head? ∨
        (sourceOf later ++ []).head? = none ∧ (sourceOf later ++ ' ' :: more).head? = some ' ' := by
      cases sourceOf later with
      | nil => exact .inr ⟨rfl, rfl⟩
      | cons => exact .inl rfl
    have dash : (sourceOf later ++ []).head? = some '-' ↔
        (sourceOf later ++ ' ' :: more).head? = some '-' := by
      rcases heads with same | ⟨atEnd, atBlank⟩
      · rw [same]
      · rw [atEnd, atBlank]
        decide
    have ends : placed.piece.EndsBefore (sourceOf later ++ ' ' :: more).head? := by
      rcases heads with same | ⟨_, atBlank⟩
      · rw [← same]
        exact legible.endsBefore
      · rw [atBlank]
        exact Lexeme.endsBefore_mark kept (by decide)
    obtain ⟨sameJoint, sameKeep⟩ := (writer.across placed.gap).keep_ahead dash placed.piece
    rw [sameJoint] at joint
    rw [sameKeep] at token ih
    refine .next (elided.of_head ?_) kept ⟨legible.whole, ends, legible.agrees⟩ joint token ih
    obtain ⟨tail, atPiece⟩ := placed.piece.text_eq_cons
    simp [atPiece]

/-- Pieces that can be laid out behind any text with this last token, when `rest` stands behind
them. -/
def LaidBehind (rest : List Char) (token : Token) (pieces : List Placed) : Prop :=
  ∀ writer : Writer, writer.gap = .empty → writer.token.Fits writer.last → writer.token = token →
    Laid rest writer pieces

theorem Laid.append {rest : List Char} {writer : Writer} {before after : List Placed}
    (laid : Laid (sourceOf after ++ rest) writer before) (adjacent : writer.gap = .empty)
    (fits : writer.token.Fits writer.last)
    (behind : LaidBehind rest (endToken writer.token before) after) :
    Laid rest writer (before ++ after) := by
  induction laid with
  | done => exact behind _ adjacent fits rfl
  | @next writer placed later elided kept legible joint token laid ih =>
    have atRest : sourceOf later ++ (sourceOf after ++ rest) = sourceOf (later ++ after) ++ rest := by
      rw [sourceOf_append, List.append_assoc]
    rw [atRest] at elided legible joint token laid ih
    refine .next elided kept legible joint token (ih rfl (Writer.keep_fits kept legible.whole _ _) ?_)
    rw [← token]
    exact behind

theorem endToken_replay (token : Token) (pieces : List Placed) :
    endToken token (replay token pieces) = endToken token pieces := by
  induction pieces generalizing token with
  | nil => rfl
  | cons placed later ih =>
    have again : endToken token (placed.again token) = placed.token := by
      unfold Placed.again
      split <;> rfl
    rw [replay, endToken_append, again, ih, endToken]

theorem Layout.endToken_elide (lexeme : Lexeme) (layout : Layout) (token : Token) :
    endToken token (layout.elide lexeme).pieces = endToken token layout.pieces := by
  obtain ⟨pieces, trail⟩ := layout
  cases pieces <;> rfl

theorem Writer.run_slash {writer : Writer} (opens : writer.token.opensRegex = true)
    (seen : List Lexeme) : (writer.run seen ['/']).unclosed = some ⟨.regex, ['/']⟩ := by
  have failed : Lexeme.read writer.token.opensRegex '/' [] = .error ⟨.regex, ['/']⟩ := by
    rw [opens]
    rfl
  rw [Writer.run_unclosed failed]

/-- A slash at the end of a text is a regular expression without an end, unless it divides. -/
theorem minify_ne_ok_of_slash {text : String} {pieces : List Placed}
    (laid : Laid ['/'] (.start []) pieces) (opens : (endToken .start pieces).opensRegex = true)
    (atText : text.toList = '\n' :: (sourceOf pieces ++ ['/'])) (out : String) :
    minify text ≠ .ok out := by
  intro done
  have closed := (minify_eq_ok_iff.mp done).1
  obtain ⟨laidFront, trail⟩ := laid.lineBroken rfl
  obtain ⟨final, reads, atEnd, _⟩ := laidFront.reads trail
  have atToken : final.token.opensRegex = true := by
    rw [atEnd, Layout.endToken_elide]
    exact opens
  have atSource : dropMark text.toList =
      textOf (Layout.elide (.lineBreak '\n') ⟨pieces, []⟩).lexemes ++ ['/'] := by
    rw [Layout.elide_lexemes, textOf_cons, Layout.textOf_lexemes, atText]
    simp [dropMark, byteOrderMark, Lexeme.text]
  rw [scan, atSource, reads.run_append, Writer.run_slash atToken] at closed
  cases closed

end Elision
