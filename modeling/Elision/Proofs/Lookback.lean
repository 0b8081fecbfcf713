import Elision.Proofs.Layout

namespace Elision

/-- The writer when `buffer` stands before all that it has written. -/
def Writer.behind (writer : Writer) (buffer : List Char) : Writer :=
  { writer with out := writer.out ++ buffer.reverse }

@[simp] theorem Writer.behind_token (writer : Writer) (buffer : List Char) :
    (writer.behind buffer).token = writer.token := rfl

@[simp] theorem Writer.behind_isGlued (writer : Writer) (buffer : List Char) :
    (writer.behind buffer).isGlued = writer.isGlued := rfl

/-- The oldest character written is no exclamation mark. It hides what stands before it from the only
rule that looks back into the text. -/
def Writer.Screened (writer : Writer) : Prop := ∃ c, writer.out.getLast? = some c ∧ c ≠ '!'

theorem Writer.opensMarkupComment_behind {writer : Writer} (screened : writer.Screened)
    (buffer : List Char) (last next : Char) (ahead : Option Char) :
    (writer.behind buffer).opensMarkupComment last next ahead =
      writer.opensMarkupComment last next ahead := by
  have sameEnd : ['!', '<'].isPrefixOf (writer.out ++ buffer.reverse) =
      ['!', '<'].isPrefixOf writer.out := by
    obtain ⟨c, atEnd, noMark⟩ := screened
    match writer.out, atEnd with
    | [d], atEnd =>
      obtain rfl : d = c := by simpa using atEnd
      simp [List.isPrefixOf, noMark.symm]
    | d :: e :: out, _ => simp [List.isPrefixOf]
  unfold Writer.opensMarkupComment Writer.behind
  rw [sameEnd]

theorem Writer.joint_behind {writer : Writer} (screened : writer.Screened) (buffer : List Char)
    (next : Char) (ahead : Option Char) :
    (writer.behind buffer).joint next ahead = writer.joint next ahead := by
  have markup := Writer.opensMarkupComment_behind screened buffer
  unfold Writer.joint
  simp only [markup]
  rfl

theorem Writer.keep_behind {writer : Writer} (screened : writer.Screened) (buffer : List Char)
    (piece : Lexeme) (ahead : Option Char) :
    (writer.behind buffer).keep piece ahead = (writer.keep piece ahead).behind buffer := by
  have joint := Writer.joint_behind screened buffer piece.first ahead
  unfold Writer.keep
  rw [joint, Writer.behind_isGlued, Writer.behind_token]
  simp [Writer.behind]

theorem Writer.accept_behind {writer : Writer} (screened : writer.Screened) (buffer : List Char)
    (lexeme : Lexeme) (ahead : Option Char) :
    (writer.behind buffer).accept lexeme ahead = (writer.accept lexeme ahead).behind buffer := by
  unfold Writer.accept
  split
  · rfl
  · exact Writer.keep_behind screened buffer lexeme ahead

theorem Writer.keep_screened {writer : Writer} (screened : writer.Screened) (piece : Lexeme)
    (ahead : Option Char) : (writer.keep piece ahead).Screened := by
  obtain ⟨c, atEnd, noMark⟩ := screened
  exact ⟨c, by simp [Writer.keep, List.getLast?_append, atEnd], noMark⟩

theorem Writer.accept_screened {writer : Writer} (screened : writer.Screened) (lexeme : Lexeme)
    (ahead : Option Char) : (writer.accept lexeme ahead).Screened := by
  unfold Writer.accept
  split
  · exact screened
  · exact Writer.keep_screened screened lexeme ahead

def Scan.behind (scan : Scan) (buffer : List Char) : Scan :=
  { scan with writer := scan.writer.behind buffer }

/-- A run goes the same way whatever stands before its own text, and leaves that alone. -/
theorem Writer.run_behind {writer : Writer} (screened : writer.Screened) (buffer : List Char)
    (seen : List Lexeme) (source : List Char) :
    (writer.behind buffer).run seen source = (writer.run seen source).behind buffer := by
  fun_induction Writer.run writer seen source with
  | case1 writer seen => simp [Writer.run, Scan.behind]
  | case2 writer seen c cs unclosed failed =>
    have failed : Lexeme.read (writer.behind buffer).token.opensRegex c cs = .error unclosed := failed
    exact Writer.run_unclosed failed seen
  | case3 writer seen c cs got closed shorter ih =>
    have later := ih (Writer.accept_screened screened got.lexeme got.rest.head?)
    obtain ⟨atText, legible⟩ := Lexeme.read_eq_ok_iff.mp closed
    have legible : got.lexeme.Legible (writer.behind buffer).token.opensRegex got.rest := legible
    have step := Writer.run_legible legible seen
    rw [atText, Writer.accept_behind screened] at step
    rw [step, later]

/-- What stands before the text in sight has no influence on how the pieces behind it are laid out. -/
theorem Laid.of_behind {rest : List Char} {writer : Writer} {pieces : List Placed} {buffer : List Char}
    (screened : writer.Screened) (laid : Laid rest (writer.behind buffer) pieces)
    (other : List Char) : Laid rest (writer.behind other) pieces := by
  generalize atStart : writer.behind buffer = start at laid
  induction laid generalizing writer with
  | done => exact .done
  | @next start placed later elided kept legible joint token laid ih =>
    subst atStart
    have inSight : (writer.across placed.gap).Screened := screened
    have sameJoint (hidden : List Char) := Writer.joint_behind inSight hidden placed.piece.first
      (sourceOf later ++ rest).head?
    have sameKeep (hidden : List Char) := Writer.keep_behind inSight hidden placed.piece
      (sourceOf later ++ rest).head?
    refine .next elided kept legible ?_ token ?_
    · exact joint.trans ((sameJoint buffer).trans (sameJoint other).symm)
    · have behind := ih (Writer.keep_screened inSight _ _) (sameKeep buffer).symm
      rwa [← sameKeep other] at behind

end Elision
