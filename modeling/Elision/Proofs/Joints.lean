import Elision.Proofs.Layout

namespace Elision

namespace Gap

/-- The gap that a text leaves when all of it is elided. -/
def ofText (text : List Char) : Gap :=
  if text = [] then .empty else if text.any isLineTerminator then .lineBreak else .blank

@[simp] theorem empty_widen (gap : Gap) : Gap.empty.widen gap = gap := by
  cases gap <;> rfl

@[simp] theorem widen_empty (gap : Gap) : gap.widen .empty = gap := by
  cases gap <;> rfl

theorem widen_assoc (first second third : Gap) :
    (first.widen second).widen third = first.widen (second.widen third) := by
  cases first <;> cases second <;> cases third <;> rfl

theorem ofText_append (before after : List Char) :
    ofText (before ++ after) = (ofText before).widen (ofText after) := by
  unfold ofText
  by_cases noBefore : before = []
  · simp [noBefore]
  by_cases noAfter : after = []
  · simp [noAfter]
  by_cases breaksBefore : before.any isLineTerminator = true
  · simp [noBefore, breaksBefore, widen]
  by_cases breaksAfter : after.any isLineTerminator = true
  · simp [noBefore, noAfter, breaksAfter, breaksBefore, widen]
  · simp [noBefore, noAfter, breaksAfter, breaksBefore, widen]

theorem ofText_eq_empty_iff {text : List Char} : ofText text = .empty ↔ text = [] := by
  unfold ofText
  split
  · simp_all
  · split <;> simp_all

end Gap

theorem isLineTerminator_of_whitespace {c : Char} (blank : classify c = .whitespace) :
    isLineTerminator c = false := by
  by_cases lineEnd : isLineTerminator c = true
  · simp only [isLineTerminator, Bool.or_eq_true, decide_eq_true_eq] at lineEnd
    rcases lineEnd with ((rfl | rfl) | rfl) | rfl <;> cases blank
  · simpa using lineEnd

/-- A lexeme leaves the gap of its text. -/
theorem Lexeme.Whole.gap_eq {lexeme : Lexeme} {gap : Gap} (whole : lexeme.Whole)
    (elided : lexeme.gap? = some gap) : gap = Gap.ofText lexeme.text := by
  cases lexeme with
  | blank c =>
    cases elided
    simp [Gap.ofText, Lexeme.text, isLineTerminator_of_whitespace whole]
  | lineBreak c =>
    cases elided
    have lineEnd : isLineTerminator c = true := whole
    simp [Gap.ofText, Lexeme.text, lineEnd]
  | lineComment tail =>
    cases elided
    have sameLine : tail.any isLineTerminator = false := by simpa [Lexeme.Whole] using whole
    simp [Gap.ofText, Lexeme.text, sameLine, show isLineTerminator '/' = false from rfl]
  | blockComment tail =>
    cases elided
    simp [Gap.ofText, Lexeme.text, show isLineTerminator '/' = false from rfl,
      show isLineTerminator '*' = false from rfl]
  | code | quoted | regex => cases elided

/-- However a gap is made up of blanks and comments, it counts as its text does. -/
theorem Elided.across_eq {rest : List Char} {lexemes : List Lexeme} (elided : Elided rest lexemes)
    (gap : Gap) : gap.across lexemes = gap.widen (Gap.ofText (textOf lexemes)) := by
  induction lexemes generalizing gap with
  | nil => simp [Gap.across, Gap.ofText]
  | cons lexeme later ih =>
    obtain ⟨isGap, whole, _, elided⟩ := elided
    obtain ⟨width, atGap⟩ := Option.ne_none_iff_exists'.mp isGap
    calc
      gap.across (lexeme :: later) = (gap.widen width).across later := by
        simp [Gap.across, atGap]
      _ = gap.widen (width.widen (Gap.ofText (textOf later))) := by
        rw [ih elided, Gap.widen_assoc]
      _ = gap.widen (Gap.ofText (textOf (lexeme :: later))) := by
        rw [whole.gap_eq atGap, textOf_cons, Gap.ofText_append]

theorem Elided.across_eq_empty_iff {rest : List Char} {lexemes : List Lexeme}
    (elided : Elided rest lexemes) : Gap.empty.across lexemes = .empty ↔ lexemes = [] := by
  rw [elided.across_eq, Gap.empty_widen, Gap.ofText_eq_empty_iff, textOf_eq_nil_iff]

/-- What can be written before a character, and when. -/
inductive Joins (writer : Writer) (next : Char) (ahead : Option Char) : List Char → Prop
  | glued : writer.isGlued = true → Joins writer next ahead []
  | spaced {last} : writer.last = some last → writer.gap = .blank →
      Separator.between last next writer.gap = .space → Joins writer next ahead [' ']
  | broken {last} : writer.last = some last → writer.gap = .lineBreak →
      Separator.between last next writer.gap = .newline → Joins writer next ahead ['\n']
  | sign {last} : writer.last = some last → writer.gap ≠ .empty →
      Separator.between last next writer.gap = .nothing → writer.token.absorbsSign next = true →
      Joins writer next ahead [' ']
  | point {last} : writer.last = some last → writer.gap ≠ .empty →
      Separator.between last next writer.gap = .nothing → writer.token.absorbsSign next = false →
      next = '.' → writer.token.isPlainInteger = true → Joins writer next ahead ['.']
  | markup {last} : writer.last = some last → writer.gap ≠ .empty →
      Separator.between last next writer.gap = .nothing → writer.token.absorbsSign next = false →
      ¬(next = '.' ∧ writer.token.isPlainInteger = true) →
      writer.opensMarkupComment last.char next ahead = true → Joins writer next ahead [' ']
  | dropped {last} : writer.last = some last → writer.gap ≠ .empty →
      Separator.between last next writer.gap = .nothing → writer.token.absorbsSign next = false →
      ¬(next = '.' ∧ writer.token.isPlainInteger = true) →
      writer.opensMarkupComment last.char next ahead = false → Joins writer next ahead []

theorem Separator.gap_of_space {last : Retained} {next : Char} {gap : Gap}
    (space : Separator.between last next gap = .space) : gap = .blank := by
  cases gap with
  | empty => cases space
  | blank => rfl
  | lineBreak => simp only [Separator.between] at space; split at space <;> cases space

theorem Separator.gap_of_newline {last : Retained} {next : Char} {gap : Gap}
    (newline : Separator.between last next gap = .newline) : gap = .lineBreak := by
  cases gap with
  | empty => cases newline
  | blank => simp only [Separator.between] at newline; split at newline <;> cases newline
  | lineBreak => rfl

theorem Writer.joins {writer : Writer} {next : Char} {ahead : Option Char} {joint : List Char}
    (same : joint = writer.joint next ahead) : Joins writer next ahead joint := by
  rw [same]
  unfold Writer.joint
  split
  · rename_i first
    exact .glued (by simp [Writer.isGlued, first])
  · rename_i last atLast
    by_cases elided : writer.gap = .empty
    · rw [if_pos elided]
      exact .glued (by simp [Writer.isGlued, elided])
    · rw [if_neg elided]
      cases between : Separator.between last next writer.gap with
      | space => exact .spaced atLast (Separator.gap_of_space between) between
      | newline => exact .broken atLast (Separator.gap_of_newline between) between
      | nothing =>
        dsimp only
        split
        · exact .sign atLast elided between ‹_›
        · rename_i noSign
          rw [Bool.not_eq_true] at noSign
          split
          · rename_i dot
            rw [Bool.and_eq_true, decide_eq_true_eq] at dot
            exact .point atLast elided between noSign dot.1 dot.2
          · rename_i noDot
            rw [Bool.and_eq_true, decide_eq_true_eq] at noDot
            split
            · exact .markup atLast elided between noSign noDot ‹_›
            · rename_i noMarkup
              rw [Bool.not_eq_true] at noMarkup
              exact .dropped atLast elided between noSign noDot noMarkup

theorem Joins.joint_eq {writer : Writer} {next : Char} {ahead : Option Char} {joint : List Char}
    (joins : Joins writer next ahead joint) : writer.joint next ahead = joint := by
  cases joins with
  | glued glued =>
    simp only [Writer.isGlued, Bool.or_eq_true, decide_eq_true_eq] at glued
    unfold Writer.joint
    split
    · rfl
    · rename_i atLast
      rw [atLast] at glued
      simp_all
  | spaced atLast gap between =>
    rw [gap] at between
    simp [Writer.joint, atLast, gap, between, Separator.text]
  | broken atLast gap between =>
    rw [gap] at between
    simp [Writer.joint, atLast, gap, between, Separator.text]
  | sign atLast gap between sign => simp [Writer.joint, atLast, gap, between, sign]
  | point atLast gap between noSign dot plain =>
    subst dot
    simp [Writer.joint, atLast, gap, between, noSign, plain]
  | markup atLast gap between noSign noDot markup =>
    simp [Writer.joint, atLast, gap, between, noSign, noDot, markup]
  | dropped atLast gap between noSign noDot noMarkup =>
    simp [Writer.joint, atLast, gap, between, noSign, noDot, noMarkup]

theorem Joins.text_cases {writer : Writer} {next : Char} {ahead : Option Char} {joint : List Char}
    (joins : Joins writer next ahead joint) :
    joint = [] ∨ joint = [' '] ∨ joint = ['\n'] ∨ joint = ['.'] ∧ next = '.' := by
  cases joins with
  | glued | dropped => exact .inl rfl
  | spaced | sign | markup => exact .inr (.inl rfl)
  | broken => exact .inr (.inr (.inl rfl))
  | point _ _ _ _ dot _ => exact .inr (.inr (.inr ⟨rfl, dot⟩))

theorem Lexeme.text_eq_cons (lexeme : Lexeme) : ∃ tail, lexeme.text = lexeme.first :: tail := by
  cases lexeme <;> exact ⟨_, rfl⟩

/-- A piece that begins neither as a literal nor as a comment is that one character. -/
theorem Lexeme.eq_code {piece : Lexeme} (kept : piece.gap? = none) (whole : piece.Whole)
    (noSlash : piece.first ≠ '/') (noQuote : classify piece.first ≠ .quote) :
    piece = .code piece.first := by
  cases piece with
  | code => rfl
  | quoted quote tail =>
    rcases whole with ⟨rfl, _⟩ | ⟨_, isQuote, _⟩
    · exact absurd rfl noQuote
    · exact absurd isQuote noQuote
  | regex => exact absurd rfl noSlash
  | _ => cases kept

theorem Lexeme.eq_dot {piece : Lexeme} (kept : piece.gap? = none) (whole : piece.Whole)
    (dot : piece.first = '.') : piece = .code '.' := by
  have atCode := Lexeme.eq_code kept whole (by rw [dot]; decide) (by rw [dot]; decide)
  rwa [dot] at atCode

theorem Writer.across_isGlued {writer : Writer} {rest : List Char} {gap : List Lexeme}
    {last : Retained} (adjacent : writer.gap = .empty) (atLast : writer.last = some last)
    (elided : Elided rest gap) : (writer.across gap).isGlued = true ↔ gap = [] := by
  have atGap := elided.across_eq_empty_iff
  simp [Writer.isGlued, Writer.across, atLast, adjacent, atGap]

/-- Right behind the last piece the next one is kept as it is, whatever follows it. -/
theorem Writer.keep_adjacent {writer : Writer} (adjacent : writer.gap = .empty) (piece : Lexeme)
    (ahead : Option Char) :
    writer.joint piece.first ahead = [] ∧
      writer.keep piece ahead =
        ⟨piece.text.reverse ++ writer.out, some piece.last, .empty, piece.track writer.token true⟩ := by
  have glued : writer.isGlued = true := by simp [Writer.isGlued, adjacent]
  have noJoint : writer.joint piece.first ahead = [] := (Joins.glued glued).joint_eq
  exact ⟨noJoint, by simp [Writer.keep, noJoint, glued]⟩

theorem Laid.glued {rest : List Char} {writer : Writer} {piece : Lexeme} {later : List Placed}
    (adjacent : writer.gap = .empty) (kept : piece.gap? = none)
    (legible : piece.Legible writer.token.opensRegex (sourceOf later ++ rest))
    (laid : Laid rest
      ⟨piece.text.reverse ++ writer.out, some piece.last, .empty, piece.track writer.token true⟩
      later) :
    Laid rest writer (⟨[], [], piece, piece.track writer.token true⟩ :: later) := by
  obtain ⟨noJoint, atKeep⟩ := writer.keep_adjacent adjacent piece (sourceOf later ++ rest).head?
  refine .next trivial kept legible noJoint.symm ?_ ?_
  · rw [Writer.across_nil, atKeep]
  · rw [Writer.across_nil, atKeep]
    exact laid

theorem Laid.code {rest : List Char} {writer : Writer} {c : Char} {later : List Placed}
    (adjacent : writer.gap = .empty) (isCode : IsCode c) (noSlash : c ≠ '/')
    (laid : Laid rest ⟨c :: writer.out, some ⟨c, false⟩, .empty, writer.token.push c true⟩ later) :
    Laid rest writer (⟨[], [], .code c, writer.token.push c true⟩ :: later) := by
  refine Laid.glued adjacent rfl ⟨isCode, ?_, ?_⟩ laid
  · intro slash
    exact absurd slash noSlash
  · intro slash
    exact absurd slash noSlash

end Elision
