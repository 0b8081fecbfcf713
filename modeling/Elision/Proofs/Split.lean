import Elision.Proofs.Joints

namespace Elision

/-- A piece in its place, with `rest` behind it in the source: the gap is trivia, the piece is whole
and ends there, and the joint is one of four texts. -/
structure Placed.InPlace (placed : Placed) (rest : List Char) : Prop where
  gap : Elided (placed.piece.text ++ rest) placed.gap
  kept : placed.piece.gap? = none
  whole : placed.piece.Whole
  endsBefore : placed.piece.EndsBefore rest.head?
  joint : placed.joint ∈ [[], [' '], ['\n'], ['.']]
  adjacent : placed.gap = [] → placed.joint = []
  dotted : placed.joint = ['.'] → placed.piece = .code '.'

theorem Laid.inPlace {rest : List Char} {writer : Writer} {placed : Placed} {later : List Placed}
    (laid : Laid rest writer (placed :: later)) (adjacent : writer.gap = .empty) :
    placed.InPlace (sourceOf later ++ rest) := by
  cases laid with
  | next elided kept legible joint token laid =>
    have joins := Writer.joins joint
    refine ⟨elided, kept, legible.whole, legible.endsBefore, ?_, ?_, ?_⟩
    · rcases joins.text_cases with same | same | same | ⟨same, _⟩ <;> simp [same]
    · intro noGap
      have glued : (writer.across placed.gap).isGlued = true := by
        simp [noGap, Writer.isGlued, adjacent]
      exact joint.trans (Joins.glued glued).joint_eq
    · intro dotted
      rcases joins.text_cases with same | same | same | ⟨_, dot⟩
      · simp [same] at dotted
      · simp [same] at dotted
      · simp [same] at dotted
      · exact Lexeme.eq_dot kept legible.whole dot

/-- Laying out pieces can be resumed behind any of them, with what the writer then knows: its text,
its last character and its last token are those that the pieces leave. -/
theorem Laid.behind {rest : List Char} {writer : Writer} {before after : List Placed}
    {placed : Placed} (laid : Laid rest writer (before ++ placed :: after)) :
    ∃ middle, Laid rest middle after ∧ middle.gap = .empty ∧
      middle.last = some placed.piece.last ∧ middle.token = placed.token ∧
      middle.out.reverse = writer.out.reverse ++ writtenOf (before ++ [placed]) := by
  induction before generalizing writer with
  | nil =>
    cases laid with
    | next elided kept legible joint token laid =>
      refine ⟨_, laid, rfl, rfl, token.symm, ?_⟩
      simp [Writer.keep, Placed.written, joint, Writer.across]
  | cons first before ih =>
    cases laid with
    | next elided kept legible joint token laid =>
      obtain ⟨middle, later, adjacent, atLast, atToken, atOut⟩ := ih laid
      refine ⟨middle, later, adjacent, atLast, atToken, atOut.trans ?_⟩
      simp [Writer.keep, Placed.written, joint, Writer.across]

theorem Laid.drop {rest : List Char} {writer : Writer} {before after : List Placed}
    (laid : Laid rest writer (before ++ after)) (adjacent : writer.gap = .empty) :
    ∃ middle, Laid rest middle after ∧ middle.gap = .empty := by
  induction before generalizing writer with
  | nil => exact ⟨writer, laid, adjacent⟩
  | cons first before ih =>
    cases laid with
    | next _ _ _ _ _ laid => exact ih laid rfl

theorem Lexeme.first_ne_newline {piece : Lexeme} (kept : piece.gap? = none) (whole : piece.Whole) :
    piece.first ≠ '\n' := by
  intro newline
  have atCode := Lexeme.eq_code kept whole (by rw [newline]; decide) (by rw [newline]; decide)
  rw [newline] at atCode
  rw [atCode] at whole
  exact absurd whole.2.1 (by decide)

/-- Nothing is lost, nothing is doubled and nothing is invented. Less its byte-order mark the source
is a row of gaps and pieces, and the result is the same row of pieces behind one line break, with a
joint in place of each gap between two of them. -/
theorem minify_splits {source out : String} (done : minify source = .ok out) :
    dropMark source.toList =
        sourceOf (layout source.toList).pieces ++ textOf (layout source.toList).trail ∧
      out.toList = '\n' :: writtenOf (layout source.toList).pieces ∧
      Elided [] (layout source.toList).trail ∧
      (∀ before placed after, (layout source.toList).pieces = before ++ placed :: after →
        placed.InPlace (sourceOf after ++ textOf (layout source.toList).trail)) ∧
      (∀ placed ∈ (layout source.toList).pieces.head?, placed.joint = []) ∧
      (writtenOf (layout source.toList).pieces).head? ≠ some '\n' ∧
      (∀ lexemes, dropMark source.toList = textOf lexemes → Elided [] lexemes → out = "\n") := by
  obtain ⟨covers, atOut⟩ := layout_covers done
  have first (placed : Placed) (member : placed ∈ (layout source.toList).pieces.head?) :
      placed.joint = [] := by
    obtain ⟨later, atPieces⟩ := List.head?_eq_some_iff.mp member
    have laid := covers.laid
    rw [atPieces] at laid
    cases laid with
    | next _ _ _ joint _ _ => exact joint.trans rfl
  refine ⟨covers.text, atOut, covers.trail, ?_, first, ?_, ?_⟩
  · intro before placed after split
    have laid := covers.laid
    rw [split] at laid
    obtain ⟨middle, laid, adjacent⟩ := laid.drop rfl
    exact laid.inPlace adjacent
  · cases atPieces : (layout source.toList).pieces with
    | nil => simp
    | cons placed later =>
      have noJoint := first placed (by simp [atPieces])
      have laid := covers.laid
      rw [atPieces] at laid
      have inPlace := laid.inPlace rfl
      obtain ⟨tail, atPiece⟩ := placed.piece.text_eq_cons
      have noNewline := Lexeme.first_ne_newline inPlace.kept inPlace.whole
      simpa [Placed.written, noJoint, atPiece] using noNewline
  · intro lexemes atText elided
    have blank : Layout.Covers ⟨[], lexemes⟩ source.toList := ⟨by simpa using atText, .done, elided⟩
    have only := blank.minify_eq
    rw [done] at only
    cases only
    rfl

/-- The dot behind an integer is doubled, and the comments on both sides are gone. -/
theorem minify_splits_doubled_dot :
    minify "\uFEFF1 /*x*/ .y // z" = .ok "\n1..y" ∧
      Placed.InPlace ⟨[.blank ' ', .blockComment "x*/".toList, .blank ' '], ['.'], .code '.',
        .punct '.'⟩ "y // z".toList ∧
      Elided [] [.blank ' ', .lineComment " z".toList] := by
  have done : minify "\uFEFF1 /*x*/ .y // z" = .ok "\n1..y" :=
    minify_eq_ok_iff.mpr (by decide +kernel)
  have atPieces : (layout "\uFEFF1 /*x*/ .y // z".toList).pieces =
      [⟨[], [], .code '1', .number ['1']⟩] ++
        ⟨[.blank ' ', .blockComment "x*/".toList, .blank ' '], ['.'], .code '.', .punct '.'⟩ ::
          [⟨[], [], .code 'y', .word ['y'] true⟩] := by
    decide +kernel
  have atTrail : (layout "\uFEFF1 /*x*/ .y // z".toList).trail =
      [.blank ' ', .lineComment " z".toList] := by
    decide +kernel
  obtain ⟨_, _, trail, inPlace, _⟩ := minify_splits done
  have placed := inPlace _ _ _ atPieces
  rw [atTrail] at placed trail
  exact ⟨done, placed, trail⟩

end Elision
