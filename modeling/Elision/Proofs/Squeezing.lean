import Elision.Proofs.Extension

namespace Elision

/-- What is left of elided text: a line break if a line ended in it, and otherwise one blank. -/
def squeeze (text : List Char) : List Char :=
  if text = [] then [] else if text.any isLineTerminator then ['\n'] else [' ']

/-- The byte-order mark of a source that has one. -/
def markOf (source : List Char) : List Char :=
  if source.head? = some byteOrderMark then [byteOrderMark] else []

/-- The source with all that is elided from it squeezed: in front of each piece, and behind the
last. -/
def squeezed (source : String) : String :=
  String.ofList
    (markOf source.toList ++
      (layout source.toList).pieces.flatMap
        (fun placed => squeeze (textOf placed.gap) ++ placed.piece.text) ++
      squeeze (textOf (layout source.toList).trail))

/-- The lexemes of a squeezed gap. -/
def squeezedGap (gap : List Lexeme) : List Lexeme := (squeeze (textOf gap)).map jointLexeme

def Placed.squeezed (placed : Placed) : Placed := { placed with gap := squeezedGap placed.gap }

def Layout.squeezed (layout : Layout) : Layout where
  pieces := layout.pieces.map Placed.squeezed
  trail := squeezedGap layout.trail

theorem squeeze_cases (text : List Char) :
    text = [] ∧ squeeze text = [] ∨
      text ≠ [] ∧ (squeeze text = [' '] ∧ Gap.ofText text = .blank ∨
        squeeze text = ['\n'] ∧ Gap.ofText text = .lineBreak) := by
  unfold squeeze Gap.ofText
  by_cases empty : text = []
  · simp [empty]
  · by_cases breaks : text.any isLineTerminator = true
    · simp [empty, breaks]
    · simp [empty, breaks]

/-- A squeezed gap reads as its one lexeme, whatever stands behind it, and is as wide as before. -/
theorem squeezedGap_spec (gap : List Lexeme) (rest : List Char) :
    textOf (squeezedGap gap) = squeeze (textOf gap) ∧ Elided rest (squeezedGap gap) ∧
      Gap.ofText (squeeze (textOf gap)) = Gap.ofText (textOf gap) := by
  unfold squeezedGap
  rcases squeeze_cases (textOf gap) with ⟨empty, same⟩ | ⟨_, ⟨same, width⟩ | ⟨same, width⟩⟩
  · rw [same, empty]
    exact ⟨rfl, trivial, rfl⟩
  · rw [same, width]
    exact ⟨rfl, ⟨by decide, rfl, trivial, trivial⟩, rfl⟩
  · rw [same, width]
    exact ⟨rfl, ⟨by decide, rfl, trivial, trivial⟩, rfl⟩

theorem Writer.across_squeezedGap {rest : List Char} {gap : List Lexeme} (elided : Elided rest gap)
    (writer : Writer) : writer.across (squeezedGap gap) = writer.across gap := by
  obtain ⟨text, elided', width⟩ := squeezedGap_spec gap rest
  rw [Writer.across, Writer.across, elided.across_eq, elided'.across_eq, text, width]

/-- The text behind a piece begins as before, or with what is left of a gap. -/
def Borders (before after : List Char) : Prop :=
  before.head? = after.head? ∨
    before.head? ≠ some '-' ∧ (after.head? = some ' ' ∨ after.head? = some '\n')

theorem Elided.borders {rest other : List Char} {gap : List Lexeme} (elided : Elided rest gap)
    (same : rest.head? = other.head?) : Borders (textOf gap ++ rest) (squeeze (textOf gap) ++ other) := by
  rcases squeeze_cases (textOf gap) with ⟨empty, squeezed⟩ | ⟨nonempty, squeezed⟩
  · rw [squeezed, empty]
    exact .inl same
  · have noDash := elided.head_ne_dash (mt textOf_eq_nil_iff.mpr nonempty)
    obtain ⟨c, cs, atText⟩ := List.exists_cons_of_ne_nil nonempty
    rw [atText] at noDash
    refine .inr ⟨by rwa [atText], ?_⟩
    rcases squeezed with ⟨same, _⟩ | ⟨same, _⟩
    · exact .inl (by simp [same])
    · exact .inr (by simp [same])

section Borders

variable {before after : List Char}

theorem Borders.dash_iff (borders : Borders before after) :
    before.head? = some '-' ↔ after.head? = some '-' := by
  rcases borders with same | ⟨noDash, blank | lineEnd⟩
  · rw [same]
  · simp [noDash, blank]
  · simp [noDash, lineEnd]

theorem Borders.endsBefore {piece : Lexeme} (borders : Borders before after)
    (kept : piece.gap? = none) (ends : piece.EndsBefore before.head?) :
    piece.EndsBefore after.head? := by
  rcases borders with same | ⟨_, blank | lineEnd⟩
  · rwa [← same]
  · rw [blank]
    exact Lexeme.endsBefore_mark kept (by decide)
  · rw [lineEnd]
    exact Lexeme.endsBefore_mark kept (by decide)

end Borders

theorem Laid.borders {writer : Writer} {pieces : List Placed} {trail : List Lexeme}
    (laid : Laid (textOf trail) writer pieces) (elided : Elided [] trail) :
    Borders (sourceOf pieces ++ textOf trail)
      (sourceOf (pieces.map Placed.squeezed) ++ squeeze (textOf trail)) := by
  cases laid with
  | done => simpa using elided.borders rfl
  | @next _ placed later gap _ _ _ _ _ =>
    obtain ⟨tail, atPiece⟩ := placed.piece.text_eq_cons
    have text := (squeezedGap_spec placed.gap []).1
    simp only [List.map_cons, sourceOf_cons, Placed.source, Placed.squeezed, text, List.append_assoc]
    exact gap.borders (by simp [atPiece])

/-- With its gaps squeezed a source is laid out as before. -/
theorem Laid.squeezed {writer : Writer} {pieces : List Placed} {trail : List Lexeme}
    (laid : Laid (textOf trail) writer pieces) (elided : Elided [] trail) :
    Laid (squeeze (textOf trail)) writer (pieces.map Placed.squeezed) := by
  induction laid with
  | done => exact .done
  | @next writer placed later gap kept legible joint token laid ih =>
    have borders := laid.borders elided
    have sameGap := Writer.across_squeezedGap gap writer
    obtain ⟨sameJoint, sameKeep⟩ := (writer.across placed.gap).keep_ahead borders.dash_iff placed.piece
    have ends := borders.endsBefore kept legible.endsBefore
    rw [sameJoint, ← sameGap] at joint
    rw [sameKeep, ← sameGap] at token ih
    exact .next (squeezedGap_spec placed.gap _).2.1 kept ⟨legible.whole, ends, legible.agrees⟩ joint
      token ih

theorem sourceOf_squeezed (pieces : List Placed) :
    sourceOf (pieces.map Placed.squeezed) =
      pieces.flatMap fun placed => squeeze (textOf placed.gap) ++ placed.piece.text := by
  induction pieces with
  | nil => rfl
  | cons placed later ih =>
    have text := (squeezedGap_spec placed.gap []).1
    rw [List.map_cons, sourceOf_cons, ih, Placed.source, Placed.squeezed, text, List.flatMap_cons]

theorem markOf_append_dropMark (source : List Char) : markOf source ++ dropMark source = source := by
  cases source with
  | nil => rfl
  | cons c cs =>
    by_cases mark : c = byteOrderMark
    · simp [markOf, dropMark, mark]
    · simp [markOf, dropMark, mark]

/-- A mark in front stays, and no other comes there. -/
theorem dropMark_markOf {source text : List Char} (borders : Borders (dropMark source) text) :
    dropMark (markOf source ++ text) = text := by
  unfold markOf
  split
  · simp [dropMark]
  · rename_i noMark
    rw [dropMark_of_head noMark] at borders
    rw [List.nil_append]
    refine dropMark_of_head ?_
    rcases borders with same | ⟨_, blank | lineEnd⟩
    · rwa [← same]
    · simp +decide [blank]
    · simp +decide [lineEnd]

theorem Layout.Covers.squeezed {plan : Layout} {source : List Char} (covers : plan.Covers source) :
    plan.squeezed.Covers
      (markOf source ++ (sourceOf plan.squeezed.pieces ++ textOf plan.squeezed.trail)) := by
  obtain ⟨text, laid, trail⟩ := covers
  have borders := laid.borders trail
  obtain ⟨sameTrail, elided, _⟩ := squeezedGap_spec plan.trail []
  rw [← text, ← sameTrail] at borders
  refine ⟨dropMark_markOf borders, ?_, elided⟩
  have again := laid.squeezed trail
  rwa [← sameTrail] at again

theorem Layout.squeezed_written (plan : Layout) :
    writtenOf plan.squeezed.pieces = writtenOf plan.pieces := by
  obtain ⟨pieces, trail⟩ := plan
  induction pieces with
  | nil => rfl
  | cons placed later ih => simp_all [Layout.squeezed, Placed.squeezed, Placed.written]

theorem squeezed_covers {source out : String} (done : minify source = .ok out) :
    (layout source.toList).squeezed.Covers (squeezed source).toList ∧
      minify (squeezed source) = .ok out := by
  obtain ⟨covers, atOut⟩ := layout_covers done
  have again := covers.squeezed
  have text : (squeezed source).toList =
      markOf source.toList ++ (sourceOf (layout source.toList).squeezed.pieces ++
        textOf (layout source.toList).squeezed.trail) := by
    have trail := (squeezedGap_spec (layout source.toList).trail []).1
    rw [Layout.squeezed, sourceOf_squeezed, trail, squeezed, String.toList_ofList, List.append_assoc]
  rw [← text] at again
  refine ⟨again, ?_⟩
  rw [again.minify_eq, Layout.squeezed_written, ← atOut, String.ofList_toList]

/-- Of all that is elided, only whether there was any text and whether a line ended in it counts:
with its gaps squeezed a source has the same pieces and the same result. So no comment, no amount of
blanks and no kind of line end has any influence. -/
theorem minify_squeezed {source out : String} (done : minify source = .ok out) :
    minify (squeezed source) = .ok out ∧
      layout (squeezed source).toList = (layout source.toList).squeezed ∧
      ∀ other result, minify other = .ok result → squeezed other = squeezed source →
        result = out := by
  obtain ⟨covers, same⟩ := squeezed_covers done
  refine ⟨same, covers.layout_eq.1, ?_⟩
  intro other result otherDone sameText
  have otherSame := (squeezed_covers otherDone).2
  rw [sameText, same] at otherSame
  exact (Except.ok.inj otherSame).symm

/-- A mark, a comment right behind a division, one that holds the end of a line, and a blank between
the characters that would open a markup comment. -/
theorem minify_squeezed_comments :
    minify "\uFEFF/**/a / /*x*/\t/r/g/*\u2028*/b<!  -- // z" = .ok "\na/ /r/g\nb<! --" ∧
      squeezed "\uFEFF/**/a / /*x*/\t/r/g/*\u2028*/b<!  -- // z" = "\uFEFF a / /r/g\nb<! -- " ∧
      minify "\uFEFF a / /r/g\nb<! -- " = .ok "\na/ /r/g\nb<! --" := by
  have done : minify "\uFEFF/**/a / /*x*/\t/r/g/*\u2028*/b<!  -- // z" =
      .ok "\na/ /r/g\nb<! --" := minify_eq_ok_iff.mpr (by decide +kernel)
  have text : squeezed "\uFEFF/**/a / /*x*/\t/r/g/*\u2028*/b<!  -- // z" =
      "\uFEFF a / /r/g\nb<! -- " := by
    decide +kernel
  have same := (minify_squeezed done).1
  rw [text] at same
  exact ⟨done, text, same⟩

end Elision
