import Elision.Proofs.Reads

namespace Elision

/-- The gap behind some more lexemes. -/
def Gap.across (gap : Gap) (lexemes : List Lexeme) : Gap :=
  lexemes.foldl (fun gap lexeme => gap.widen (lexeme.gap?.getD .empty)) gap

/-- A writer that has passed over some more lexemes. -/
def Writer.across (writer : Writer) (lexemes : List Lexeme) : Writer :=
  { writer with gap := writer.gap.across lexemes }

@[simp] theorem Writer.across_token (writer : Writer) (lexemes : List Lexeme) :
    (writer.across lexemes).token = writer.token := rfl

@[simp] theorem Writer.across_nil (writer : Writer) : writer.across [] = writer := rfl

theorem Writer.accept_elided (writer : Writer) {lexeme : Lexeme} (elided : lexeme.gap? ≠ none)
    (ahead : Option Char) : writer.accept lexeme ahead = writer.across [lexeme] := by
  unfold Writer.accept
  split
  · rename_i gap atGap
    simp [Writer.across, Gap.across, atGap]
  · contradiction

theorem Writer.accept_kept (writer : Writer) {lexeme : Lexeme} (kept : lexeme.gap? = none)
    (ahead : Option Char) : writer.accept lexeme ahead = writer.keep lexeme ahead := by
  simp [Writer.accept, kept]

/-- Lexemes that are passed over, with `rest` behind them. -/
def Elided (rest : List Char) : List Lexeme → Prop
  | [] => True
  | lexeme :: later =>
    lexeme.gap? ≠ none ∧ lexeme.Whole ∧ lexeme.EndsBefore (textOf later ++ rest).head? ∧
      Elided rest later

/-- A piece of source that is kept, with the lexemes elided before it and the text written in their
place. Behind the piece, `token` is the last token. -/
structure Placed where
  gap : List Lexeme
  joint : List Char
  piece : Lexeme
  token : Token
  deriving DecidableEq

def Placed.source (placed : Placed) : List Char := textOf placed.gap ++ placed.piece.text

def Placed.written (placed : Placed) : List Char := placed.joint ++ placed.piece.text

def sourceOf (pieces : List Placed) : List Char := pieces.flatMap Placed.source

def writtenOf (pieces : List Placed) : List Char := pieces.flatMap Placed.written

@[simp] theorem sourceOf_nil : sourceOf [] = [] := rfl

@[simp] theorem sourceOf_cons (placed : Placed) (later : List Placed) :
    sourceOf (placed :: later) = placed.source ++ sourceOf later := rfl

@[simp] theorem writtenOf_nil : writtenOf [] = [] := rfl

@[simp] theorem writtenOf_cons (placed : Placed) (later : List Placed) :
    writtenOf (placed :: later) = placed.written ++ writtenOf later := rfl

theorem writtenOf_append (before after : List Placed) :
    writtenOf (before ++ after) = writtenOf before ++ writtenOf after :=
  List.flatMap_append

theorem sourceOf_append (before after : List Placed) :
    sourceOf (before ++ after) = sourceOf before ++ sourceOf after :=
  List.flatMap_append

/-- The last token behind some more pieces. -/
def endToken (token : Token) : List Placed → Token
  | [] => token
  | placed :: later => endToken placed.token later

theorem endToken_append (token : Token) (before after : List Placed) :
    endToken token (before ++ after) = endToken (endToken token before) after := by
  induction before generalizing token with
  | nil => rfl
  | cons placed before ih => exact ih placed.token

/-- A source taken apart: the pieces that are kept, in order, and the lexemes behind the last. -/
structure Layout where
  pieces : List Placed
  trail : List Lexeme
  deriving DecidableEq

/-- With one more lexeme elided at the front. -/
def Layout.elide (lexeme : Lexeme) (layout : Layout) : Layout :=
  match layout.pieces with
  | [] => ⟨[], lexeme :: layout.trail⟩
  | placed :: later => ⟨{ placed with gap := lexeme :: placed.gap } :: later, layout.trail⟩

/-- How a writer lays out the lexemes that it reads, when `unread` stands behind them. -/
def Writer.layOut (writer : Writer) (unread : List Char) : List Lexeme → Layout
  | [] => ⟨[], []⟩
  | lexeme :: later =>
    let ahead := (textOf later ++ unread).head?
    let behind := (writer.accept lexeme ahead).layOut unread later
    match lexeme.gap? with
    | some _ => behind.elide lexeme
    | none =>
      let joint := writer.joint lexeme.first ahead
      ⟨⟨[], joint, lexeme, (writer.keep lexeme ahead).token⟩ :: behind.pieces, behind.trail⟩

/-- How a source is laid out by its run. -/
def layout (source : List Char) : Layout :=
  (Writer.start []).layOut (scan [] source).unread (scan [] source).lexemes

/-- Pieces as a writer lays them out, one step for each piece with the gap before it, when `rest`
stands behind them. -/
inductive Laid (rest : List Char) : Writer → List Placed → Prop
  | done {writer} : Laid rest writer []
  | next {writer placed later} :
      Elided (placed.piece.text ++ (sourceOf later ++ rest)) placed.gap →
      placed.piece.gap? = none →
      placed.piece.Legible writer.token.opensRegex (sourceOf later ++ rest) →
      placed.joint =
        (writer.across placed.gap).joint placed.piece.first (sourceOf later ++ rest).head? →
      placed.token =
        ((writer.across placed.gap).keep placed.piece (sourceOf later ++ rest).head?).token →
      Laid rest ((writer.across placed.gap).keep placed.piece (sourceOf later ++ rest).head?) later →
      Laid rest writer (placed :: later)

def Layout.lexemes (layout : Layout) : List Lexeme :=
  layout.pieces.flatMap (fun placed => placed.gap ++ [placed.piece]) ++ layout.trail

theorem Layout.textOf_lexemes (layout : Layout) :
    textOf layout.lexemes = sourceOf layout.pieces ++ textOf layout.trail := by
  obtain ⟨pieces, trail⟩ := layout
  induction pieces with
  | nil => rfl
  | cons placed later ih => simp_all [Layout.lexemes, Placed.source]

theorem Layout.elide_lexemes (lexeme : Lexeme) (layout : Layout) :
    (layout.elide lexeme).lexemes = lexeme :: layout.lexemes := by
  obtain ⟨pieces, trail⟩ := layout
  cases pieces <;> rfl

theorem Layout.elide_written (lexeme : Lexeme) (layout : Layout) :
    writtenOf (layout.elide lexeme).pieces = writtenOf layout.pieces := by
  obtain ⟨pieces, trail⟩ := layout
  cases pieces <;> rfl

/-- Laying out only groups the lexemes. -/
theorem Writer.layOut_lexemes (writer : Writer) (unread : List Char) (lexemes : List Lexeme) :
    (writer.layOut unread lexemes).lexemes = lexemes := by
  induction lexemes generalizing writer with
  | nil => rfl
  | cons lexeme later ih =>
    unfold Writer.layOut
    dsimp only
    split
    · rw [Layout.elide_lexemes, ih]
    · exact congrArg (lexeme :: ·) (ih _)

theorem Writer.layOut_text (writer : Writer) (unread : List Char) (lexemes : List Lexeme) :
    sourceOf (writer.layOut unread lexemes).pieces ++ textOf (writer.layOut unread lexemes).trail =
      textOf lexemes := by
  rw [← Layout.textOf_lexemes, Writer.layOut_lexemes]

theorem Laid.elide {rest : List Char} {writer : Writer} {lexeme : Lexeme} (layout : Layout)
    (elided : lexeme.gap? ≠ none) (whole : lexeme.Whole)
    (ends : lexeme.EndsBefore (sourceOf layout.pieces ++ (textOf layout.trail ++ rest)).head?)
    (laid : Laid (textOf layout.trail ++ rest) (writer.across [lexeme]) layout.pieces)
    (trail : Elided rest layout.trail) :
    Laid (textOf (layout.elide lexeme).trail ++ rest) writer (layout.elide lexeme).pieces ∧
      Elided rest (layout.elide lexeme).trail := by
  obtain ⟨pieces, lexemes⟩ := layout
  cases laid with
  | done => exact ⟨.done, elided, whole, ends, trail⟩
  | @next _ placed later gap kept legible joint token laid =>
    refine ⟨.next ⟨elided, whole, ?_, gap⟩ kept legible joint token laid, trail⟩
    simpa [Layout.elide, Placed.source] using ends

/-- What is read lexeme by lexeme is laid out piece by piece. -/
theorem Reads.laid {unread : List Char} {writer final : Writer} {lexemes : List Lexeme}
    (reads : Reads unread writer lexemes final) :
    Laid (textOf (writer.layOut unread lexemes).trail ++ unread) writer
        (writer.layOut unread lexemes).pieces ∧
      Elided unread (writer.layOut unread lexemes).trail := by
  induction reads with
  | done => exact ⟨.done, trivial⟩
  | @next writer final lexeme later legible reads ih =>
    have atRest := (writer.accept lexeme (textOf later ++ unread).head?).layOut_text unread later
    unfold Writer.layOut
    dsimp only
    split
    · rename_i gap atGap
      have elided : lexeme.gap? ≠ none := by simp [atGap]
      rw [writer.accept_elided elided] at ih atRest ⊢
      refine Laid.elide _ elided legible.whole ?_ ih.1 ih.2
      rw [← List.append_assoc, atRest]
      exact legible.endsBefore
    · rename_i kept
      rw [writer.accept_kept kept] at ih atRest ⊢
      refine ⟨.next trivial kept ?_ ?_ ?_ ?_, ih.2⟩
      · rw [← List.append_assoc, atRest]; exact legible
      · rw [← List.append_assoc, atRest]; rfl
      · rfl
      · rw [← List.append_assoc, atRest]; exact ih.1

/-- The text written is that of the pieces and of their joints. -/
theorem Reads.written {unread : List Char} {writer final : Writer} {lexemes : List Lexeme}
    (reads : Reads unread writer lexemes final) :
    final.out.reverse =
      writer.out.reverse ++ writtenOf (writer.layOut unread lexemes).pieces := by
  induction reads with
  | done => simp [Writer.layOut]
  | @next writer final lexeme later legible reads ih =>
    unfold Writer.layOut
    dsimp only
    split
    · rename_i gap atGap
      rw [ih, Layout.elide_written, writer.accept_elided (by simp [atGap])]
      rfl
    · rename_i kept
      rw [ih, writer.accept_kept kept]
      simp [Writer.keep, Placed.written]

/-- Passing over lexemes changes the gap and nothing else of what is read behind them. -/
theorem Elided.reads {unread : List Char} {gap later : List Lexeme} {writer final : Writer}
    (elided : Elided (textOf later ++ unread) gap)
    (reads : Reads unread (writer.across gap) later final) :
    Reads unread writer (gap ++ later) final ∧
      writer.layOut unread (gap ++ later) =
        gap.foldr Layout.elide ((writer.across gap).layOut unread later) := by
  induction gap generalizing writer with
  | nil => exact ⟨reads, rfl⟩
  | cons lexeme gap ih =>
    obtain ⟨isGap, whole, ends, elided⟩ := elided
    obtain ⟨readsGap, laidGap⟩ := @ih (writer.across [lexeme]) elided reads
    have atAccept := writer.accept_elided isGap
    constructor
    · refine .next ⟨whole, by simpa using ends, ?_⟩ ?_
      · cases lexeme with
        | code | regex => exact absurd rfl isGap
        | _ => trivial
      · rw [atAccept]; exact readsGap
    · rw [List.cons_append, Writer.layOut]
      dsimp only
      rw [atAccept, laidGap]
      split
      · rfl
      · contradiction

theorem Layout.foldr_elide_cons (gap : List Lexeme) (placed : Placed) (later : List Placed)
    (trail : List Lexeme) :
    gap.foldr Layout.elide ⟨placed :: later, trail⟩ =
      ⟨{ placed with gap := gap ++ placed.gap } :: later, trail⟩ := by
  induction gap with
  | nil => rfl
  | cons lexeme gap ih => rw [List.foldr_cons, ih]; rfl

theorem Layout.foldr_elide_nil (gap trail : List Lexeme) :
    gap.foldr Layout.elide ⟨[], trail⟩ = ⟨[], gap ++ trail⟩ := by
  induction gap with
  | nil => rfl
  | cons lexeme gap ih => rw [List.foldr_cons, ih]; rfl

/-- Pieces that can be laid out one by one are what the writer lays out from their lexemes. -/
theorem Laid.reads {unread : List Char} {writer : Writer} {pieces : List Placed}
    {trail : List Lexeme} (laid : Laid (textOf trail ++ unread) writer pieces)
    (elided : Elided unread trail) :
    ∃ final, Reads unread writer (Layout.lexemes ⟨pieces, trail⟩) final ∧
      final.token = endToken writer.token pieces ∧
      writer.layOut unread (Layout.lexemes ⟨pieces, trail⟩) = ⟨pieces, trail⟩ := by
  induction laid with
  | @done writer =>
    have atEnd : Reads unread (writer.across trail) [] (writer.across trail) := .done
    have elided : Elided (textOf [] ++ unread) trail := elided
    obtain ⟨reads, layOut⟩ := elided.reads atEnd
    rw [List.append_nil] at reads layOut
    refine ⟨_, reads, rfl, layOut.trans ?_⟩
    rw [Writer.layOut, Layout.foldr_elide_nil, List.append_nil]
  | @next writer placed later gap kept legible joint token laid ih =>
    obtain ⟨final, reads, atEnd, layOut⟩ := ih
    rw [← token] at atEnd
    have atLater : textOf (Layout.lexemes ⟨later, trail⟩) ++ unread =
        sourceOf later ++ (textOf trail ++ unread) := by
      rw [Layout.textOf_lexemes, List.append_assoc]
    have atPiece : Reads unread (writer.across placed.gap)
        (placed.piece :: Layout.lexemes ⟨later, trail⟩) final := by
      refine .next ?_ ?_
      · rw [atLater]; exact legible
      · rw [atLater, (writer.across placed.gap).accept_kept kept]; exact reads
    have gap : Elided (textOf (placed.piece :: Layout.lexemes ⟨later, trail⟩) ++ unread)
        placed.gap := by
      rw [textOf_cons, List.append_assoc, atLater]; exact gap
    obtain ⟨readsAll, layOutAll⟩ := gap.reads atPiece
    have atLexemes : Layout.lexemes ⟨placed :: later, trail⟩ =
        placed.gap ++ placed.piece :: Layout.lexemes ⟨later, trail⟩ := by
      simp [Layout.lexemes]
    rw [atLexemes]
    refine ⟨final, readsAll, atEnd, layOutAll.trans ?_⟩
    rw [Writer.layOut]
    dsimp only
    rw [atLater, (writer.across placed.gap).accept_kept kept, layOut]
    split
    · rename_i atGap
      rw [kept] at atGap
      cases atGap
    · rw [Layout.foldr_elide_cons, ← joint, ← token, List.append_nil]

/-- A run over a source finds these pieces and gaps, and then comes to `unread`. -/
structure Layout.Reaches (layout : Layout) (source unread : List Char) : Prop where
  text : dropMark source = sourceOf layout.pieces ++ (textOf layout.trail ++ unread)
  laid : Laid (textOf layout.trail ++ unread) (.start []) layout.pieces
  trail : Elided unread layout.trail

/-- Behind the pieces the run goes on with their last token and with what was written for them. -/
theorem Layout.Reaches.scan_eq {plan : Layout} {source unread : List Char}
    (reaches : plan.Reaches source unread) :
    ∃ writer : Writer, scan [] source = writer.run plan.lexemes.reverse unread ∧
      writer.token = endToken .start plan.pieces ∧
      writer.out.reverse = '\n' :: writtenOf plan.pieces ∧
      (Writer.start []).layOut unread plan.lexemes = plan := by
  obtain ⟨text, laid, trail⟩ := reaches
  obtain ⟨writer, reads, atEnd, layOut⟩ := laid.reads trail
  have run := reads.run_append []
  have written := reads.written
  rw [layOut] at written
  refine ⟨writer, ?_, atEnd, written, layOut⟩
  rw [scan, text, ← List.append_assoc, ← Layout.textOf_lexemes, run, List.append_nil]

/-- Every run comes to the end of its source, or to the lexeme that it cannot read. -/
theorem layout_reaches (source : List Char) :
    (layout source).Reaches source (scan [] source).unread ∧
      (scan [] source).writer.token = endToken .start (layout source).pieces ∧
      (scan [] source).writer.out.reverse = '\n' :: writtenOf (layout source).pieces := by
  obtain ⟨lexemes, atLexemes, atSource, reads⟩ := (Writer.start []).run_reads [] (dropMark source)
  rw [← scan] at atLexemes atSource reads
  have same : layout source = (Writer.start []).layOut (scan [] source).unread lexemes := by
    rw [layout, atLexemes]
    rfl
  obtain ⟨laid, trail⟩ := reads.laid
  obtain ⟨final, again, atEnd, _⟩ := laid.reads trail
  rw [Writer.layOut_lexemes] at again
  have written := reads.written
  rw [← same] at laid trail atEnd written
  refine ⟨⟨?_, laid, trail⟩, ?_, written⟩
  · rw [← List.append_assoc, same, Writer.layOut_text, ← atSource]
  · rw [reads.unique again, atEnd]
    rfl

/-- A source is made up of these pieces and gaps, and a run over it finds them. -/
structure Layout.Covers (layout : Layout) (source : List Char) : Prop where
  text : dropMark source = sourceOf layout.pieces ++ textOf layout.trail
  laid : Laid (textOf layout.trail) (.start []) layout.pieces
  trail : Elided [] layout.trail

theorem Layout.Covers.reaches {plan : Layout} {source : List Char} (covers : plan.Covers source) :
    plan.Reaches source [] :=
  ⟨by rw [List.append_nil, covers.text], by rw [List.append_nil]; exact covers.laid, covers.trail⟩

theorem Layout.Reaches.covers {plan : Layout} {source : List Char} (reaches : plan.Reaches source []) :
    plan.Covers source := by
  obtain ⟨text, laid, trail⟩ := reaches
  rw [List.append_nil] at text laid
  exact ⟨text, laid, trail⟩

theorem Layout.Covers.layout_eq {plan : Layout} {source : List Char} (covers : plan.Covers source) :
    layout source = plan ∧ (scan [] source).unclosed = none ∧
      (scan [] source).writer.out.reverse = '\n' :: writtenOf plan.pieces := by
  obtain ⟨writer, atScan, _, written, layOut⟩ := covers.reaches.scan_eq
  rw [Writer.run, List.reverse_reverse] at atScan
  refine ⟨?_, ?_, ?_⟩
  · rw [layout, atScan]
    exact layOut
  · rw [atScan]
  · rw [atScan]
    exact written

theorem layout_covers {source out : String} (done : minify source = .ok out) :
    (layout source.toList).Covers source.toList ∧
      out.toList = '\n' :: writtenOf (layout source.toList).pieces := by
  obtain ⟨closed, atOut⟩ := minify_eq_ok_iff.mp done
  obtain ⟨reaches, _, written⟩ := layout_reaches source.toList
  have atEnd : (scan [] source.toList).unread = [] := Writer.run_unread_of_closed closed
  rw [atEnd] at reaches
  exact ⟨reaches.covers, atOut.trans written⟩

theorem Layout.Covers.minify_eq {plan : Layout} {source : String} (covers : plan.Covers source.toList) :
    minify source = .ok (String.ofList ('\n' :: writtenOf plan.pieces)) := by
  obtain ⟨_, closed, written⟩ := covers.layout_eq
  exact minify_eq_ok_iff.mpr ⟨closed, by simp [written]⟩

end Elision
