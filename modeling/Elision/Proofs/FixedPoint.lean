import Elision.Proofs.Split
import Elision.Proofs.Spoiling

namespace Elision

/-- Whether a text is written as it stands: it has a line break in front, the joints between its
pieces and nothing behind them. -/
def Layout.isSettled (layout : Layout) : Bool :=
  match layout.pieces with
  | [] => textOf layout.trail = ['\n']
  | first :: later =>
    textOf first.gap = ['\n'] && later.all (fun placed => textOf placed.gap = placed.joint) &&
      layout.trail = []

/-- A joint is never longer than the text that it stands for. -/
theorem Placed.InPlace.joint_length_le {placed : Placed} {rest : List Char}
    (inPlace : placed.InPlace rest) : placed.joint.length ≤ (textOf placed.gap).length := by
  by_cases noGap : placed.gap = []
  · simp [inPlace.adjacent noGap]
  · have gapped : textOf placed.gap ≠ [] := mt textOf_eq_nil_iff.mp noGap
    have long := List.length_pos_iff.mpr gapped
    have short : placed.joint.length ≤ 1 := by
      have joint := inPlace.joint
      simp only [List.mem_cons, List.not_mem_nil, or_false] at joint
      rcases joint with same | same | same | same <;> simp [same]
    omega

theorem Laid.written_length_le {rest : List Char} {writer : Writer} {pieces : List Placed}
    (laid : Laid rest writer pieces) (adjacent : writer.gap = .empty) :
    (writtenOf pieces).length ≤ (sourceOf pieces).length := by
  induction pieces generalizing writer with
  | nil => simp
  | cons placed later ih =>
    have here := (laid.inPlace adjacent).joint_length_le
    cases laid with
    | next _ _ _ _ _ laid =>
      have shorter := ih laid rfl
      simp only [writtenOf_cons, sourceOf_cons, Placed.written, Placed.source, List.length_append]
      omega

/-- Pieces that are written as they stand have their joints for gaps. -/
theorem Laid.gap_eq_joint {rest : List Char} {writer : Writer} {pieces : List Placed}
    {tail : List Char} (laid : Laid rest writer pieces) (adjacent : writer.gap = .empty)
    (same : sourceOf pieces ++ tail = writtenOf pieces) :
    (∀ placed ∈ pieces, textOf placed.gap = placed.joint) ∧ tail = [] := by
  induction pieces generalizing writer with
  | nil => exact ⟨by simp, same⟩
  | cons placed later ih =>
    have here := (laid.inPlace adjacent).joint_length_le
    cases laid with
    | next _ _ _ _ _ laid =>
      have shorter := laid.written_length_le rfl
      have total := congrArg List.length same
      simp only [sourceOf_cons, writtenOf_cons, Placed.source, Placed.written,
        List.append_assoc] at same
      simp only [sourceOf_cons, writtenOf_cons, Placed.source, Placed.written,
        List.length_append] at total
      -- Neither the joint nor what is written later is longer than its source, so both are as long.
      obtain ⟨atGap, atLater⟩ := List.append_inj same (by omega)
      obtain ⟨gaps, atEnd⟩ := ih laid rfl (List.append_cancel_left atLater)
      refine ⟨?_, atEnd⟩
      intro other member
      rcases List.mem_cons.mp member with first | later
      · rw [first]
        exact atGap
      · exact gaps other later

theorem sourceOf_eq_writtenOf {pieces : List Placed}
    (gaps : ∀ placed ∈ pieces, textOf placed.gap = placed.joint) :
    sourceOf pieces = writtenOf pieces := by
  induction pieces with
  | nil => rfl
  | cons placed later ih =>
    have here := gaps placed List.mem_cons_self
    have same := ih (fun other member => gaps other (List.mem_cons_of_mem placed member))
    rw [sourceOf_cons, writtenOf_cons, Placed.source, Placed.written, here, same]

theorem Laid.settled_iff {rest : List Char} {plan : Layout} (laid : Laid rest (.start []) plan.pieces) :
    sourceOf plan.pieces ++ textOf plan.trail = '\n' :: writtenOf plan.pieces ↔
      plan.isSettled = true := by
  obtain ⟨pieces, trail⟩ := plan
  cases laid with
  | done => simp [Layout.isSettled]
  | @next _ placed later elided kept legible joint token laid =>
    have noJoint : placed.joint = [] := joint.trans rfl
    simp only [Layout.isSettled, Bool.and_eq_true, decide_eq_true_eq, List.all_eq_true, sourceOf_cons,
      writtenOf_cons, Placed.source, Placed.written, noJoint, List.nil_append, List.append_assoc]
    constructor
    · intro same
      have gapped : textOf placed.gap ≠ [] := by
        intro noGap
        obtain ⟨tail, atPiece⟩ := placed.piece.text_eq_cons
        rw [noGap, atPiece] at same
        exact Lexeme.first_ne_newline kept legible.whole (List.cons.inj same).1
      have long := List.length_pos_iff.mpr gapped
      have shorter := laid.written_length_le rfl
      have total := congrArg List.length same
      simp only [List.length_append, List.length_cons] at total
      have front : textOf placed.gap ++ (placed.piece.text ++ (sourceOf later ++ textOf trail)) =
          ['\n'] ++ (placed.piece.text ++ writtenOf later) := same
      obtain ⟨atGap, atLater⟩ := List.append_inj front (by rw [List.length_singleton]; omega)
      obtain ⟨gaps, atEnd⟩ := laid.gap_eq_joint rfl (List.append_cancel_left atLater)
      exact ⟨⟨atGap, gaps⟩, textOf_eq_nil_iff.mp atEnd⟩
    · rintro ⟨⟨atGap, gaps⟩, rfl⟩
      rw [atGap, sourceOf_eq_writtenOf gaps]
      simp

/-- The texts that minifying leaves alone, among those that start with a line break. -/
theorem minify_eq_self_iff {text : String} (front : text.toList.head? = some '\n') :
    minify text = .ok text ↔
      (scan [] text.toList).unclosed = none ∧ (layout text.toList).isSettled = true := by
  have noMark : dropMark text.toList = text.toList := by
    obtain ⟨rest, atText⟩ := List.head?_eq_some_iff.mp front
    rw [atText]
    rfl
  constructor
  · intro fixed
    obtain ⟨covers, atOut⟩ := layout_covers fixed
    have same := covers.laid.settled_iff.mp (covers.text.symm.trans (noMark.trans atOut))
    exact ⟨(minify_eq_ok_iff.mp fixed).1, same⟩
  · rintro ⟨closed, settled⟩
    obtain ⟨covers, _⟩ := layout_covers (minify_eq_ok_iff.mpr ⟨closed, String.toList_ofList⟩)
    have same := covers.laid.settled_iff.mpr settled
    rw [← covers.text, noMark] at same
    rw [covers.minify_eq, ← same, String.ofList_toList]

/-- Minifying again changes nothing where no blank was dropped between a token and a character that
fuses with it. It changes nothing exactly where the output, read as a source, is closed and has its
own joints for gaps. And every such blank does harm: behind any source that ends in its last piece
it can be followed by a text with which the output is no longer a source that can be read. -/
theorem minify_output_fixed_iff {source out : String} (done : minify source = .ok out) :
    (minify out = .ok out ↔
      (scan [] out.toList).unclosed = none ∧ (layout out.toList).isSettled = true) ∧
    (unfused .start (layout source.toList).pieces = true → minify out = .ok out) ∧
    (unfused .start (layout source.toList).pieces = true → (layout source.toList).trail = [] →
      ∀ c, IsCode c → (endToken .start (layout source.toList).pieces).fuses c = true →
        ∃ tail again, minify (source ++ String.ofList (' ' :: c :: tail)) = .ok again ∧
          ∀ last, minify again ≠ .ok last) := by
  obtain ⟨covers, atOut⟩ := layout_covers done
  refine ⟨minify_eq_self_iff (by rw [atOut]; rfl), ?_, ?_⟩
  · intro apart
    have again := covers.replayed apart
    rw [← atOut] at again
    rw [again.minify_eq, Layout.elide_written, writtenOf_replay, ← atOut, String.ofList_toList]
  · intro apart atEnd c isCode fuses
    exact covers.spoiled atEnd apart isCode fuses

/-- A source that can be minified again, but no longer with a letter behind a blank. -/
theorem minify_output_fixed_number :
    minify "1." = .ok "\n1." ∧ minify "\n1." = .ok "\n1." ∧
      (layout "\n1.".toList).isSettled = true ∧
      ∃ tail again, minify ("1." ++ String.ofList (' ' :: 'i' :: tail)) = .ok again ∧
        ∀ last, minify again ≠ .ok last := by
  have done : minify "1." = .ok "\n1." := minify_eq_ok_iff.mpr (by decide +kernel)
  have apart : unfused .start (layout "1.".toList).pieces = true := by decide +kernel
  have atEnd : (layout "1.".toList).trail = [] := by decide +kernel
  have isCode : IsCode 'i' := ⟨by decide, by decide, by decide⟩
  have fuses : (endToken .start (layout "1.".toList).pieces).fuses 'i' = true := by decide +kernel
  obtain ⟨exactly, fixed, spoiled⟩ := minify_output_fixed_iff done
  have same := fixed apart
  exact ⟨done, same, (exactly.mp same).2, spoiled apart atEnd 'i' isCode fuses⟩

/-- The blank behind the number is dropped, the number takes the word, and what was a regular
expression is read as two divisions. -/
theorem minify_not_idempotent :
    minify "1. in / x/" = .ok "\n1.in/ x/" ∧ minify "\n1.in/ x/" = .ok "\n1.in/x/" ∧
      ¬∀ source out, minify source = .ok out → minify out = .ok out := by
  have first : minify "1. in / x/" = .ok "\n1.in/ x/" := minify_eq_ok_iff.mpr (by decide +kernel)
  have second : minify "\n1.in/ x/" = .ok "\n1.in/x/" := minify_eq_ok_iff.mpr (by decide +kernel)
  refine ⟨first, second, ?_⟩
  intro fixed
  have same := second.symm.trans (fixed _ _ first)
  exact absurd (Except.ok.inj same) (by decide)

end Elision
