import Elision.Proofs.Layout

namespace Elision

/-- Of what stands behind a piece only a dash has any influence on what is written before it. -/
theorem Writer.keep_ahead {ahead behind : Option Char} (same : ahead = some '-' ↔ behind = some '-')
    (writer : Writer) (piece : Lexeme) :
    writer.joint piece.first ahead = writer.joint piece.first behind ∧
      writer.keep piece ahead = writer.keep piece behind := by
  have sameMarkup (last next : Char) :
      writer.opensMarkupComment last next ahead = writer.opensMarkupComment last next behind := by
    rw [Writer.opensMarkupComment, Writer.opensMarkupComment, decide_eq_decide.mpr same]
  have sameJoint : writer.joint piece.first ahead = writer.joint piece.first behind := by
    simp only [Writer.joint, sameMarkup]
  exact ⟨sameJoint, by rw [Writer.keep, Writer.keep, sameJoint]⟩

theorem Elided.of_head {rest other : List Char} {gap : List Lexeme} (same : rest.head? = other.head?)
    (elided : Elided rest gap) : Elided other gap := by
  induction gap with
  | nil => trivial
  | cons lexeme later ih =>
    obtain ⟨isGap, whole, ends, elided⟩ := elided
    refine ⟨isGap, whole, ?_, ih elided⟩
    rw [List.head?_append] at ends ⊢
    rwa [← same]

theorem Lexeme.endsBefore_none (lexeme : Lexeme) : lexeme.EndsBefore none := by
  cases lexeme <;> simp [Lexeme.EndsBefore]

/-- The lexeme is read and written before `behind` as it is before `ahead`. -/
structure Lexeme.Ignores (ahead behind : Option Char) (lexeme : Lexeme) : Prop where
  endsBefore : lexeme.EndsBefore ahead → lexeme.EndsBefore behind
  accept : ∀ writer : Writer, writer.accept lexeme ahead = writer.accept lexeme behind

theorem Lexeme.Ignores.refl (ahead : Option Char) (lexeme : Lexeme) : lexeme.Ignores ahead ahead :=
  ⟨id, fun _ => rfl⟩

/-- The end of the text takes the place of anything but a dash. -/
theorem Lexeme.ignores_none {ahead : Option Char} (noDash : ahead ≠ some '-') (lexeme : Lexeme) :
    lexeme.Ignores ahead none := by
  refine ⟨fun _ => lexeme.endsBefore_none, ?_⟩
  intro writer
  have dash : ahead = some '-' ↔ none = some '-' := by simp [noDash]
  have sameKeep := (writer.keep_ahead dash lexeme).2
  simp only [Writer.accept, sameKeep]

/-- Behind the end of a line anything may stand. -/
theorem Lexeme.lineBreak_ignores (c : Char) (ahead behind : Option Char) :
    (Lexeme.lineBreak c).Ignores ahead behind :=
  ⟨id, fun _ => rfl⟩

/-- Only the last lexeme borders on the text that is left unread, so only that one has to be read and
written as before when another text stands there. -/
theorem Reads.of_ahead {unread other : List Char} {writer final : Writer} {lexemes : List Lexeme}
    (reads : Reads unread writer lexemes final)
    (ignores : ∀ lexeme ∈ lexemes.getLast?, lexeme.Ignores unread.head? other.head?) :
    Reads other writer lexemes final := by
  induction reads with
  | done => exact .done
  | @next writer final lexeme later legible reads ih =>
    have here : lexeme.Ignores (textOf later ++ unread).head? (textOf later ++ other).head? := by
      cases later with
      | nil => exact ignores lexeme rfl
      | cons second later =>
        have nonempty := List.ne_nil_of_length_pos second.text_length_pos
        obtain ⟨c, cs, atText⟩ := List.exists_cons_of_ne_nil nonempty
        simpa [atText] using Lexeme.Ignores.refl (some c) lexeme
    refine .next ⟨legible.whole, here.endsBefore legible.endsBefore, legible.agrees⟩ ?_
    rw [← here.accept]
    refine ih ?_
    intro last atLast
    refine ignores last ?_
    cases later with
    | nil => cases atLast
    | cons second later => exact atLast

theorem Reads.of_head {unread other : List Char} {writer final : Writer} {lexemes : List Lexeme}
    (reads : Reads unread writer lexemes final) (same : unread.head? = other.head?) :
    Reads other writer lexemes final := by
  refine reads.of_ahead ?_
  intro lexeme _
  rw [same]
  exact Lexeme.Ignores.refl _ lexeme

theorem dropMark_of_head {text : List Char} (noMark : text.head? ≠ some byteOrderMark) :
    dropMark text = text := by
  cases text with
  | nil => rfl
  | cons c cs =>
    rw [dropMark, if_neg]
    simpa using noMark

theorem dropMark_append {before : List Char} (nonempty : before ≠ []) (after : List Char) :
    dropMark (before ++ after) = dropMark before ++ after := by
  cases before with
  | nil => exact absurd rfl nonempty
  | cons c cs =>
    simp only [List.cons_append, dropMark]
    split <;> rfl

theorem dropMark_append_of_head {after : List Char} (noMark : after.head? ≠ some byteOrderMark)
    (before : List Char) : dropMark (before ++ after) = dropMark before ++ after := by
  by_cases empty : before = []
  · rw [empty]
    exact dropMark_of_head noMark
  · exact dropMark_append empty after

/-- Where a source is split behind its mark, it is split there as a whole. -/
theorem exists_dropMark_eq {source front rest : List Char} (split : dropMark source = front ++ rest) :
    ∃ before, source = before ++ rest ∧ dropMark before = front := by
  cases source with
  | nil =>
    obtain ⟨rfl, rfl⟩ := List.append_eq_nil_iff.mp split.symm
    exact ⟨[], rfl, rfl⟩
  | cons c cs =>
    rw [dropMark] at split
    split at split
    · rename_i mark
      exact ⟨c :: front, by simp [split], by simp [dropMark, mark]⟩
    · rename_i noMark
      refine ⟨front, split, dropMark_of_head ?_⟩
      intro mark
      obtain ⟨more, rfl⟩ := List.head?_eq_some_iff.mp mark
      exact noMark (List.cons.inj split).1

end Elision
