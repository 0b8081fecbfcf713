import Elision.Proofs.Failures
import Elision.Proofs.Lookahead
import Elision.Proofs.Lookback
import Elision.Proofs.Separation

namespace Elision

/-- Two literals of one kind: strings or templates in the same quotes, or regular expressions with
the same flags. -/
inductive Lexeme.Alike : Lexeme → Lexeme → Prop
  | quoted (quote : Char) (first second : List Char) :
      Alike (.quoted quote first) (.quoted quote second)
  | regex (first second flags : List Char) : Alike (.regex first flags) (.regex second flags)

theorem Lexeme.Whole.classify_quote {quote : Char} {tail : List Char}
    (whole : (Lexeme.quoted quote tail).Whole) : classify quote = .quote := by
  rcases whole with ⟨rfl, _⟩ | ⟨_, isQuote, _⟩
  · exact classify_backtick
  · exact isQuote

section Alike

variable {first second : Lexeme}

theorem Lexeme.Alike.symm (alike : first.Alike second) : second.Alike first := by
  cases alike with
  | quoted quote first second => exact .quoted quote second first
  | regex first second flags => exact .regex second first flags

theorem Lexeme.Alike.kept (alike : first.Alike second) : first.gap? = none ∧ second.gap? = none := by
  cases alike <;> exact ⟨rfl, rfl⟩

theorem Lexeme.Alike.first_eq (alike : first.Alike second) : first.first = second.first := by
  cases alike <;> rfl

theorem Lexeme.Alike.last_eq (alike : first.Alike second) : first.last = second.last := by
  cases alike <;> rfl

theorem Lexeme.Alike.track_eq (alike : first.Alike second) (token : Token) (glued : Bool) :
    first.track token glued = second.track token glued := by
  cases alike <;> rfl

theorem Lexeme.Alike.legible {opensRegex : Bool} {rest : List Char} (alike : first.Alike second)
    (whole : second.Whole) (legible : first.Legible opensRegex rest) :
    second.Legible opensRegex rest := by
  refine ⟨whole, ?_, ?_⟩
  · cases alike with
    | quoted => trivial
    | regex => exact legible.endsBefore
  · cases alike with
    | quoted => trivial
    | regex => exact legible.agrees

theorem Lexeme.Alike.head?_append (alike : first.Alike second) (rest other : List Char) :
    (first.text ++ rest).head? = (second.text ++ other).head? := by
  obtain ⟨_, atFirst⟩ := first.text_eq_cons
  obtain ⟨_, atSecond⟩ := second.text_eq_cons
  simp [atFirst, atSecond, alike.first_eq]

/-- A literal ends in its quote, in a slash or in a letter. -/
theorem Lexeme.Alike.last_ne (alike : first.Alike second) (whole : first.Whole) :
    first.last.char ≠ '!' := by
  cases alike with
  | quoted quote =>
    rintro rfl
    cases whole.classify_quote
  | regex first second flags =>
    cases atFlag : flags.getLast? with
    | none => simp [Lexeme.last, atFlag]
    | some flag =>
      have alpha := whole.2.2.2 flag (List.mem_of_getLast? atFlag)
      intro mark
      simp only [Lexeme.last, atFlag] at mark
      subst mark
      cases alpha

theorem Lexeme.Alike.head?_ne (alike : first.Alike second) (whole : first.Whole) (rest : List Char) :
    (first.text ++ rest).head? ≠ some byteOrderMark := by
  cases alike with
  | quoted quote =>
    intro mark
    obtain rfl : quote = byteOrderMark := Option.some.inj mark
    cases whole.classify_quote
  | regex => simp +decide [Lexeme.text]

end Alike

/-- Behind a whole piece a writer has the last character of it in sight. All other text stands before
that. -/
theorem Writer.keep_eq_behind (writer : Writer) {piece : Lexeme} (kept : piece.gap? = none)
    (whole : piece.Whole) (ahead : Option Char) :
    writer.keep piece ahead =
      Writer.behind
        ⟨[piece.last.char], some piece.last, .empty, piece.track writer.token writer.isGlued⟩
        (writer.out.reverse ++ writer.joint piece.first ahead ++ piece.text.dropLast) := by
  obtain ⟨body, text⟩ := List.getLast?_eq_some_iff.mp (Lexeme.getLast?_text kept whole)
  unfold Writer.keep Writer.behind
  simp [text]

/-- Behind a literal the pieces are laid out as they are behind another one of its kind. -/
theorem Laid.of_alike {rest : List Char} {writer : Writer} {pieces : List Placed}
    {first second : Lexeme} {ahead : Option Char} (alike : first.Alike second)
    (wholeFirst : first.Whole) (wholeSecond : second.Whole)
    (laid : Laid rest (writer.keep first ahead) pieces) :
    Laid rest (writer.keep second ahead) pieces := by
  rw [writer.keep_eq_behind alike.kept.1 wholeFirst] at laid
  rw [writer.keep_eq_behind alike.kept.2 wholeSecond, ← alike.last_eq, ← alike.track_eq]
  exact laid.of_behind ⟨_, rfl, alike.last_ne wholeFirst⟩ _

section Replacing

variable {rest : List Char} {writer : Writer} {before after : List Placed} {placed : Placed}
  {second : Lexeme}

theorem sourceOf_replaced_head (alike : placed.piece.Alike second) (before after : List Placed)
    (rest : List Char) :
    (sourceOf (before ++ placed :: after) ++ rest).head? =
      (sourceOf (before ++ { placed with piece := second } :: after) ++ rest).head? := by
  simp only [sourceOf_append, sourceOf_cons, Placed.source, List.append_assoc]
  cases sourceOf before with
  | cons => rfl
  | nil =>
    cases textOf placed.gap with
    | cons => rfl
    | nil => exact alike.head?_append _ _

/-- A literal may take the place of another one of its kind: no piece before it and no piece behind it
is laid out in another way. -/
theorem Laid.replaced (alike : placed.piece.Alike second) (whole : second.Whole)
    (laid : Laid rest writer (before ++ placed :: after)) :
    Laid rest writer (before ++ { placed with piece := second } :: after) := by
  induction before generalizing writer with
  | nil =>
    cases laid with
    | next elided kept legible joint token laid =>
      have later := laid.of_alike alike legible.whole whole
      refine .next (elided.of_head ?_) alike.kept.2 (alike.legible whole legible) ?_ ?_ later
      · exact alike.head?_append _ _
      · rw [← alike.first_eq]
        exact joint
      · exact token.trans (alike.track_eq _ _)
  | cons earlier before ih =>
    rw [List.cons_append] at laid ⊢
    cases laid with
    | next elided kept legible joint token laid =>
      have same := sourceOf_replaced_head alike before after rest
      rw [same] at joint token laid
      refine .next (elided.of_head ?_) kept ?_ joint token (ih laid)
      · obtain ⟨_, atPiece⟩ := earlier.piece.text_eq_cons
        simp [atPiece]
      · exact ⟨legible.whole, same ▸ legible.endsBefore, legible.agrees⟩

theorem endToken_replaced (token : Token) (before after : List Placed) (placed : Placed)
    (second : Lexeme) :
    endToken token (before ++ { placed with piece := second } :: after) =
      endToken token (before ++ placed :: after) := by
  rw [endToken_append, endToken_append]
  rfl

end Replacing

/-- Two runs that come to the same text with the same last token end alike. -/
theorem Layout.Reaches.ends {plan : Layout} {source other : List Char}
    (reaches : plan.Reaches source (scan [] other).unread)
    (sameToken : endToken .start plan.pieces = endToken .start (layout other).pieces) :
    (scan [] source).unclosed = (scan [] other).unclosed ∧ layout source = plan ∧
      (scan [] source).writer.out.reverse = '\n' :: writtenOf plan.pieces := by
  obtain ⟨writer, atScan, atToken, written, layOut⟩ := reaches.scan_eq
  have ended : scan [] source =
      ⟨plan.lexemes, writer, (scan [] other).unread, (scan [] other).unclosed⟩ := by
    cases result : (scan [] other).unclosed with
    | none =>
      have atEnd : (scan [] other).unread = [] := Writer.run_unread_of_closed result
      rw [atScan, atEnd, Writer.run, List.reverse_reverse]
    | some unclosed =>
      obtain ⟨c, cs, atUnread, reading⟩ := Writer.run_stops result
      rw [← scan] at atUnread reading
      rw [(layout_reaches other).2.1, ← sameToken, ← atToken] at reading
      rw [atScan, atUnread, Writer.run_unclosed reading, List.reverse_reverse]
  refine ⟨by rw [ended], ?_, by rw [ended, written]⟩
  rw [layout, ended]
  exact layOut

section Reaching

variable {front behind unread : List Char} {before after : List Placed} {placed : Placed}
  {trail : List Lexeme} {second : Lexeme}

theorem Layout.Reaches.behind_eq
    (reaches : Layout.Reaches ⟨before ++ placed :: after, trail⟩
      (front ++ (placed.piece.text ++ behind)) unread)
    (place : dropMark front = sourceOf before ++ textOf placed.gap)
    (alike : placed.piece.Alike second) :
    behind = sourceOf after ++ (textOf trail ++ unread) := by
  obtain ⟨_, atPlaced, adjacent⟩ := reaches.laid.drop rfl
  have noMark := alike.head?_ne (atPlaced.inPlace adjacent).whole behind
  have text := reaches.text
  rw [dropMark_append_of_head noMark, place] at text
  simpa [sourceOf_append, Placed.source] using text

/-- With the other literal in its place the run comes to the same text. -/
theorem Layout.Reaches.replaced
    (reaches : Layout.Reaches ⟨before ++ placed :: after, trail⟩
      (front ++ (placed.piece.text ++ behind)) unread)
    (place : dropMark front = sourceOf before ++ textOf placed.gap)
    (alike : placed.piece.Alike second) (whole : second.Whole) :
    Layout.Reaches ⟨before ++ { placed with piece := second } :: after, trail⟩
      (front ++ (second.text ++ behind)) unread := by
  refine ⟨?_, reaches.laid.replaced alike whole, reaches.trail⟩
  rw [dropMark_append_of_head (alike.symm.head?_ne whole behind), place,
    reaches.behind_eq place alike]
  simp [sourceOf_append, Placed.source]

end Reaching

theorem scan_opener {source : List Char} {unclosed : Unclosed}
    (failed : (scan [] source).unclosed = some unclosed) :
    unclosed.opener <:+ (scan [] source).unread := by
  obtain ⟨c, cs, atUnread, reading⟩ := Writer.run_stops failed
  rw [scan, atUnread]
  exact (Lexeme.isOpen_of_read reading).2

/-- What a literal holds has no influence on anything around it. With another literal of its kind in
its place a source has the same pieces, and its result is the same but for that literal. If it fails,
it fails behind the literal, and the other source fails at the same construct. -/
theorem minify_literal_opaque {front behind : List Char} {before after : List Placed}
    {placed : Placed} {second : Lexeme}
    (pieces : (layout (front ++ (placed.piece.text ++ behind))).pieces = before ++ placed :: after)
    (place : dropMark front = sourceOf before ++ textOf placed.gap)
    (alike : placed.piece.Alike second) (whole : second.Whole) :
    (layout (front ++ (second.text ++ behind))).pieces =
        before ++ { placed with piece := second } :: after ∧
      (∀ out, minify (String.ofList (front ++ (placed.piece.text ++ behind))) = .ok out →
        out.toList =
          '\n' :: writtenOf before ++ (placed.joint ++ (placed.piece.text ++ writtenOf after)) ∧
        minify (String.ofList (front ++ (second.text ++ behind))) =
          .ok (String.ofList
            ('\n' :: writtenOf before ++ (placed.joint ++ (second.text ++ writtenOf after))))) ∧
      (∀ failure, minify (String.ofList (front ++ (placed.piece.text ++ behind))) = .error failure →
        byteLength (front ++ placed.piece.text) ≤ failure.start.offset ∧
        ∃ shifted, minify (String.ofList (front ++ (second.text ++ behind))) = .error shifted ∧
          shifted.construct = failure.construct ∧
          shifted.start.offset + byteLength placed.piece.text =
            failure.start.offset + byteLength second.text) := by
  obtain ⟨reaches, _, written⟩ := layout_reaches (front ++ (placed.piece.text ++ behind))
  have plan : layout (front ++ (placed.piece.text ++ behind)) =
      ⟨before ++ placed :: after, (layout (front ++ (placed.piece.text ++ behind))).trail⟩ := by
    rw [← pieces]
  rw [plan] at reaches
  have again := reaches.replaced place alike whole
  have sameToken := endToken_replaced .start before after placed second
  rw [← pieces] at sameToken
  obtain ⟨sameEnd, sameLayout, writtenAgain⟩ := again.ends sameToken
  refine ⟨by rw [sameLayout], ?_, ?_⟩
  · intro out done
    obtain ⟨closed, atOut⟩ := minify_eq_ok_iff.mp done
    rw [String.toList_ofList] at closed atOut
    constructor
    · rw [atOut, written, pieces]
      simp [writtenOf_append, Placed.written]
    · refine minify_eq_ok_iff.mpr ?_
      rw [String.toList_ofList, String.toList_ofList, sameEnd, writtenAgain]
      refine ⟨closed, ?_⟩
      simp [writtenOf_append, Placed.written]
  · intro failure failed
    obtain ⟨unclosed, atUnclosed, rfl⟩ := minify_eq_error_iff.mp failed
    rw [String.toList_ofList] at atUnclosed ⊢
    have inside : unclosed.opener <:+ behind := by
      rw [reaches.behind_eq place alike, ← List.append_assoc]
      exact (scan_opener atUnclosed).trans (List.suffix_append _ _)
    obtain ⟨isBehind, shift⟩ := Unclosed.locate_shifted inside front placed.piece.text second.text
    refine ⟨isBehind, unclosed.locate (front ++ (second.text ++ behind)), ?_, rfl, shift⟩
    refine minify_eq_error_iff.mpr ⟨unclosed, ?_, ?_⟩
    · rw [String.toList_ofList, sameEnd, atUnclosed]
    · rw [String.toList_ofList]

/-- The second template holds a string with a brace in it, and ends with what would open a markup
comment before two dashes. -/
theorem minify_literal_opaque_template :
    minify "x = /*1*/ \x60a\x60\n--y" = .ok "\nx=\x60a\x60\n--y" ∧
      minify "x = /*1*/ \x60$\x7b'\x7d'\x7d<!\x60\n--y" =
        .ok "\nx=\x60$\x7b'\x7d'\x7d<!\x60\n--y" := by
  let before : List Placed :=
    [⟨[], [], .code 'x', .word ['x'] false⟩, ⟨[.blank ' '], [], .code '=', .punct '='⟩]
  let placed : Placed := ⟨[.blank ' ', .blockComment "1*/".toList, .blank ' '], [],
    .quoted backtick "a\x60".toList, .literal⟩
  let after : List Placed :=
    [⟨[.lineBreak '\n'], ['\n'], .code '-', .punct '-'⟩, ⟨[], [], .code '-', .increment⟩,
      ⟨[], [], .code 'y', .word ['y'] false⟩]
  have done : minify "x = /*1*/ \x60a\x60\n--y" = .ok "\nx=\x60a\x60\n--y" :=
    minify_eq_ok_iff.mpr (by decide +kernel)
  have pieces : (layout ("x = /*1*/ ".toList ++ (placed.piece.text ++ "\n--y".toList))).pieces =
      before ++ placed :: after := by
    decide +kernel
  have place : dropMark "x = /*1*/ ".toList = sourceOf before ++ textOf placed.gap := by
    decide +kernel
  have whole : (Lexeme.quoted backtick "$\x7b'\x7d'\x7d<!\x60".toList).Whole := by
    refine scan_whole "\x60$\x7b'\x7d'\x7d<!\x60".toList _ ?_
    decide +kernel
  obtain ⟨_, same, _⟩ := minify_literal_opaque pieces place (.quoted _ _ _) whole
  exact ⟨done, (same _ done).2⟩

end Elision
