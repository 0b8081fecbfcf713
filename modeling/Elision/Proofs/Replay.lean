import Elision.Proofs.Fusion

namespace Elision

/-- No gap stands between a token and a character of code that would fuse with it. The last token
before the pieces is `token`. -/
def unfused (token : Token) : List Placed → Bool
  | [] => true
  | placed :: later =>
    (match placed.piece with
      | .code c => placed.gap = [] || !token.fuses c
      | _ => true) && unfused placed.token later

/-- A character written between two pieces, read as source again. -/
def jointLexeme (c : Char) : Lexeme :=
  if c = ' ' then .blank c else if c = '\n' then .lineBreak c else .code c

/-- A placed piece when its output is read again. Of the source before it only the joint is left.
A dot in the joint is a piece of its own. -/
def Placed.again (token : Token) (placed : Placed) : List Placed :=
  if placed.joint = ['.'] then
    [⟨[], [], .code '.', token.push '.' true⟩, { placed with gap := [], joint := [] }]
  else [{ placed with gap := placed.joint.map jointLexeme }]

/-- All pieces when their output is read again. -/
def replay (token : Token) : List Placed → List Placed
  | [] => []
  | placed :: later => placed.again token ++ replay placed.token later

/-- The lexemes that a placed piece leaves in the output. -/
def Placed.echo (placed : Placed) : List Lexeme :=
  placed.joint.map jointLexeme ++ [placed.piece]

/-- A piece of code cannot begin with a dash unless it is one, and no gap does. -/
theorem Elided.head_ne_dash {rest : List Char} {lexemes : List Lexeme} (elided : Elided rest lexemes)
    (nonempty : lexemes ≠ []) : (textOf lexemes).head? ≠ some '-' := by
  cases lexemes with
  | nil => exact absurd rfl nonempty
  | cons lexeme later =>
    obtain ⟨isGap, whole, _⟩ := elided
    cases lexeme with
    | blank c =>
      intro dash
      obtain rfl : c = '-' := by simpa [Lexeme.text] using dash
      cases (show classify '-' = .whitespace from whole)
    | lineBreak c =>
      intro dash
      obtain rfl : c = '-' := by simpa [Lexeme.text] using dash
      cases (show isLineTerminator '-' = true from whole)
    | lineComment | blockComment => simp [Lexeme.text]
    | code | quoted | regex => exact absurd rfl isGap

/-- A piece that had to stay apart from a character neither goes on with it nor opens a comment with
it. -/
theorem Lexeme.endsBefore_of_close {piece : Lexeme} {c : Char} (kept : piece.gap? = none)
    (whole : piece.Whole) (close : piece.last.mustStayApart c = false) :
    piece.EndsBefore (some c) := by
  cases piece with
  | code d =>
    rintro rfl
    constructor
    · intro slash
      cases slash
      cases close
    · intro star
      cases star
      cases close
  | quoted => trivial
  | regex tail flags =>
    intro d member
    cases member
    by_cases letter : c.isAlpha = true
    · have before : (Lexeme.regex tail flags).last.closesRegex = true ∨
          isLetterLike (Lexeme.regex tail flags).last.char = true := by
        cases atFlag : flags.getLast? with
        | none => exact .inl (by simp [Lexeme.last, atFlag])
        | some flag =>
          have alpha := whole.2.2.2 flag (List.mem_of_getLast? atFlag)
          exact .inr (by simp [Lexeme.last, atFlag, isLetterLike_of_isAlpha alpha])
      rw [Retained.mustStayApart_letters before (isLetterLike_of_isAlpha letter)] at close
      cases close
    · simpa using letter
  | blank | lineBreak | lineComment | blockComment => cases kept

theorem Lexeme.endsBefore_mark {piece : Lexeme} {c : Char} (kept : piece.gap? = none)
    (mark : c ≠ '/' ∧ c ≠ '*' ∧ c.isAlpha = false) : piece.EndsBefore (some c) := by
  cases piece with
  | code d =>
    intro _
    exact ⟨by simpa using mark.1, by simpa using mark.2.1⟩
  | regex tail flags =>
    intro d member
    cases member
    exact mark.2.2
  | quoted => trivial
  | _ => cases kept

/-- What stands right behind a piece in the output ends the piece as the source did. -/
theorem Laid.endsBefore_written {rest : List Char} {writer : Writer} {piece : Lexeme}
    {later : List Placed} (laid : Laid rest writer later) (adjacent : writer.gap = .empty)
    (atLast : writer.last = some piece.last) (kept : piece.gap? = none) (whole : piece.Whole)
    (ends : piece.EndsBefore (sourceOf later ++ rest).head?) :
    piece.EndsBefore (writtenOf later).head? := by
  cases laid with
  | done =>
    cases piece with
    | code | regex | quoted => simp [Lexeme.EndsBefore]
    | _ => cases kept
  | @next _ placed later elided _ _ joint _ _ =>
    have joins := Writer.joins joint
    obtain ⟨tail, atPiece⟩ := placed.piece.text_eq_cons
    rcases joins.text_cases with same | same | same | ⟨same, _⟩
    · have atHead : (writtenOf (placed :: later)).head? = some placed.piece.first := by
        simp [Placed.written, same, atPiece]
      rw [atHead]
      rw [same] at joins
      cases joins with
      | glued glued =>
        have noGap := (Writer.across_isGlued adjacent atLast elided).mp glued
        simpa [Placed.source, noGap, atPiece] using ends
      | dropped before gap nothing =>
        cases before.symm.trans atLast
        exact Lexeme.endsBefore_of_close kept whole (Separator.mustStayApart_of_nothing gap nothing)
    · rw [show (writtenOf (placed :: later)).head? = some ' ' by simp [Placed.written, same]]
      exact Lexeme.endsBefore_mark kept (by decide)
    · rw [show (writtenOf (placed :: later)).head? = some '\n' by simp [Placed.written, same]]
      exact Lexeme.endsBefore_mark kept (by decide)
    · rw [show (writtenOf (placed :: later)).head? = some '.' by simp [Placed.written, same]]
      exact Lexeme.endsBefore_mark kept (by decide)

/-- A dash right behind a piece in the source stands right behind it in the output. -/
theorem Laid.dash_written {rest : List Char} {writer : Writer} {later : List Placed}
    (laid : Laid rest writer later) (adjacent : writer.gap = .empty)
    (noDash : rest.head? ≠ some '-') (dash : (sourceOf later ++ rest).head? = some '-') :
    (writtenOf later).head? = some '-' := by
  cases laid with
  | done => exact absurd dash noDash
  | @next _ placed later elided _ _ joint _ _ =>
    obtain ⟨tail, atPiece⟩ := placed.piece.text_eq_cons
    by_cases noGap : placed.gap = []
    · have glued : (writer.across placed.gap).isGlued = true := by
        simp [noGap, Writer.isGlued, adjacent]
      have noJoint := joint.trans (Joins.glued glued).joint_eq
      simpa [Placed.source, Placed.written, noGap, noJoint, atPiece] using dash
    · have nonempty : textOf placed.gap ≠ [] := mt textOf_eq_nil_iff.mp noGap
      obtain ⟨c, cs, atText⟩ := List.exists_cons_of_ne_nil nonempty
      have atDash := elided.head_ne_dash noGap
      simp [Placed.source, atText] at dash atDash
      exact absurd dash atDash

theorem Writer.across_joint {writer : Writer} (adjacent : writer.gap = .empty) :
    (writer.across [jointLexeme ' ']).gap = .blank ∧
      (writer.across [jointLexeme '\n']).gap = .lineBreak := by
  rw [Writer.across, Writer.across, adjacent]
  exact ⟨rfl, rfl⟩

theorem Separator.between_blank_of_nothing {last : Retained} {next : Char} {gap : Gap}
    (elided : gap ≠ .empty) (nothing : Separator.between last next gap = .nothing) :
    Separator.between last next .blank = .nothing := by
  simp [Separator.between, Separator.mustStayApart_of_nothing elided nothing]

theorem Joins.elided_again {writer : Writer} {next : Char} {ahead : Option Char} {joint : List Char}
    (joins : Joins writer next ahead joint) (noDot : joint ≠ ['.']) (rest : List Char) :
    Elided rest (joint.map jointLexeme) := by
  rcases joins.text_cases with rfl | rfl | rfl | ⟨dotted, _⟩
  · trivial
  · exact ⟨by decide, rfl, trivial, trivial⟩
  · exact ⟨by decide, rfl, trivial, trivial⟩
  · exact absurd dotted noDot

/-- What was written in place of a gap is written again when it is read itself. -/
theorem Joins.again {writer : Writer} {gap : List Lexeme} {next : Char} {ahead behind : Option Char}
    {joint : List Char} (joins : Joins (writer.across gap) next ahead joint)
    (adjacent : writer.gap = .empty) (noDot : joint ≠ ['.'])
    (dash : ahead = some '-' → behind = some '-') :
    Joins (writer.across (joint.map jointLexeme)) next behind joint := by
  obtain ⟨atBlank, atBreak⟩ := Writer.across_joint adjacent
  cases joins with
  | glued => exact .glued (by simp [Writer.isGlued, adjacent])
  | dropped => exact .glued (by simp [Writer.isGlued, adjacent])
  | spaced atLast atGap between =>
    rw [atGap] at between
    exact .spaced atLast atBlank (by rw [List.map_singleton, atBlank]; exact between)
  | broken atLast atGap between =>
    rw [atGap] at between
    exact .broken atLast atBreak (by rw [List.map_singleton, atBreak]; exact between)
  | sign atLast elided between sign =>
    refine .sign atLast (by simp [atBlank]) ?_ sign
    rw [List.map_singleton, atBlank]
    exact Separator.between_blank_of_nothing elided between
  | point => exact absurd rfl noDot
  | markup atLast elided between noSign noPoint markup =>
    refine .markup atLast (by simp [atBlank]) ?_ noSign noPoint ?_
    · rw [List.map_singleton, atBlank]
      exact Separator.between_blank_of_nothing elided between
    · unfold Writer.opensMarkupComment at markup ⊢
      rw [Bool.and_eq_true, decide_eq_true_eq] at markup ⊢
      exact ⟨dash markup.1, markup.2⟩

/-- The last token behind a piece is the same when the output is read, unless it has fused. -/
theorem Joins.track_again {writer : Writer} {gap : List Lexeme} {piece : Lexeme}
    {ahead : Option Char} {joint : List Char}
    (joins : Joins (writer.across gap) piece.first ahead joint) (adjacent : writer.gap = .empty)
    (fits : writer.token.Fits writer.last) (noDot : joint ≠ ['.'])
    (apart : ∀ c, piece = .code c → gap ≠ [] → writer.token.fuses c = false) :
    piece.track writer.token (writer.across (joint.map jointLexeme)).isGlued =
      piece.track writer.token (writer.across gap).isGlued := by
  obtain ⟨atBlank, atBreak⟩ := Writer.across_joint adjacent
  have glues : (writer.across []).isGlued = true := by simp [Writer.isGlued, adjacent]
  have parts {lexemes : List Lexeme} {last : Retained} (atLast : writer.last = some last)
      (elided : (writer.across lexemes).gap ≠ .empty) :
      (writer.across lexemes).isGlued = false := by
    simpa [Writer.isGlued, Writer.across, atLast] using elided
  cases joins with
  | glued glued => rw [List.map_nil, glues, glued]
  | spaced atLast atGap =>
    rw [List.map_singleton, parts atLast (by simp [atBlank]), parts atLast (by simp [atGap])]
  | broken atLast atGap =>
    rw [List.map_singleton, parts atLast (by simp [atBreak]), parts atLast (by simp [atGap])]
  | sign atLast elided =>
    rw [List.map_singleton, parts atLast (by simp [atBlank]), parts atLast elided]
  | point => exact absurd rfl noDot
  | markup atLast elided =>
    rw [List.map_singleton, parts atLast (by simp [atBlank]), parts atLast elided]
  | dropped atLast elided between noSign noPoint _ =>
    rw [List.map_nil, glues, parts atLast elided]
    cases piece with
    | code c =>
      have nonempty : gap ≠ [] := by
        rintro rfl
        exact elided adjacent
      have atLast : writer.last = _ := atLast
      rw [atLast] at fits
      exact Token.push_glued fits (Separator.mustStayApart_of_nothing elided between) noSign noPoint
        (apart c rfl nonempty)
    | _ => rfl

/-- The decimal point that is written behind an integer and the dot behind it are read as the number
and a dot of its own. -/
theorem Token.push_point {token : Token} (plain : token.isPlainInteger = true) :
    (token.push '.' true).push '.' true = token.push '.' false := by
  cases token with
  | number text =>
    have goesOn : numberGoesOn text '.' = true := plain
    have stops : numberGoesOn (text ++ ['.']) '.' = false := by
      simp [numberGoesOn, Elision.isPlainInteger, show Char.isDigit '.' = false from rfl]
    simp [Token.push, Token.extend?, goesOn, stops, Token.follow]
  | _ => cases plain

theorem Writer.keep_eq {writer : Writer} {piece : Lexeme} {gap again : List Lexeme}
    {ahead behind : Option Char}
    (joint : (writer.across again).joint piece.first behind =
      (writer.across gap).joint piece.first ahead)
    (token : piece.track writer.token (writer.across again).isGlued =
      piece.track writer.token (writer.across gap).isGlued) :
    (writer.across again).keep piece behind = (writer.across gap).keep piece ahead := by
  simp only [Writer.keep, Writer.across_token]
  rw [joint, token]
  rfl

/-- Read as source, the pieces of the output are the text that was written. -/
theorem Laid.sourceOf_replay {rest : List Char} {writer : Writer} {before after : List Placed}
    (laid : Laid rest writer (before ++ after)) (token : Token) :
    sourceOf (replay token before) = writtenOf before := by
  induction before generalizing writer token with
  | nil => rfl
  | cons placed later ih =>
    rw [List.cons_append] at laid
    cases laid with
    | next _ _ _ joint _ laid =>
      have joins := Writer.joins joint
      rw [replay, sourceOf_append, ih laid, writtenOf_cons]
      congr 1
      rcases joins.text_cases with same | same | same | ⟨same, dot⟩ <;>
        simp [Placed.again, Placed.source, Placed.written, same, jointLexeme, Lexeme.text]

/-- A decimal point that was written reads as a piece of its own and leaves the same writer. -/
theorem Laid.pointed {rest : List Char} {writer : Writer} {gap : List Lexeme} {ahead : Option Char}
    {token : Token} {later : List Placed} (adjacent : writer.gap = .empty)
    (joint : (writer.across gap).joint '.' ahead = ['.'])
    (atToken : token = ((writer.across gap).keep (.code '.') ahead).token)
    (parted : (writer.across gap).isGlued = false) (plain : writer.token.isPlainInteger = true)
    (laid : Laid rest ((writer.across gap).keep (.code '.') ahead) later) :
    Laid rest writer
      (⟨[], [], .code '.', writer.token.push '.' true⟩ :: ⟨[], [], .code '.', token⟩ :: later) := by
  have read : ((writer.across gap).keep (.code '.') ahead).token =
      (writer.token.push '.' true).push '.' true := by
    rw [Token.push_point plain]
    simp [Writer.keep, Lexeme.track, parted]
  have final : (writer.across gap).keep (.code '.') ahead =
      ⟨'.' :: '.' :: writer.out, some ⟨'.', false⟩, .empty,
        (writer.token.push '.' true).push '.' true⟩ := by
    rw [← read]
    simp only [Writer.keep, Lexeme.first, joint]
    rfl
  have isCode : IsCode '.' := ⟨by decide, by decide, by decide⟩
  rw [final] at laid
  rw [atToken.trans read]
  refine Laid.code adjacent isCode (by decide) ?_
  exact Laid.code rfl isCode (by decide) laid

/-- Reading the output goes through the same writers as reading the source: at each piece the text
written, the last character and the last token agree. What is written behind these pieces has no
influence on that. -/
theorem Laid.replayed {rest : List Char} {writer : Writer} {before after : List Placed}
    (laid : Laid rest writer (before ++ after)) (noDash : rest.head? ≠ some '-')
    (adjacent : writer.gap = .empty) (fits : writer.token.Fits writer.last)
    (apart : unfused writer.token before = true) :
    Laid (writtenOf after) writer (replay writer.token before) := by
  induction before generalizing writer with
  | nil => exact .done
  | cons placed later ih =>
    rw [List.cons_append] at laid
    cases laid with
    | next elided kept legible joint token laid =>
      rw [unfused, Bool.and_eq_true] at apart
      obtain ⟨apartHere, apartLater⟩ := apart
      rw [token] at apartLater
      have again := ih laid rfl (Writer.keep_fits kept legible.whole _ _) apartLater
      rw [← token] at again
      have atRest : sourceOf (replay placed.token later) ++ writtenOf after =
          writtenOf (later ++ after) := by
        rw [laid.sourceOf_replay, writtenOf_append]
      have ends := laid.endsBefore_written rfl rfl kept legible.whole legible.endsBefore
      have joins := Writer.joins joint
      -- A written dot is the one joint that is read as code, so it makes a piece of its own.
      by_cases dotted : placed.joint = ['.']
      · rw [dotted] at joins
        cases joins with
        | point atLast gapped between noSign dot plain =>
          have atPiece := Lexeme.eq_dot kept legible.whole dot
          have parted : (writer.across placed.gap).isGlued = false := by
            simpa [Writer.isGlued, atLast] using gapped
          rw [replay, Placed.again, if_pos dotted, List.cons_append, List.singleton_append]
          rw [atPiece] at joint token again ⊢
          rw [dotted] at joint
          exact Laid.pointed adjacent joint.symm token parted plain again
      · have dash : (sourceOf (later ++ after) ++ rest).head? = some '-' →
            (sourceOf (replay placed.token later) ++ writtenOf after).head? = some '-' := by
          rw [atRest]
          exact laid.dash_written rfl noDash
        have apartHere (c : Char) (atPiece : placed.piece = .code c) (gapped : placed.gap ≠ []) :
            writer.token.fuses c = false := by
          simpa [atPiece, gapped] using apartHere
        have sameJoint := (joins.again adjacent dotted dash).joint_eq
        have sameToken := joins.track_again adjacent fits dotted apartHere
        rw [replay, Placed.again, if_neg dotted, List.singleton_append]
        refine .next ?_ kept ⟨legible.whole, ?_, legible.agrees⟩ sameJoint.symm ?_ ?_
        · exact joins.elided_again dotted _
        · rw [atRest]; exact ends
        · exact token.trans sameToken.symm
        · rw [Writer.keep_eq (sameJoint.trans joint) sameToken]
          exact again

theorem writtenOf_replay (token : Token) (pieces : List Placed) :
    writtenOf (replay token pieces) = writtenOf pieces := by
  induction pieces generalizing token with
  | nil => rfl
  | cons placed later ih =>
    rw [replay, writtenOf_append, ih, writtenOf_cons]
    congr 1
    unfold Placed.again
    split
    · rename_i dotted
      simp [Placed.written, Lexeme.text, dotted]
    · simp [Placed.written]

theorem lexemes_replay (token : Token) (pieces : List Placed) :
    Layout.lexemes ⟨replay token pieces, []⟩ = pieces.flatMap Placed.echo := by
  induction pieces generalizing token with
  | nil => rfl
  | cons placed later ih =>
    have atLater := ih placed.token
    simp only [Layout.lexemes, List.append_nil] at atLater ⊢
    rw [replay, List.flatMap_append, atLater, List.flatMap_cons]
    congr 1
    unfold Placed.again Placed.echo
    split
    · rename_i dotted
      simp [dotted, jointLexeme]
    · simp

/-- Before the first piece a gap has no effect. -/
theorem Writer.keep_first {writer : Writer} (first : writer.last = none) (gap : List Lexeme)
    (piece : Lexeme) (ahead : Option Char) :
    (writer.across gap).keep piece ahead = writer.keep piece ahead := by
  simp [Writer.keep, Writer.joint, Writer.isGlued, Writer.across, first]

theorem Laid.across_first {rest : List Char} {writer : Writer} {pieces : List Placed}
    (laid : Laid rest writer pieces) (first : writer.last = none) (gap : List Lexeme) :
    Laid rest (writer.across gap) pieces := by
  cases laid with
  | done => exact .done
  | @next _ placed later elided kept legible joint token laid =>
    have noJoint (lexemes : List Lexeme) (ahead : Option Char) :
        (writer.across lexemes).joint placed.piece.first ahead = [] := by
      simp [Writer.joint, Writer.across, first]
    have first' : (writer.across gap).last = none := first
    rw [Writer.keep_first first] at token laid
    refine .next elided kept legible ?_ ?_ ?_
    · rw [joint, noJoint]
      simp [Writer.joint, Writer.across, first]
    · rw [Writer.keep_first first', Writer.keep_first first]
      exact token
    · rw [Writer.keep_first first', Writer.keep_first first]
      exact laid

/-- A line break may stand in front of everything. -/
theorem Laid.lineBroken {rest : List Char} {writer : Writer} {pieces : List Placed}
    (laid : Laid rest writer pieces) (first : writer.last = none) :
    Laid (textOf (Layout.elide (.lineBreak '\n') ⟨pieces, []⟩).trail ++ rest) writer
        (Layout.elide (.lineBreak '\n') ⟨pieces, []⟩).pieces ∧
      Elided rest (Layout.elide (.lineBreak '\n') ⟨pieces, []⟩).trail := by
  have isGap : (Lexeme.lineBreak '\n').gap? ≠ none := by decide
  exact Laid.elide ⟨pieces, []⟩ isGap rfl trivial (laid.across_first first _) trivial

theorem Elided.noDash {rest : List Char} {lexemes : List Lexeme} (elided : Elided rest lexemes) :
    (textOf lexemes).head? ≠ some '-' := by
  by_cases empty : lexemes = []
  · simp [empty]
  · exact elided.head_ne_dash empty

/-- What a run writes is laid out as its pieces were, behind the line break at the front. -/
theorem Layout.Covers.replayed {plan : Layout} {source : List Char} (covers : plan.Covers source)
    (apart : unfused .start plan.pieces = true) :
    (Layout.elide (.lineBreak '\n') ⟨replay .start plan.pieces, []⟩).Covers
      ('\n' :: writtenOf plan.pieces) := by
  have laid := covers.laid
  rw [← List.append_nil plan.pieces] at laid
  have again := laid.replayed covers.trail.noDash rfl rfl apart
  obtain ⟨laidFront, trail⟩ := again.lineBroken rfl
  refine ⟨?_, ?_, trail⟩
  · rw [← Layout.textOf_lexemes, Layout.elide_lexemes, textOf_cons, Layout.textOf_lexemes]
    rw [laid.sourceOf_replay]
    simp [Lexeme.text, dropMark, byteOrderMark]
  · rw [writtenOf_nil, List.append_nil] at laidFront
    exact laidFront

theorem Lexeme.comment_ne_echo {rest : List Char} {writer : Writer} {pieces : List Placed}
    (laid : Laid rest writer pieces) (tail : List Char) :
    Lexeme.lineComment tail ∉ pieces.flatMap Placed.echo ∧
      Lexeme.blockComment tail ∉ pieces.flatMap Placed.echo := by
  induction laid with
  | done => simp
  | @next writer placed later _ kept _ _ _ _ ih =>
    have noJoint (c : Char) : jointLexeme c ≠ .lineComment tail ∧ jointLexeme c ≠ .blockComment tail := by
      unfold jointLexeme
      split
      · simp
      · split <;> simp
    have noPiece : placed.piece ≠ .lineComment tail ∧ placed.piece ≠ .blockComment tail := by
      constructor <;> (intro same; rw [same] at kept; cases kept)
    simp only [List.flatMap_cons, List.mem_append, Placed.echo, List.mem_map, List.mem_singleton]
    refine ⟨?_, ?_⟩
    · rintro ((⟨c, _, same⟩ | same) | later)
      · exact (noJoint c).1 same
      · exact noPiece.1 same.symm
      · exact ih.1 later
    · rintro ((⟨c, _, same⟩ | same) | later)
      · exact (noJoint c).2 same
      · exact noPiece.2 same.symm
      · exact ih.2 later

/-- Where no token fuses, the output is read as it was written: behind the line break at the front
stand the same pieces, elided is what was written between them, and each piece leaves the same last
token. The only piece that is new is the dot written behind an integer. -/
theorem minify_replays {source out : String} (done : minify source = .ok out)
    (apart : unfused .start (layout source.toList).pieces = true) :
    minify out = .ok out ∧
      (scan [] out.toList).lexemes =
        .lineBreak '\n' :: (layout source.toList).pieces.flatMap Placed.echo ∧
      (∀ tail, .lineComment tail ∉ (scan [] out.toList).lexemes ∧
        .blockComment tail ∉ (scan [] out.toList).lexemes) ∧
      layout out.toList =
        Layout.elide (.lineBreak '\n') ⟨replay .start (layout source.toList).pieces, []⟩ := by
  obtain ⟨covers, atOut⟩ := layout_covers done
  have again := covers.replayed apart
  rw [← atOut] at again
  have sameLayout := again.layout_eq.1
  have lexemes : (scan [] out.toList).lexemes =
      .lineBreak '\n' :: (layout source.toList).pieces.flatMap Placed.echo := by
    rw [← lexemes_replay .start, ← Layout.elide_lexemes, ← sameLayout]
    exact (Writer.layOut_lexemes ..).symm
  refine ⟨?_, lexemes, ?_, sameLayout⟩
  · rw [again.minify_eq, Layout.elide_written, writtenOf_replay, ← atOut, String.ofList_toList]
  · intro tail
    rw [lexemes]
    have none := Lexeme.comment_ne_echo covers.laid tail
    simpa using none

/-- A sign that must not fuse, a markup comment that must not open, a dot behind an integer and a
regular expression behind a division. -/
theorem minify_replays_joints :
    minify "a < !--b + +1 .c / /x y/" = .ok "\na< !--b+ +1..c/ /x y/" ∧
      unfused .start (layout "a < !--b + +1 .c / /x y/".toList).pieces = true ∧
      minify "\na< !--b+ +1..c/ /x y/" = .ok "\na< !--b+ +1..c/ /x y/" ∧
      layout "\na< !--b+ +1..c/ /x y/".toList =
        Layout.elide (.lineBreak '\n')
          ⟨replay .start (layout "a < !--b + +1 .c / /x y/".toList).pieces, []⟩ := by
  have done : minify "a < !--b + +1 .c / /x y/" = .ok "\na< !--b+ +1..c/ /x y/" :=
    minify_eq_ok_iff.mpr (by decide +kernel)
  have apart : unfused .start (layout "a < !--b + +1 .c / /x y/".toList).pieces = true := by
    decide +kernel
  obtain ⟨fixed, _, _, same⟩ := minify_replays done apart
  exact ⟨done, apart, fixed, same⟩

end Elision
