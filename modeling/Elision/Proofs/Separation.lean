import Elision.Proofs.Split

namespace Elision

/-- What stands between two pieces of the output. The first piece ends in `last` and leaves `token`,
the second begins with `next` and has `ahead` behind that, `written` is all of the output before, and
of the elided text only the gap that it leaves is known. -/
structure Separated (last : Retained) (token : Token) (written : List Char) (next : Char)
    (ahead : Option Char) (gap : Gap) (joint : List Char) : Prop where
  adjacent : gap = .empty → joint = []
  separator : gap ≠ .empty → Separator.between last next gap ≠ .nothing →
    joint = (Separator.between last next gap).text
  sign : gap ≠ .empty → Separator.between last next gap = .nothing →
    token.absorbsSign next = true → joint = [' ']
  point : gap ≠ .empty → Separator.between last next gap = .nothing →
    token.absorbsSign next = false → next = '.' → token.isPlainInteger = true → joint = ['.']
  markup : gap ≠ .empty → Separator.between last next gap = .nothing →
    token.absorbsSign next = false → ¬(next = '.' ∧ token.isPlainInteger = true) →
    joint =
      if ahead = some '-' ∧
          (last.char = '<' ∧ next = '!' ∨ last.char = '!' ∧ next = '-' ∧ ['<', '!'] <:+ written)
      then [' '] else []

section Separated

variable {last : Retained} {token : Token} {written joint other : List Char} {next : Char}
  {ahead behind : Option Char} {gap : Gap}

/-- The conditions leave one text only. -/
theorem Separated.unique (here : Separated last token written next ahead gap joint)
    (there : Separated last token written next ahead gap other) : joint = other := by
  by_cases adjacent : gap = .empty
  · rw [here.adjacent adjacent, there.adjacent adjacent]
  by_cases nothing : Separator.between last next gap = .nothing
  · cases sign : token.absorbsSign next with
    | true => rw [here.sign adjacent nothing sign, there.sign adjacent nothing sign]
    | false =>
      by_cases point : next = '.' ∧ token.isPlainInteger = true
      · rw [here.point adjacent nothing sign point.1 point.2,
          there.point adjacent nothing sign point.1 point.2]
      · rw [here.markup adjacent nothing sign point, there.markup adjacent nothing sign point]
  · rw [here.separator adjacent nothing, there.separator adjacent nothing]

/-- The character behind `next` counts only where `next` is part of a markup comment. -/
theorem Separated.ahead_eq (separated : Separated last token written next ahead gap joint)
    (same : next = '!' ∨ next = '-' → ahead = behind) :
    Separated last token written next behind gap joint := by
  refine ⟨separated.adjacent, separated.separator, separated.sign, separated.point, ?_⟩
  intro adjacent nothing noSign noPoint
  rw [separated.markup adjacent nothing noSign noPoint]
  by_cases mark : next = '!' ∨ next = '-'
  · rw [same mark]
  · rw [not_or] at mark
    rw [if_neg (by simp [mark]), if_neg (by simp [mark])]

theorem Separated.lineBreak_of_newline (separated : Separated last token written next ahead gap joint)
    (newline : '\n' ∈ joint) : gap = .lineBreak := by
  by_cases adjacent : gap = .empty
  · rw [separated.adjacent adjacent] at newline
    cases newline
  cases between : Separator.between last next gap with
  | newline => exact Separator.gap_of_newline between
  | space =>
    rw [separated.separator adjacent (by simp [between]), between] at newline
    simp [Separator.text] at newline
  | nothing =>
    cases sign : token.absorbsSign next with
    | true =>
      rw [separated.sign adjacent between sign] at newline
      simp at newline
    | false =>
      by_cases point : next = '.' ∧ token.isPlainInteger = true
      · rw [separated.point adjacent between sign point.1 point.2] at newline
        simp at newline
      · rw [separated.markup adjacent between sign point] at newline
        split at newline <;> simp at newline

theorem Separated.newline_of_statements
    (separated : Separated last token written next ahead .lineBreak joint)
    (ends : last.endsStatement = true) (starts : startsStatement next = true) : joint = ['\n'] := by
  have newline : Separator.between last next .lineBreak = .newline := by
    simp [Separator.between, ends, starts]
  rw [separated.separator (by decide) (by simp [newline]), newline]
  rfl

end Separated

theorem Gap.ofText_eq_lineBreak_iff {text : List Char} :
    Gap.ofText text = .lineBreak ↔ ∃ c ∈ text, isLineTerminator c = true := by
  unfold Gap.ofText
  split
  · rename_i empty
    simp [empty]
  · split
    · rename_i breaks
      simpa using breaks
    · rename_i sameLine
      simpa using sameLine

theorem Lexeme.getLast?_text {piece : Lexeme} (kept : piece.gap? = none) (whole : piece.Whole) :
    piece.text.getLast? = some piece.last.char := by
  cases piece with
  | code => rfl
  | quoted quote tail =>
    have atEnd : tail.getLast? = some quote := by
      rcases whole with ⟨rfl, level⟩ | ⟨_, _, inner⟩
      · exact level.getLast?_eq
      · exact inner.getLast?_eq
    simp [Lexeme.text, Lexeme.last, Lexeme.first, List.getLast?_cons, atEnd]
  | regex tail flags =>
    have atSlash := whole.1.getLast?_eq
    cases atFlag : flags.getLast? with
    | none => simp [Lexeme.text, Lexeme.last, List.getLast?_cons, atFlag, atSlash]
    | some flag => simp [Lexeme.text, Lexeme.last, List.getLast?_cons, atFlag]
  | _ => cases kept

theorem Lexeme.closesRegex_iff (piece : Lexeme) :
    piece.last.closesRegex = true ↔ ∃ tail, piece = .regex tail [] := by
  cases piece with
  | regex tail flags =>
    cases atFlag : flags.getLast? with
    | none => simpa [Lexeme.last, atFlag] using List.getLast?_eq_none_iff.mp atFlag
    | some flag =>
      have flagged : flags ≠ [] := by
        intro empty
        simp [empty] at atFlag
      simp [Lexeme.last, atFlag, flagged]
  | _ => simp [Lexeme.last]

theorem Writer.opensMarkupComment_iff {writer : Writer} {last next : Char} {ahead : Option Char} :
    writer.opensMarkupComment last next ahead = true ↔
      ahead = some '-' ∧
        (last = '<' ∧ next = '!' ∨
          last = '!' ∧ next = '-' ∧ ['<', '!'] <:+ writer.out.reverse) := by
  have atEnd : ['!', '<'].isPrefixOf writer.out = true ↔ ['<', '!'] <:+ writer.out.reverse := by
    rw [List.isPrefixOf_iff_prefix, ← List.reverse_suffix]
    rfl
  simp only [Writer.opensMarkupComment, Bool.and_eq_true, Bool.or_eq_true, decide_eq_true_eq, atEnd,
    and_assoc]

/-- The writer's own bookkeeping of the gap comes down to the text that was elided. -/
theorem Writer.separated {writer : Writer} {rest : List Char} {gap : List Lexeme} {last : Retained}
    (adjacent : writer.gap = .empty) (atLast : writer.last = some last) (elided : Elided rest gap)
    (next : Char) (ahead : Option Char) :
    Separated last writer.token writer.out.reverse next ahead (.ofText (textOf gap))
      ((writer.across gap).joint next ahead) := by
  have atGap : (writer.across gap).gap = .ofText (textOf gap) := by
    rw [Writer.across, elided.across_eq, adjacent, Gap.empty_widen]
  have atLast : (writer.across gap).last = some last := atLast
  rw [← atGap]
  refine ⟨?_, ?_, ?_, ?_, ?_⟩
  · intro empty
    exact (Joins.glued (by simp [Writer.isGlued, empty])).joint_eq
  · intro nonempty apart
    cases between : Separator.between last next (writer.across gap).gap with
    | nothing => exact absurd between apart
    | space => exact (Joins.spaced atLast (Separator.gap_of_space between) between).joint_eq
    | newline => exact (Joins.broken atLast (Separator.gap_of_newline between) between).joint_eq
  · intro nonempty nothing sign
    exact (Joins.sign atLast nonempty nothing sign).joint_eq
  · intro nonempty nothing noSign dot plain
    exact (Joins.point atLast nonempty nothing noSign dot plain).joint_eq
  · intro nonempty nothing noSign noPoint
    split
    · rename_i opens
      have opens := Writer.opensMarkupComment_iff.mpr opens
      exact (Joins.markup atLast nonempty nothing noSign noPoint opens).joint_eq
    · rename_i noMarkup
      have noMarkup := mt Writer.opensMarkupComment_iff.mp noMarkup
      rw [Bool.not_eq_true] at noMarkup
      exact (Joins.dropped atLast nonempty nothing noSign noPoint noMarkup).joint_eq

/-- Behind a piece the next one is joined to it by what the source has between the two. -/
theorem Laid.separated {rest : List Char} {writer : Writer} {last : Retained} {placed : Placed}
    {later : List Placed} {next : Char} {tail : List Char} (laid : Laid rest writer (placed :: later))
    (adjacent : writer.gap = .empty) (atLast : writer.last = some last)
    (atPiece : placed.piece.text = next :: tail) :
    Separated last writer.token writer.out.reverse next (tail ++ (sourceOf later ++ rest)).head?
      (.ofText (textOf placed.gap)) placed.joint := by
  obtain ⟨_, first⟩ := placed.piece.text_eq_cons
  obtain ⟨rfl, rfl⟩ := List.cons.inj (atPiece.symm.trans first)
  cases laid with
  | next elided kept legible joint _ _ =>
    have separated := Writer.separated adjacent atLast elided placed.piece.first
      (sourceOf later ++ rest).head?
    rw [← joint] at separated
    refine separated.ahead_eq ?_
    intro mark
    have atCode : placed.piece = .code placed.piece.first := by
      refine Lexeme.eq_code kept legible.whole ?_ ?_
      · rcases mark with mark | mark <;> rw [mark] <;> decide
      · rcases mark with mark | mark <;> rw [mark] <;> decide
    rw [atCode] at atPiece
    obtain ⟨_, rfl⟩ := List.cons.inj atPiece
    rfl

/-- What is written between two pieces is settled by the last character and token before it, the
first character behind it and whether the elided text is empty, on one line, or holds the end of a
line. So a line break is written only where a line ended, and a line that ends between two
statements stays ended. -/
theorem minify_separates {source out : String} (done : minify source = .ok out)
    {before after : List Placed} {left right : Placed}
    (pieces : (layout source.toList).pieces = before ++ left :: right :: after) :
    ∃ last next tail rest,
      dropMark source.toList =
        sourceOf (before ++ [left]) ++ (textOf right.gap ++ next :: (tail ++ rest)) ∧
      out.toList =
        '\n' :: writtenOf (before ++ [left]) ++ (right.joint ++ next :: (tail ++ writtenOf after)) ∧
      left.piece.text.getLast? = some last.char ∧
      (last.closesRegex = true ↔ ∃ body, left.piece = .regex body []) ∧
      right.piece.text = next :: tail ∧
      (∀ joint, Separated last left.token ('\n' :: writtenOf (before ++ [left])) next
        (tail ++ rest).head? (.ofText (textOf right.gap)) joint ↔ joint = right.joint) ∧
      ('\n' ∈ right.joint → ∃ c ∈ textOf right.gap, isLineTerminator c = true) ∧
      ((∃ c ∈ textOf right.gap, isLineTerminator c = true) → last.endsStatement = true →
        startsStatement next = true → right.joint = ['\n']) := by
  obtain ⟨covers, atOut⟩ := layout_covers done
  have laid := covers.laid
  rw [pieces] at laid
  obtain ⟨start, atLeft, beforeLeft⟩ := laid.drop rfl
  have inPlace := atLeft.inPlace beforeLeft
  obtain ⟨middle, later, adjacent, atLast, atToken, written⟩ := laid.behind
  obtain ⟨tail, atPiece⟩ := right.piece.text_eq_cons
  have separated := later.separated adjacent atLast atPiece
  rw [atToken, written] at separated
  refine ⟨left.piece.last, right.piece.first, tail,
    sourceOf after ++ textOf (layout source.toList).trail, ?_, ?_,
    Lexeme.getLast?_text inPlace.kept inPlace.whole, left.piece.closesRegex_iff, atPiece, ?_, ?_, ?_⟩
  · rw [covers.text, pieces]
    simp [sourceOf_append, Placed.source, atPiece]
  · rw [atOut, pieces]
    simp [writtenOf_append, Placed.written, atPiece]
  · intro joint
    constructor
    · intro other
      exact other.unique separated
    · rintro rfl
      exact separated
  · intro newline
    exact Gap.ofText_eq_lineBreak_iff.mp (separated.lineBreak_of_newline newline)
  · intro breaks ends starts
    rw [Gap.ofText_eq_lineBreak_iff.mpr breaks] at separated
    exact separated.newline_of_statements ends starts

/-- A line that ends inside a comment ends the statement before it. -/
theorem minify_separates_comment :
    minify "/r/ /*\u2028*/ y" = .ok "\n/r/\ny" ∧
      (layout "/r/ /*\u2028*/ y".toList).pieces =
        [] ++ ⟨[], [], .regex "r/".toList [], .regex⟩ ::
          ⟨[.blank ' ', .blockComment "\u2028*/".toList, .blank ' '], ['\n'], .code 'y',
            .word ['y'] false⟩ :: [] ∧
      ∃ last, "/r/".toList.getLast? = some last.char ∧ last.closesRegex = true ∧
        Separated last .regex "\n/r/".toList 'y' none (.ofText " /*\u2028*/ ".toList) ['\n'] := by
  have done : minify "/r/ /*\u2028*/ y" = .ok "\n/r/\ny" := minify_eq_ok_iff.mpr (by decide +kernel)
  have atPieces : (layout "/r/ /*\u2028*/ y".toList).pieces =
      [] ++ ⟨[], [], .regex "r/".toList [], .regex⟩ ::
        ⟨[.blank ' ', .blockComment "\u2028*/".toList, .blank ' '], ['\n'], .code 'y',
          .word ['y'] false⟩ :: [] := by
    decide +kernel
  obtain ⟨last, next, tail, rest, atSource, _, atLast, closes, atNext, joint, _⟩ :=
    minify_separates done atPieces
  obtain ⟨rfl, rfl⟩ := List.cons.inj atNext
  have atEnd : "/r/ /*\u2028*/ ".toList ++ ['y'] = "/r/ /*\u2028*/ ".toList ++ 'y' :: rest := atSource
  obtain ⟨_, rfl⟩ := List.cons.inj (List.append_cancel_left atEnd)
  exact ⟨done, atPieces, last, atLast, closes.mpr ⟨_, rfl⟩, (joint _).mpr rfl⟩

end Elision
