import Elision.Proofs.Replay
import Elision.Proofs.Separation

namespace Elision

/-- Two characters may stand side by side although text was elided between them: none of the rules
that keep them apart applies. -/
structure Writer.Touches (writer : Writer) (last : Retained) (next : Char) (ahead : Option Char) :
    Prop where
  close : last.mustStayApart next = false
  noSign : writer.token.absorbsSign next = false
  noPoint : ¬(next = '.' ∧ writer.token.isPlainInteger = true)
  noMarkup : writer.opensMarkupComment last.char next ahead = false

variable {rest : List Char} {writer : Writer} {last : Retained} {placed left right : Placed}
  {before after later : List Placed} {c : Char}

/-- What stands side by side in the output stood so in the source, or may do so. -/
theorem Laid.touches (laid : Laid rest writer (placed :: later)) (adjacent : writer.gap = .empty)
    (atLast : writer.last = some last) (noJoint : placed.joint = []) :
    placed.gap = [] ∨ writer.Touches last placed.piece.first (sourceOf later ++ rest).head? := by
  cases laid with
  | next elided _ _ joint _ _ =>
    have joins := Writer.joins joint
    rw [noJoint] at joins
    cases joins with
    | glued glued => exact .inl ((Writer.across_isGlued adjacent atLast elided).mp glued)
    | dropped before gap nothing noSign noPoint noMarkup =>
      cases before.symm.trans atLast
      exact .inr ⟨Separator.mustStayApart_of_nothing gap nothing, noSign, noPoint, noMarkup⟩

theorem Laid.gap_eq_nil (laid : Laid rest writer (placed :: later)) (adjacent : writer.gap = .empty)
    (atLast : writer.last = some last) (noJoint : placed.joint = [])
    (apart : last.mustStayApart placed.piece.first = true) : placed.gap = [] := by
  rcases laid.touches adjacent atLast noJoint with noGap | touches
  · exact noGap
  · have close := touches.close
    rw [apart] at close
    cases close

theorem Laid.gap_eq_nil_of_markup (laid : Laid rest writer (placed :: later))
    (adjacent : writer.gap = .empty) (atLast : writer.last = some last) (noJoint : placed.joint = [])
    (opens : writer.opensMarkupComment last.char placed.piece.first
      (sourceOf later ++ rest).head? = true) : placed.gap = [] := by
  rcases laid.touches adjacent atLast noJoint with noGap | touches
  · exact noGap
  · have noMarkup := touches.noMarkup
    rw [opens] at noMarkup
    cases noMarkup

/-- Behind a slash that closes a regular expression every letter would be read as a flag, and every
slash or star as part of a comment. -/
theorem Retained.mustStayApart_regex
    (opens : c ∈ ['/', '*', '#', '@'] ∨ isLetterLike c = true) :
    (Retained.mk '/' true).mustStayApart c = true := by
  rcases opens with mark | letter
  · simp only [List.mem_cons, List.not_mem_nil, or_false] at mark
    rcases mark with rfl | rfl | rfl | rfl <;> rfl
  · exact Retained.mustStayApart_letters (.inl rfl) letter

theorem Placed.InPlace.mem_joint (inPlace : placed.InPlace rest) (member : c ∈ placed.joint) :
    c ∈ [' ', '\n', '.'] := by
  have joint := inPlace.joint
  simp only [List.mem_cons, List.not_mem_nil, or_false] at joint
  rcases joint with same | same | same | same
  · simp [same] at member
  all_goals
    rw [same, List.mem_singleton] at member
    simp [member]

/-- What is written right behind a character that it must stay apart from stood there in the source. -/
theorem Laid.head?_source (laid : Laid rest writer later) (adjacent : writer.gap = .empty)
    (atLast : writer.last = some last) (apart : last.mustStayApart c = true)
    (visible : c ∉ [' ', '\n', '.']) (atHead : (writtenOf later).head? = some c) :
    (sourceOf later ++ rest).head? = some c := by
  cases later with
  | nil => simp at atHead
  | cons placed later =>
    obtain ⟨tail, atPiece⟩ := placed.piece.text_eq_cons
    have noJoint : placed.joint = [] := by
      cases same : placed.joint with
      | nil => rfl
      | cons d joint =>
        have first : d = c := by simpa [Placed.written, same] using atHead
        exact absurd ((laid.inPlace adjacent).mem_joint (by simp [same, first])) visible
    have atFirst : placed.piece.first = c := by
      simpa [Placed.written, noJoint, atPiece] using atHead
    have noGap := laid.gap_eq_nil adjacent atLast noJoint (by rw [atFirst]; exact apart)
    simp [Placed.source, noGap, atPiece, atFirst]

/-- What opens an operator or a comment in the output did so in the source. -/
structure Layout.OpensNothing (plan : Layout) : Prop where
  /-- Two equal signs stand side by side only if they did before. -/
  signs : ∀ before left right after sign, plan.pieces = before ++ left :: right :: after →
    sign ∈ ['+', '-'] → left.piece = .code sign → right.piece = .code sign →
    right.written = [sign] → right.source = [sign]
  /-- A slash that divides never opens a comment. -/
  division : ∀ before left after, plan.pieces = before ++ left :: after → left.piece = .code '/' →
    (writtenOf after).head? ≠ some '/' ∧ (writtenOf after).head? ≠ some '*'
  /-- Nor does the slash that closes a regular expression, and it takes no new flag. -/
  regex : ∀ before left after body c, plan.pieces = before ++ left :: after →
    left.piece = .regex body [] → c ∈ ['/', '*', '#', '@'] ∨ isLetterLike c = true →
    (writtenOf after).head? = some c → (sourceOf after ++ textOf plan.trail).head? = some c
  /-- A markup comment is opened only if it was before. -/
  markup : ∀ before first second third fourth after,
    plan.pieces = before ++ first :: second :: third :: fourth :: after →
    first.piece = .code '<' → second.piece = .code '!' → third.piece = .code '-' →
    fourth.piece = .code '-' → writtenOf [second, third, fourth] = ['!', '-', '-'] →
    sourceOf [second, third, fourth] = ['!', '-', '-']

theorem Placed.source_eq (code : placed.piece = .code c) (noGap : placed.gap = []) :
    placed.source = [c] := by
  simp [Placed.source, noGap, code, Lexeme.text]

theorem Placed.joint_eq_nil (code : placed.piece = .code c) (written : placed.written = [c]) :
    placed.joint = [] := by
  simpa [Placed.written, code, Lexeme.text] using written

theorem joints_eq_nil {second third fourth : Placed} {a b c : Char}
    (atSecond : second.piece = .code a) (atThird : third.piece = .code b)
    (atFourth : fourth.piece = .code c) (written : writtenOf [second, third, fourth] = [a, b, c]) :
    second.joint = [] ∧ third.joint = [] ∧ fourth.joint = [] := by
  have length := congrArg List.length written
  simp only [writtenOf_cons, writtenOf_nil, Placed.written, atSecond, atThird, atFourth, Lexeme.text,
    List.length_append, List.length_cons, List.length_nil] at length
  refine ⟨?_, ?_, ?_⟩ <;> exact List.eq_nil_of_length_eq_zero (by omega)

theorem Laid.signs (laid : Laid rest writer (before ++ left :: right :: after))
    (isSign : c ∈ ['+', '-']) (atLeft : left.piece = .code c) (atRight : right.piece = .code c)
    (noJoint : right.joint = []) : right.gap = [] := by
  obtain ⟨middle, later, adjacent, atLast, _, _⟩ := laid.behind
  refine later.gap_eq_nil adjacent atLast noJoint ?_
  simp only [List.mem_cons, List.not_mem_nil, or_false] at isSign
  rw [atLeft, atRight]
  rcases isSign with rfl | rfl <;> rfl

/-- The gaps inside `<!--` are found empty from the right to the left: two dashes stay apart, and
before each other character the writer sees that a dash follows it. -/
theorem Laid.markup {first second third fourth : Placed}
    (laid : Laid rest writer (before ++ first :: second :: third :: fourth :: after))
    (atFirst : first.piece = .code '<') (atSecond : second.piece = .code '!')
    (atThird : third.piece = .code '-') (atFourth : fourth.piece = .code '-')
    (joints : second.joint = [] ∧ third.joint = [] ∧ fourth.joint = []) :
    second.gap = [] ∧ third.gap = [] ∧ fourth.gap = [] := by
  obtain ⟨noSecond, noThird, noFourth⟩ := joints
  have laidFourth : Laid rest writer ((before ++ [first, second]) ++ third :: fourth :: after) := by
    simpa using laid
  have laidThird : Laid rest writer ((before ++ [first]) ++ second :: third :: fourth :: after) := by
    simpa using laid
  have fourthGap := laidFourth.signs (by simp) atThird atFourth noFourth
  have thirdGap : third.gap = [] := by
    obtain ⟨middle, later, adjacent, atLast, _, written⟩ := laidThird.behind
    refine later.gap_eq_nil_of_markup adjacent atLast noThird ?_
    rw [Writer.opensMarkupComment_iff, written, atSecond, atThird]
    refine ⟨?_, .inr ⟨rfl, rfl, ?_⟩⟩
    · simp [Placed.source, fourthGap, atFourth, Lexeme.text]
    · refine ⟨writer.out.reverse ++ writtenOf before ++ first.joint, ?_⟩
      simp [writtenOf_append, Placed.written, atFirst, atSecond, noSecond, Lexeme.text]
  refine ⟨?_, thirdGap, fourthGap⟩
  obtain ⟨middle, later, adjacent, atLast, _, _⟩ := laid.behind
  refine later.gap_eq_nil_of_markup adjacent atLast noSecond ?_
  rw [Writer.opensMarkupComment_iff, atFirst, atSecond]
  refine ⟨?_, .inl ⟨rfl, rfl⟩⟩
  simp [Placed.source, thirdGap, atThird, Lexeme.text]

theorem Laid.division (laid : Laid rest writer (before ++ left :: after))
    (adjacent : writer.gap = .empty) (atLeft : left.piece = .code '/') :
    (writtenOf after).head? ≠ some '/' ∧ (writtenOf after).head? ≠ some '*' := by
  obtain ⟨start, fromLeft, beforeLeft⟩ := laid.drop adjacent
  have inPlace := fromLeft.inPlace beforeLeft
  obtain ⟨middle, later, behindLeft, atLast, _, _⟩ := laid.behind
  have ends := later.endsBefore_written behindLeft atLast inPlace.kept inPlace.whole inPlace.endsBefore
  rw [atLeft] at ends
  exact ends rfl

/-- The pieces make up the source with their gaps and the output with their joints, and no operator
and no comment is made by taking away what stood inside it. -/
theorem minify_opensNothing {source out : String} (done : minify source = .ok out) :
    dropMark source.toList =
        sourceOf (layout source.toList).pieces ++ textOf (layout source.toList).trail ∧
      out.toList = '\n' :: writtenOf (layout source.toList).pieces ∧
      (layout source.toList).OpensNothing := by
  obtain ⟨covers, atOut⟩ := layout_covers done
  refine ⟨covers.text, atOut, ?_, ?_, ?_, ?_⟩
  · intro before left right after sign pieces isSign atLeft atRight written
    have laid := covers.laid
    rw [pieces] at laid
    exact Placed.source_eq atRight
      (laid.signs isSign atLeft atRight (Placed.joint_eq_nil atRight written))
  · intro before left after pieces atLeft
    have laid := covers.laid
    rw [pieces] at laid
    exact laid.division rfl atLeft
  · intro before left after body c pieces atLeft opens atHead
    have laid := covers.laid
    rw [pieces] at laid
    obtain ⟨middle, later, adjacent, atLast, _, _⟩ := laid.behind
    rw [atLeft] at atLast
    refine later.head?_source adjacent atLast (Retained.mustStayApart_regex opens) ?_ atHead
    intro mark
    simp only [List.mem_cons, List.not_mem_nil, or_false] at mark
    rcases mark with rfl | rfl | rfl <;> revert opens <;> decide
  · intro before first second third fourth after pieces atFirst atSecond atThird atFourth written
    have laid := covers.laid
    rw [pieces] at laid
    have joints := joints_eq_nil atSecond atThird atFourth written
    obtain ⟨noSecond, noThird, noFourth⟩ := laid.markup atFirst atSecond atThird atFourth joints
    simp [Placed.source_eq atSecond noSecond, Placed.source_eq atThird noThird,
      Placed.source_eq atFourth noFourth]

/-- Each of the rules keeps a gap here. -/
theorem minify_opensNothing_kept :
    minify "+ +a< !- -b / /r/ /c" = .ok "\n+ +a< !- -b/ /r/ /c" ∧
      (layout "+ +a< !- -b / /r/ /c".toList).OpensNothing := by
  have done : minify "+ +a< !- -b / /r/ /c" = .ok "\n+ +a< !- -b/ /r/ /c" :=
    minify_eq_ok_iff.mpr (by decide +kernel)
  exact ⟨done, (minify_opensNothing done).2.2⟩

theorem Laid.token_fits (laid : Laid rest writer (before ++ placed :: after)) :
    placed.token.Fits (some placed.piece.last) := by
  induction before generalizing writer with
  | nil =>
    cases laid with
    | next _ kept legible _ token _ =>
      rw [token]
      exact Writer.keep_fits kept legible.whole _ _
  | cons first before ih =>
    cases laid with
    | next _ _ _ _ _ laid => exact ih laid

theorem Laid.token_eq (laid : Laid rest writer (placed :: later)) (adjacent : writer.gap = .empty)
    (atLast : writer.last = some last) (code : placed.piece = .code c) (gapped : placed.gap ≠ []) :
    placed.token = writer.token.push c false := by
  cases laid with
  | next elided _ _ _ token _ =>
    have parted : (writer.across placed.gap).isGlued = false := by
      rw [← Bool.not_eq_true, Writer.across_isGlued adjacent atLast elided]
      exact gapped
    rw [token, code, Writer.keep, parted]
    rfl

/-- The token takes up a character although the text `gap` stood between the two: it is a number that
ends in a dot, or in the sign of its exponent on the same line, and the character is a letter. -/
def Token.TakesUp (token : Token) (gap : List Char) (c : Char) : Prop :=
  ∃ text, token = .number text ∧ isLetterLike c = true ∧
    (text.getLast? = some '.' ∨
      (text.getLast? = some '+' ∨ text.getLast? = some '-') ∧ ∀ d ∈ gap, isLineTerminator d = false)

theorem Token.takesUp_iff {token : Token} {gap : List Char} (fits : token.Fits (some last)) :
    token.TakesUp gap c ↔
      token.extend? c ≠ none ∧ token.fuses c = true ∧
        (last = ⟨'.', false⟩ ∨ ∀ d ∈ gap, isLineTerminator d = false) := by
  cases token with
  | number text =>
    obtain ⟨d, same, atEnd, _⟩ := fits
    cases same
    constructor
    · rintro ⟨_, same, letter, ends⟩
      cases same
      rw [atEnd] at ends
      refine ⟨by simp [Token.extend?, numberGoesOn_letter letter], ?_, ?_⟩
      · rcases ends with dot | ⟨plus | minus, _⟩ <;> simp_all [Token.fuses]
      · rcases ends with dot | ⟨_, sameLine⟩
        · exact .inl (congrArg (Retained.mk · false) (Option.some.inj dot))
        · exact .inr sameLine
    · rintro ⟨_, fuses, sameLine⟩
      obtain ⟨letter, e, mark, atMark⟩ := Token.fuses_number fuses
      cases atEnd.symm.trans atMark
      refine ⟨text, rfl, letter, ?_⟩
      simp only [List.mem_cons, List.not_mem_nil, or_false] at mark
      simp only [Retained.mk.injEq, and_true] at sameLine
      simp only [atEnd, Option.some.injEq]
      grind
  | _ => simp [Token.TakesUp, Token.extend?, Token.fuses]

theorem Laid.sameLine_of_fuses (laid : Laid rest writer (placed :: later))
    (adjacent : writer.gap = .empty) (atLast : writer.last = some last)
    (fits : writer.token.Fits (some last)) (noJoint : placed.joint = [])
    (fuses : writer.token.fuses placed.piece.first = true) :
    last = ⟨'.', false⟩ ∨ ∀ d ∈ textOf placed.gap, isLineTerminator d = false := by
  by_cases breaks : ∃ d ∈ textOf placed.gap, isLineTerminator d = true
  · left
    obtain ⟨letter, d, mark, same⟩ := Token.fuses_cases fits fuses
    cases same
    obtain ⟨tail, atPiece⟩ := placed.piece.text_eq_cons
    have separated := laid.separated adjacent atLast atPiece
    rw [Gap.ofText_eq_lineBreak_iff.mpr breaks] at separated
    have newline (ends : Retained.endsStatement ⟨d, false⟩ = true) : False := by
      have written := separated.newline_of_statements ends (startsStatement_letter letter)
      rw [noJoint] at written
      cases written
    simp only [List.mem_cons, List.not_mem_nil, or_false] at mark
    rcases mark with rfl | rfl | rfl
    · rfl
    · exact (newline rfl).elim
    · exact (newline rfl).elim
  · right
    simpa using breaks

/-- What stood apart from a token becomes part of it only where the token takes it up. -/
theorem Laid.takesUp_iff (laid : Laid rest writer (placed :: later)) (adjacent : writer.gap = .empty)
    (atLast : writer.last = some last) (fits : writer.token.Fits (some last))
    (gapped : placed.gap ≠ []) :
    placed.joint = [] ∧ writer.token.extend? placed.piece.first ≠ none ↔
      writer.token.TakesUp (textOf placed.gap) placed.piece.first := by
  rw [Token.takesUp_iff fits]
  constructor
  · rintro ⟨noJoint, goesOn⟩
    rcases laid.touches adjacent atLast noJoint with noGap | ⟨close, noSign, noPoint, _⟩
    · exact absurd noGap gapped
    have fuses : writer.token.fuses placed.piece.first = true := by
      cases apart : writer.token.fuses placed.piece.first with
      | true => rfl
      | false => exact absurd (Token.extend?_eq_none fits close noSign noPoint apart) goesOn
    exact ⟨goesOn, fuses, laid.sameLine_of_fuses adjacent atLast fits noJoint fuses⟩
  · rintro ⟨goesOn, fuses, sameLine⟩
    refine ⟨?_, goesOn⟩
    cases laid with
    | next elided _ _ joint _ _ =>
      have atGap : (writer.across placed.gap).gap = .ofText (textOf placed.gap) := by
        rw [Writer.across, elided.across_eq, adjacent, Gap.empty_widen]
      have fits : (writer.across placed.gap).token.Fits (writer.across placed.gap).last :=
        atLast ▸ fits
      rw [joint]
      refine (Joins.fusing fits fuses ?_ ?_ _).joint_eq
      · rw [atGap, ne_eq, Gap.ofText_eq_empty_iff, textOf_eq_nil_iff]
        exact gapped
      · rw [atGap, Gap.ofText_eq_lineBreak_iff]
        rintro ⟨d, member, lineEnd⟩
        rcases sameLine with dot | sameLine
        · exact atLast.trans (congrArg some dot)
        · rw [sameLine d member] at lineEnd
          cases lineEnd

/-- Behind a gap, a character is written right behind a token that goes on with it exactly if the
token takes it up. In all other cases a word or number ends there when the output is read. -/
theorem minify_fuses_iff {source out : String} (done : minify source = .ok out)
    {before after : List Placed} {left right : Placed} {c : Char}
    (pieces : (layout source.toList).pieces = before ++ left :: right :: after)
    (code : right.piece = .code c) (gapped : right.gap ≠ []) :
    out.toList = '\n' :: writtenOf (before ++ [left]) ++ (right.joint ++ c :: writtenOf after) ∧
      (right.joint = [] ∧ left.token.extend? c ≠ none ↔
        left.token.TakesUp (textOf right.gap) c) ∧
      (∀ text property, left.token = .word text property ∨ left.token = .number text →
        left.token.extend? c = none → left.token.push c true = right.token) := by
  obtain ⟨covers, atOut⟩ := layout_covers done
  have laid := covers.laid
  rw [pieces] at laid
  have fits := laid.token_fits
  obtain ⟨middle, later, adjacent, atLast, atToken, _⟩ := laid.behind
  rw [← atToken] at fits ⊢
  refine ⟨?_, ?_, ?_⟩
  · rw [atOut, pieces]
    simp [writtenOf_append, Placed.written, code, Lexeme.text]
  · have takesUp := later.takesUp_iff adjacent atLast fits gapped
    rw [code] at takesUp
    exact takesUp
  · intro text property wordy stops
    have noPunct (d : Char) : middle.token ≠ .punct d := by
      rcases wordy with same | same <;> simp [same]
    rw [later.token_eq adjacent atLast code gapped]
    simp [Token.push, stops, Token.follow_glued noPunct]

/-- The sign of an exponent takes up a letter that stood apart from it. -/
theorem minify_fuses_exponent :
    minify "1e+ x" = .ok "\n1e+x" ∧ (Token.number "1e+".toList).extend? 'x' ≠ none := by
  have done : minify "1e+ x" = .ok "\n1e+x" := minify_eq_ok_iff.mpr (by decide +kernel)
  have atPieces : (layout "1e+ x".toList).pieces =
      [⟨[], [], .code '1', .number ['1']⟩, ⟨[], [], .code 'e', .number ['1', 'e']⟩] ++
        ⟨[], [], .code '+', .number "1e+".toList⟩ ::
          ⟨[.blank ' '], [], .code 'x', .word ['x'] false⟩ :: [] := by
    decide +kernel
  have sameLine : ∀ d ∈ textOf [.blank ' '], isLineTerminator d = false := by
    simp [Lexeme.text, isLineTerminator]
  obtain ⟨_, takesUp, _⟩ := minify_fuses_iff done atPieces rfl (by decide)
  exact ⟨done, (takesUp.mpr ⟨_, rfl, by decide, .inr ⟨.inl rfl, sameLine⟩⟩).2⟩

/-- A number that ends in a dot takes up a word. -/
theorem minify_fuses_word :
    minify "1. in" = .ok "\n1.in" ∧
      ¬∀ source out before left right after c, minify source = .ok out →
        (layout source.toList).pieces = before ++ left :: right :: after →
        right.piece = .code c → right.gap ≠ [] →
        ((∃ text property, left.token = .word text property) ∨ ∃ text, left.token = .number text) →
        right.joint = [] → left.token.extend? c = none := by
  have done : minify "1. in" = .ok "\n1.in" := minify_eq_ok_iff.mpr (by decide +kernel)
  have atPieces : (layout "1. in".toList).pieces =
      [⟨[], [], .code '1', .number ['1']⟩] ++ ⟨[], [], .code '.', .number ['1', '.']⟩ ::
        ⟨[.blank ' '], [], .code 'i', .word ['i'] false⟩ ::
          [⟨[], [], .code 'n', .word ['i', 'n'] false⟩] := by
    decide +kernel
  refine ⟨done, ?_⟩
  intro parted
  have stops := parted _ _ _ _ _ _ _ done atPieces rfl (by decide) (.inr ⟨_, rfl⟩) rfl
  exact absurd stops (by decide)

end Elision
