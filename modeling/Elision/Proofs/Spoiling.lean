import Elision.Proofs.Extension

namespace Elision

/-- Nothing is written for a blank between a token and a character that fuses with it. -/
theorem Writer.joins_fusing {writer : Writer} {c : Char} (adjacent : writer.gap = .empty)
    (fits : writer.token.Fits writer.last) (fuses : writer.token.fuses c = true)
    (ahead : Option Char) :
    Joins (writer.across [.blank ' ']) c ahead [] ∧ (writer.across [.blank ' ']).isGlued = false := by
  obtain ⟨_, d, _, atLast⟩ := Token.fuses_cases fits fuses
  have atLast : (writer.across [.blank ' ']).last = some ⟨d, false⟩ := atLast
  have atGap : (writer.across [.blank ' ']).gap = .blank := by
    rw [Writer.across, adjacent]
    rfl
  have fits : (writer.across [.blank ' ']).token.Fits (writer.across [.blank ' ']).last := fits
  refine ⟨Joins.fusing fits fuses (by simp [atGap]) (by simp [atGap]) ahead, ?_⟩
  simp [Writer.isGlued, atGap, atLast]

theorem Laid.dropped {rest : List Char} {writer : Writer} {c : Char} {later : List Placed}
    (adjacent : writer.gap = .empty) (fits : writer.token.Fits writer.last) (isCode : IsCode c)
    (fuses : writer.token.fuses c = true)
    (laid : Laid rest ⟨c :: writer.out, some ⟨c, false⟩, .empty, writer.token.push c false⟩ later) :
    Laid rest writer (⟨[.blank ' '], [], .code c, writer.token.push c false⟩ :: later) := by
  obtain ⟨joins, parted⟩ := Writer.joins_fusing adjacent fits fuses (sourceOf later ++ rest).head?
  have noJoint := joins.joint_eq
  have noSlash : c ≠ '/' := ne_of_isLetterLike (Token.fuses_cases fits fuses).1 rfl
  have atKeep : (writer.across [.blank ' ']).keep (.code c) (sourceOf later ++ rest).head? =
      ⟨c :: writer.out, some ⟨c, false⟩, .empty, writer.token.push c false⟩ := by
    rw [Writer.keep, parted, Lexeme.first, noJoint]
    rfl
  refine .next ⟨by decide, rfl, trivial, trivial⟩ rfl ⟨isCode, ?_, ?_⟩ noJoint.symm ?_ ?_
  · intro slash
    exact absurd slash noSlash
  · intro slash
    exact absurd slash noSlash
  · rw [atKeep]
  · rw [atKeep]
    exact laid

/-- A source goes on with `first`, and in what is written for that `second` is found, with a slash
behind it that divided in the source and now opens a regular expression. -/
theorem Layout.Covers.breaks {plan : Layout} {source : String} {first second : List Placed}
    {more : List Char} (covers : plan.Covers source.toList) (atEnd : plan.trail = [])
    (nonempty : plan.pieces ≠ []) (apart : unfused .start plan.pieces = true)
    (space : sourceOf first = ' ' :: more) (same : writtenOf first = sourceOf second ++ ['/'])
    (opens : (endToken (endToken .start plan.pieces) second).opensRegex = true)
    (atFirst : LaidBehind [] (endToken .start plan.pieces) first)
    (atSecond : LaidBehind ['/'] (endToken .start plan.pieces) second) :
    ∃ again, minify (source ++ String.ofList (' ' :: more)) = .ok again ∧
      ∀ out, minify again ≠ .ok out := by
  obtain ⟨text, laid, _⟩ := covers
  rw [atEnd, textOf_nil] at laid
  rw [atEnd, textOf_nil, List.append_nil] at text
  have whole : Laid [] (.start []) (plan.pieces ++ first) := by
    refine Laid.append ?_ rfl rfl atFirst
    rw [space, List.append_nil]
    exact laid.spaced more
  have longer : Layout.Covers ⟨plan.pieces ++ first, []⟩
      (source ++ String.ofList (' ' :: more)).toList := by
    refine ⟨?_, whole, trivial⟩
    have atSource : source.toList ≠ [] := by
      intro empty
      obtain ⟨placed, later, atPieces⟩ := List.exists_cons_of_ne_nil nonempty
      obtain ⟨tail, atPiece⟩ := placed.piece.text_eq_cons
      rw [empty, atPieces] at text
      simp [dropMark, Placed.source, atPiece] at text
    rw [String.toList_append, dropMark_append atSource, text, String.toList_ofList, sourceOf_append,
      space]
    simp
  -- Only the pieces before the blank are read again as they were; behind them the tokens differ.
  have again : Laid (writtenOf first) (.start []) (replay .start plan.pieces) :=
    whole.replayed (by simp) rfl rfl apart
  rw [same] at again
  have failing : Laid ['/'] (.start []) (replay .start plan.pieces ++ second) := by
    have sameToken : endToken (Writer.start []).token (replay .start plan.pieces) =
        endToken .start plan.pieces := endToken_replay ..
    exact Laid.append again rfl rfl (sameToken ▸ atSecond)
  refine ⟨_, longer.minify_eq, ?_⟩
  refine minify_ne_ok_of_slash failing ?_ ?_
  · rw [endToken_append, endToken_replay]
    exact opens
  · rw [String.toList_ofList, writtenOf_append, same, sourceOf_append, whole.sourceOf_replay]
    simp

theorem isCode_of_mark {d : Char} (mark : d ∈ ['.', 'e', '+', ',']) : IsCode d ∧ d ≠ '/' := by
  simp only [List.mem_cons, List.not_mem_nil, or_false] at mark
  rcases mark with rfl | rfl | rfl | rfl <;> exact ⟨⟨by decide, by decide, by decide⟩, by decide⟩

/-- A digit that fuses no longer takes a dot as its decimal point, so a slash behind that dot is no
division any more. -/
theorem Layout.Covers.spoiled_digit {plan : Layout} {source : String} {c : Char}
    (covers : plan.Covers source.toList) (atEnd : plan.trail = []) (nonempty : plan.pieces ≠ [])
    (apart : unfused .start plan.pieces = true) (isCode : IsCode c) (digit : c.isDigit = true)
    (fuses : (endToken .start plan.pieces).fuses c = true) :
    ∃ again, minify (source ++ String.ofList [' ', c, '.', '/']) = .ok again ∧
      ∀ out, minify again ≠ .ok out := by
  generalize atToken : endToken .start plan.pieces = token at fuses
  obtain ⟨dot, dotNoSlash⟩ := isCode_of_mark (show '.' ∈ _ from List.mem_cons_self)
  have noSlash : c ≠ '/' := ne_of_isLetterLike (isLetterLike_of_isDigit digit) rfl
  have number : (token.push c false).push '.' true = .number [c, '.'] := by
    have plain : numberGoesOn [c] '.' = true := by
      simp [numberGoesOn, Elision.isPlainInteger, isLegacyOctal, digit]
    simp [Token.push, Token.extend?, Token.follow, digit, plain]
  have first : LaidBehind [] token [⟨[.blank ' '], [], .code c, token.push c false⟩,
        ⟨[], [], .code '.', (token.push c false).push '.' true⟩,
        ⟨[], [], .code '/', ((token.push c false).push '.' true).push '/' true⟩] := by
    rintro middle adjacent fits rfl
    refine Laid.dropped adjacent fits isCode fuses (Laid.code rfl dot dotNoSlash ?_)
    refine Laid.glued rfl rfl ⟨⟨by decide, by decide, by decide⟩, ?_, ?_⟩ .done
    · intro _
      exact ⟨by decide, by decide⟩
    · intro _
      exact congrArg Token.opensRegex number
  have second : LaidBehind ['/'] token [⟨[], [], .code c, token.push c true⟩,
        ⟨[], [], .code '.', (token.push c true).push '.' true⟩] := by
    rintro middle adjacent _ rfl
    exact Laid.code adjacent isCode noSlash (Laid.code rfl dot dotNoSlash .done)
  rw [← atToken] at first second
  refine covers.breaks atEnd nonempty apart rfl rfl ?_ first second
  rw [atToken]
  exact congrArg Token.opensRegex (Token.push_digit_dot fuses digit)

/-- A letter that fuses makes an exponent of what was a word and a sign, so a regular expression
behind it falls apart at its slashes. -/
theorem Layout.Covers.spoiled_letter {plan : Layout} {source : String} {c : Char}
    (covers : plan.Covers source.toList) (atEnd : plan.trail = []) (nonempty : plan.pieces ≠ [])
    (apart : unfused .start plan.pieces = true) (isCode : IsCode c) (noDigit : c.isDigit = false)
    (fuses : (endToken .start plan.pieces).fuses c = true) :
    ∃ again, minify (source ++ String.ofList [' ', c, 'e', '+', '/', ',', '/']) = .ok again ∧
      ∀ out, minify again ≠ .ok out := by
  have clean : (endToken .start plan.pieces).HexLetters := covers.laid.endToken_hexLetters trivial
  generalize atToken : endToken .start plan.pieces = token at fuses clean
  obtain ⟨text, rfl⟩ : ∃ text, token = .number text := by
    cases token with
    | number text => exact ⟨text, rfl⟩
    | punct => simp [Token.fuses, noDigit] at fuses
    | _ => cases fuses
  have letter := (Token.fuses_number fuses).1
  have noSlash : c ≠ '/' := ne_of_isLetterLike letter rfl
  obtain ⟨isE, eNoSlash⟩ := isCode_of_mark (show 'e' ∈ _ by decide)
  obtain ⟨isPlus, plusNoSlash⟩ := isCode_of_mark (show '+' ∈ _ by decide)
  obtain ⟨isComma, commaNoSlash⟩ := isCode_of_mark (show ',' ∈ _ by decide)
  have word : (((Token.number text).push c false).push 'e' true).push '+' true = .punct '+' := by
    have atWord : (Token.number text).push c false = .word [c] false := by
      simp [Token.push, Token.follow, noDigit, letter]
    rw [atWord]
    rfl
  have exponent := Token.push_letter_exponent clean fuses
  have first : LaidBehind [] (.number text)
      [⟨[.blank ' '], [], .code c, (Token.number text).push c false⟩,
        ⟨[], [], .code 'e', ((Token.number text).push c false).push 'e' true⟩,
        ⟨[], [], .code '+', (((Token.number text).push c false).push 'e' true).push '+' true⟩,
        ⟨[], [], .regex [',', '/'] [], .regex⟩] := by
    intro middle adjacent fits same
    rw [← same] at fuses word ⊢
    refine Laid.dropped adjacent fits isCode fuses (Laid.code rfl isE eNoSlash ?_)
    refine Laid.code rfl isPlus plusNoSlash ?_
    refine Laid.glued rfl rfl ⟨?_, by simp [Lexeme.EndsBefore], congrArg Token.opensRegex word⟩ .done
    exact ⟨.plain rfl (by decide) (by decide) .close, by decide, by decide, by simp⟩
  have second : LaidBehind ['/'] (.number text)
      [⟨[], [], .code c, (Token.number text).push c true⟩,
        ⟨[], [], .code 'e', ((Token.number text).push c true).push 'e' true⟩,
        ⟨[], [], .code '+', .number (text ++ [c, 'e', '+'])⟩,
        ⟨[], [], .code '/', .punct '/'⟩, ⟨[], [], .code ',', .punct ','⟩] := by
    intro middle adjacent _ same
    rw [← exponent, ← same]
    refine Laid.code adjacent isCode noSlash (Laid.code rfl isE eNoSlash ?_)
    refine Laid.code rfl isPlus plusNoSlash ?_
    have division : Laid ['/'] ⟨'+' :: 'e' :: c :: middle.out, some ⟨'+', false⟩, .empty,
        .number (text ++ [c, 'e', '+'])⟩
        [⟨[], [], .code '/', .punct '/'⟩, ⟨[], [], .code ',', .punct ','⟩] := by
      refine Laid.glued rfl rfl ⟨⟨by decide, by decide, by decide⟩, ?_, ?_⟩ ?_
      · intro _
        exact ⟨by decide, by decide⟩
      · intro _
        rfl
      · exact Laid.code rfl isComma commaNoSlash .done
    rw [← exponent, ← same] at division
    exact division
  rw [← atToken] at first second
  exact covers.breaks atEnd nonempty apart rfl rfl rfl first second

/-- What stands behind a source may always be such that a blank between two fusing characters spoils
the output: read again, it has no end. -/
theorem Layout.Covers.spoiled {plan : Layout} {source : String} {c : Char}
    (covers : plan.Covers source.toList) (atEnd : plan.trail = [])
    (apart : unfused .start plan.pieces = true) (isCode : IsCode c)
    (fuses : (endToken .start plan.pieces).fuses c = true) :
    ∃ tail again, minify (source ++ String.ofList (' ' :: c :: tail)) = .ok again ∧
      ∀ out, minify again ≠ .ok out := by
  have nonempty : plan.pieces ≠ [] := by
    intro empty
    rw [empty] at fuses
    cases fuses
  cases digit : c.isDigit with
  | true => exact ⟨_, covers.spoiled_digit atEnd nonempty apart isCode digit fuses⟩
  | false => exact ⟨_, covers.spoiled_letter atEnd nonempty apart isCode digit fuses⟩

end Elision
