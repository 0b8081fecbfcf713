import Elision.Proofs.Coherence

namespace Elision

/-- Whether a character would become part of the token if it stood right behind it, although a gap
between the two is dropped: a letter behind a number that ends in a dot or in the sign of its
exponent, or a digit behind a dot. -/
def Token.fuses (token : Token) (c : Char) : Bool :=
  match token with
  | .number text =>
    (text.getLast? = some '.' || text.getLast? = some '+' || text.getLast? = some '-') &&
      isLetterLike c
  | .punct d => d = '.' && c.isDigit
  | _ => false

theorem Separator.mustStayApart_of_nothing {last : Retained} {next : Char} {gap : Gap}
    (elided : gap ≠ .empty) (nothing : Separator.between last next gap = .nothing) :
    last.mustStayApart next = false := by
  cases gap with
  | empty => exact absurd rfl elided
  | blank =>
    simp only [Separator.between] at nothing
    split at nothing
    · cases nothing
    · rename_i close
      simpa using close
  | lineBreak =>
    simp only [Separator.between] at nothing
    split at nothing
    · cases nothing
    · rename_i close
      simp only [Bool.or_eq_true, not_or, Bool.not_eq_true] at close
      exact close.1

theorem Retained.mustStayApart_letters {last : Retained} {next : Char}
    (before : last.closesRegex = true ∨ isLetterLike last.char = true)
    (after : isLetterLike next = true) : last.mustStayApart next = true := by
  have wordAfter : Elision.isWordLike next = true := by
    simp only [isLetterLike, decide_eq_true_eq] at after
    simp [Elision.isWordLike, after]
  have wordBefore : last.isWordLike = true := by
    rcases before with closes | letter
    · simp [Retained.isWordLike, closes]
    · simp only [isLetterLike, decide_eq_true_eq] at letter
      simp [Retained.isWordLike, Elision.isWordLike, letter]
  simp [Retained.mustStayApart, wordBefore, wordAfter, after]

/-- A token does not go on behind a dropped gap unless it fuses with what follows. -/
theorem Token.extend?_eq_none {token : Token} {last : Retained} {c : Char}
    (fits : token.Fits (some last)) (close : last.mustStayApart c = false)
    (noSign : token.absorbsSign c = false) (noPoint : ¬(c = '.' ∧ token.isPlainInteger = true))
    (apart : token.fuses c = false) : token.extend? c = none := by
  have noLetter (letter : isLetterLike last.char = true) : isLetterLike c = false := by
    by_cases after : isLetterLike c = true
    · simp [Retained.mustStayApart_letters (.inr letter) after] at close
    · simpa using after
  cases token with
  | word text property =>
    obtain ⟨d, same, letter⟩ := fits
    cases same
    simp [Token.extend?, noLetter letter]
  | number text =>
    obtain ⟨d, same, atEnd, kind⟩ := fits
    cases same
    have stops : numberGoesOn text c = false := by
      unfold numberGoesOn
      split
      · rename_i dot
        simpa [dot, Token.isPlainInteger] using noPoint
      · split
        · rename_i sign
          simpa [Token.absorbsSign, sign] using noSign
        · rcases kind with letter | mark
          · exact noLetter letter
          · simp only [List.mem_cons, List.not_mem_nil, or_false] at mark
            rcases mark with rfl | rfl | rfl <;> simpa [Token.fuses, atEnd] using apart
    simp [Token.extend?, stops]
  | _ => rfl

theorem Token.follow_glued {token : Token} (other : ∀ d, token ≠ .punct d) (c : Char) :
    token.follow c true = token.follow c false := by
  simp [Token.follow, other]

/-- So a dropped gap has no influence on the token behind it. -/
theorem Token.push_glued {token : Token} {last : Retained} {c : Char}
    (fits : token.Fits (some last)) (close : last.mustStayApart c = false)
    (noSign : token.absorbsSign c = false) (noPoint : ¬(c = '.' ∧ token.isPlainInteger = true))
    (apart : token.fuses c = false) : token.push c true = token.push c false := by
  have stops := Token.extend?_eq_none fits close noSign noPoint apart
  cases token with
  | punct d =>
    obtain ⟨same, _, _⟩ := fits
    cases same
    have noIncrement : ¬((c = '+' ∨ c = '-') ∧ d = c) := by
      rintro ⟨sign, rfl⟩
      rcases sign with rfl | rfl <;> cases close
    have noFraction : c.isDigit = true → d ≠ '.' := by
      rintro digit rfl
      simp [Token.fuses, digit] at apart
    simp only [Token.push, Token.extend?, Token.follow]
    by_cases digit : c.isDigit = true
    · simp [digit, noFraction digit]
    · grind
  | _ => simp [Token.push, stops, Token.follow_glued]

theorem Token.fuses_number {text : List Char} {c : Char} (fuses : (Token.number text).fuses c = true) :
    isLetterLike c = true ∧ ∃ d ∈ ['.', '+', '-'], text.getLast? = some d := by
  simp only [Token.fuses, Bool.and_eq_true, Bool.or_eq_true, decide_eq_true_eq] at fuses
  obtain ⟨(dot | plus) | minus, letter⟩ := fuses
  · exact ⟨letter, '.', by simp, dot⟩
  · exact ⟨letter, '+', by simp, plus⟩
  · exact ⟨letter, '-', by simp, minus⟩

theorem Token.fuses_cases {token : Token} {last : Option Retained} {c : Char}
    (fits : token.Fits last) (fuses : token.fuses c = true) :
    isLetterLike c = true ∧ ∃ d ∈ ['.', '+', '-'], last = some ⟨d, false⟩ := by
  cases token with
  | number text =>
    obtain ⟨d, atLast, atEnd, _⟩ := fits
    obtain ⟨letter, e, mark, same⟩ := Token.fuses_number fuses
    cases atEnd.symm.trans same
    exact ⟨letter, d, mark, atLast⟩
  | punct d =>
    simp only [Token.fuses, Bool.and_eq_true, decide_eq_true_eq] at fuses
    obtain ⟨rfl, digit⟩ := fuses
    exact ⟨isLetterLike_of_isDigit digit, '.', by simp, fits.1⟩
  | _ => cases fuses

theorem isLetterLike_of_mark {d : Char} (mark : d ∈ ['.', '+', '-']) : isLetterLike d = false := by
  simp only [List.mem_cons, List.not_mem_nil, or_false] at mark
  rcases mark with rfl | rfl | rfl <;> rfl

theorem startsStatement_letter {c : Char} (letter : isLetterLike c = true) :
    startsStatement c = true := by
  simp only [isLetterLike, decide_eq_true_eq] at letter
  simp [startsStatement, letter]

/-- A letter behind a dot or a sign is set apart only where a line ends behind the sign. -/
theorem Separator.between_mark {d c : Char} (mark : d ∈ ['.', '+', '-'])
    (letter : isLetterLike c = true) (gap : Gap) :
    Separator.between ⟨d, false⟩ c gap =
      if gap = .lineBreak ∧ d ≠ '.' then .newline else .nothing := by
  have noPlus : c ≠ '+' := ne_of_isLetterLike letter rfl
  have noMinus : c ≠ '-' := ne_of_isLetterLike letter rfl
  have starts := startsStatement_letter letter
  simp only [List.mem_cons, List.not_mem_nil, or_false] at mark
  cases gap with
  | empty => simp [Separator.between]
  | blank | lineBreak =>
    rcases mark with rfl | rfl | rfl <;>
      simp +decide [Separator.between, Retained.mustStayApart, Retained.isWordLike, noPlus, noMinus,
        starts]

/-- Nothing is written between a token and a character that fuses with it, unless a line ends behind
a sign. -/
theorem Joins.fusing {writer : Writer} {c : Char} (fits : writer.token.Fits writer.last)
    (fuses : writer.token.fuses c = true) (elided : writer.gap ≠ .empty)
    (sameLine : writer.gap = .lineBreak → writer.last = some ⟨'.', false⟩) (ahead : Option Char) :
    Joins writer c ahead [] := by
  obtain ⟨letter, d, mark, atLast⟩ := Token.fuses_cases fits fuses
  have noPlus : c ≠ '+' := ne_of_isLetterLike letter rfl
  have noMinus : c ≠ '-' := ne_of_isLetterLike letter rfl
  have noDot : c ≠ '.' := ne_of_isLetterLike letter rfl
  have noBang : c ≠ '!' := ne_of_isLetterLike letter rfl
  have nothing : Separator.between ⟨d, false⟩ c writer.gap = .nothing := by
    rw [Separator.between_mark mark letter, if_neg]
    rintro ⟨lineBreak, noDot⟩
    cases atLast.symm.trans (sameLine lineBreak)
    exact noDot rfl
  have noSign : writer.token.absorbsSign c = false := by
    cases writer.token <;> simp [Token.absorbsSign, noPlus, noMinus]
  refine .dropped atLast elided nothing noSign ?_ ?_
  · intro point
    exact noDot point.1
  · simp [Writer.opensMarkupComment, noBang, noMinus]

theorem numberGoesOn_letter {c : Char} (letter : isLetterLike c = true) (text : List Char) :
    numberGoesOn text c = true := by
  have noDot : c ≠ '.' := ne_of_isLetterLike letter rfl
  have noPlus : c ≠ '+' := ne_of_isLetterLike letter rfl
  have noMinus : c ≠ '-' := ne_of_isLetterLike letter rfl
  simp [numberGoesOn, noDot, noPlus, noMinus, letter]

theorem Token.push_letter {text : List Char} {c : Char} (letter : isLetterLike c = true) :
    (Token.number text).push c true = .number (text ++ [c]) := by
  simp [Token.push, Token.extend?, numberGoesOn_letter letter]

theorem isPlainInteger_eq_false {text : List Char} {d : Char} (member : d ∈ text)
    (noDigit : (d.isDigit || d = '_') = false) : isPlainInteger text = false := by
  have stops : text.all (fun e => e.isDigit || e = '_') = false := by
    rw [List.all_eq_false]
    exact ⟨d, member, by simp [noDigit]⟩
  simp [isPlainInteger, stops]

/-- With a dot or a sign in it, a number takes no dot. -/
theorem Token.push_dot {text : List Char} {d : Char} (member : d ∈ text)
    (mark : d ∈ ['.', '+', '-']) : (Token.number text).push '.' true = .punct '.' := by
  have noDigit : (d.isDigit || d = '_') = false := by
    simp only [List.mem_cons, List.not_mem_nil, or_false] at mark
    rcases mark with rfl | rfl | rfl <;> rfl
  have noInteger : Elision.isPlainInteger text = false := isPlainInteger_eq_false member noDigit
  have goesOn : numberGoesOn text '.' = false := by simpa [numberGoesOn] using noInteger
  simp only [Token.push, Token.extend?, goesOn]
  rfl

theorem Token.push_digit_dot {token : Token} {c : Char} (fuses : token.fuses c = true)
    (digit : c.isDigit = true) : (token.push c true).push '.' true = .punct '.' := by
  cases token with
  | number text =>
    obtain ⟨letter, d, mark, atEnd⟩ := Token.fuses_number fuses
    have member := List.mem_of_getLast? atEnd
    rw [Token.push_letter letter]
    exact Token.push_dot (List.mem_append_left [c] member) mark
  | punct d =>
    simp only [Token.fuses, Bool.and_eq_true, decide_eq_true_eq] at fuses
    obtain ⟨rfl, _⟩ := fuses
    have atNumber : (Token.punct '.').push c true = .number ['.', c] := by
      simp [Token.push, Token.extend?, Token.follow, digit]
    rw [atNumber]
    exact Token.push_dot List.mem_cons_self List.mem_cons_self
  | _ => cases fuses

theorem not_isHex_of_mark {text : List Char} {d : Char} (clean : (Token.number text).HexLetters)
    (atEnd : text.getLast? = some d) (mark : d ∈ ['.', '+', '-']) (more : List Char) :
    ¬IsHex (text ++ more) := by
  have noLetter := isLetterLike_of_mark mark
  have noHex : ¬IsHex text := by
    intro hex
    rw [clean hex d (List.mem_of_getLast? atEnd)] at noLetter
    cases noLetter
  intro hex
  match text, atEnd with
  | [_], rfl =>
    rcases hex with ⟨_, same⟩ | ⟨_, same⟩ <;> cases same <;> cases noLetter
  | a :: b :: text, _ => exact noHex (IsHex.of_append hex)

/-- A number that has fused with a letter takes an exponent behind it. -/
theorem Token.push_letter_exponent {text : List Char} {c : Char}
    (clean : (Token.number text).HexLetters) (fuses : (Token.number text).fuses c = true) :
    (((Token.number text).push c true).push 'e' true).push '+' true =
      .number (text ++ [c, 'e', '+']) := by
  obtain ⟨letter, d, mark, atEnd⟩ := Token.fuses_number fuses
  have goesOn : numberGoesOn (text ++ [c, 'e']) '+' = true :=
    awaitsExponentSign_iff.mpr ⟨not_isHex_of_mark clean atEnd mark _, .inl (by simp)⟩
  rw [Token.push_letter letter, Token.push_letter rfl]
  simp [Token.push, Token.extend?, goesOn]

end Elision
