import Elision.Proofs.LastToken

namespace Elision

/-- A digit in front, or a dot with a digit behind it. -/
def BeginsNumber (text : List Char) : Prop :=
  ∃ c later, c.isDigit = true ∧ (text = c :: later ∨ text = '.' :: c :: later)

/-- A text as the last token may hold it for a number. -/
structure NumberText (text : List Char) : Prop where
  begins : BeginsNumber text
  onePoint : text.count '.' ≤ 1
  /-- The decimal point stands in front, or right behind digits that are not octal. -/
  point : ∀ before later, text = before ++ '.' :: later →
    before = [] ∨ DigitRun before ∧ ¬OctalRun before
  /-- A sign belongs to an exponent. -/
  sign : ∀ before sign later, sign ∈ ['+', '-'] → text = before ++ sign :: later →
    before.getLast? = some 'e' ∨ before.getLast? = some 'E'
  hex : IsHex text → ∀ c ∈ text, c ∉ ['.', '+', '-']
  letters : ∀ c ∈ text, c ∉ ['.', '+', '-'] → isLetterLike c = true

/-- A character may stand behind `text` in a number. -/
structure Continues (text : List Char) (c : Char) : Prop where
  point : c = '.' → text = [] ∨ DigitRun text ∧ ¬OctalRun text
  sign : c ∈ ['+', '-'] →
    ¬IsHex text ∧ (text.getLast? = some 'e' ∨ text.getLast? = some 'E')
  letter : c ∉ ['.', '+', '-'] → isLetterLike c = true

theorem Continues.of_letter {c : Char} (letter : isLetterLike c = true) (text : List Char) :
    Continues text c := by
  have noMark (mark : c ∈ ['.', '+', '-']) : False := by
    rw [isLetterLike_of_mark mark] at letter
    cases letter
  refine ⟨fun dot => ?_, fun sign => ?_, fun _ => letter⟩
  · exact (noMark (by simp [dot])).elim
  · exact (noMark (List.mem_cons_of_mem '.' sign)).elim

theorem Continues.first_point : Continues [] '.' :=
  ⟨fun _ => .inl rfl, fun sign => absurd sign (by decide), fun other => absurd List.mem_cons_self other⟩

theorem BeginsNumber.append {text : List Char} (begins : BeginsNumber text) (more : List Char) :
    BeginsNumber (text ++ more) := by
  obtain ⟨c, later, digit, rfl | rfl⟩ := begins
  · exact ⟨c, later ++ more, digit, .inl rfl⟩
  · exact ⟨c, later ++ more, digit, .inr rfl⟩

theorem BeginsNumber.isPlainInteger_iff {text : List Char} (begins : BeginsNumber text) :
    isPlainInteger text = true ↔ text = [] ∨ DigitRun text ∧ ¬OctalRun text := by
  constructor
  · intro plain
    have run : DigitRun text := by
      simp only [isPlainInteger, Bool.and_eq_true, List.all_eq_true, Bool.or_eq_true,
        decide_eq_true_eq] at plain
      obtain ⟨c, later, digit, rfl | rfl⟩ := begins
      · exact .mk digit fun d member => plain.1.2 d (List.mem_cons_of_mem c member)
      · have noDigit := plain.1.2 '.' List.mem_cons_self
        simp at noDigit
    exact .inr ⟨run, run.isPlainInteger_iff.mp plain⟩
  · rintro (rfl | ⟨run, noOctal⟩)
    · obtain ⟨_, _, _, empty | empty⟩ := begins <;> cases empty
    · exact run.isPlainInteger_iff.mpr noOctal

/-- A number goes on with the characters that may stand behind its text. -/
theorem BeginsNumber.numberGoesOn_iff {text : List Char} (begins : BeginsNumber text) (c : Char) :
    numberGoesOn text c = true ↔ Continues text c := by
  by_cases dot : c = '.'
  · subst dot
    have goesOn : numberGoesOn text '.' = isPlainInteger text := rfl
    rw [goesOn, begins.isPlainInteger_iff]
    constructor
    · intro plain
      exact ⟨fun _ => plain, fun sign => absurd sign (by decide),
        fun other => absurd List.mem_cons_self other⟩
    · exact fun continues => continues.point rfl
  by_cases sign : c ∈ ['+', '-']
  · have goesOn : numberGoesOn text c = awaitsExponentSign text := by
      simp only [List.mem_cons, List.not_mem_nil, or_false] at sign
      rcases sign with rfl | rfl <;> rfl
    rw [goesOn, awaitsExponentSign_iff]
    constructor
    · intro awaits
      exact ⟨fun same => absurd same dot, fun _ => awaits,
        fun other => absurd (List.mem_cons_of_mem '.' sign) other⟩
    · exact fun continues => continues.sign sign
  · have noMark : c ∉ ['.', '+', '-'] := List.not_mem_cons_of_ne_of_not_mem dot sign
    constructor
    · intro goesOn
      rcases numberGoesOn_cases goesOn with letter | mark
      · exact Continues.of_letter letter text
      · exact absurd mark noMark
    · intro continues
      exact numberGoesOn_letter (continues.letter noMark) text

/-- Each character of the text may stand behind those before it. -/
def Grown (text : List Char) : Prop :=
  ∀ before c later, text = before ++ c :: later → Continues before c

theorem DigitRun.noPoint {text : List Char} (run : DigitRun text) : '.' ∉ text := by
  intro member
  simpa using run.digit_of_mem member

theorem Grown.onePoint {text : List Char} (grown : Grown text) : text.count '.' ≤ 1 := by
  by_cases member : '.' ∈ text
  · obtain ⟨before, later, rfl, first⟩ := List.eq_append_cons_of_mem member
    have last : '.' ∉ later := by
      intro again
      obtain ⟨inner, rest, rfl⟩ := List.append_of_mem again
      have second := grown (before ++ '.' :: inner) '.' rest (by simp)
      rcases second.point rfl with empty | ⟨run, _⟩
      · simp at empty
      · exact run.noPoint (by simp)
    have noneBefore := List.count_eq_zero.mpr first
    have noneBehind := List.count_eq_zero.mpr last
    rw [List.count_append, List.count_cons_self]
    omega
  · have none := List.count_eq_zero.mpr member
    omega

/-- The mark of a hexadecimal number is its second character. -/
theorem isHex_iff {text : List Char} :
    IsHex text ↔ ∃ mark later, mark ∈ ['x', 'X'] ∧ text = '0' :: mark :: later := by
  constructor
  · rintro (⟨later, rfl⟩ | ⟨later, rfl⟩)
    · exact ⟨'x', later, by simp, rfl⟩
    · exact ⟨'X', later, by simp, rfl⟩
  · rintro ⟨mark, later, isMark, rfl⟩
    simp only [List.mem_cons, List.not_mem_nil, or_false] at isMark
    rcases isMark with rfl | rfl
    · exact .inl ⟨later, rfl⟩
    · exact .inr ⟨later, rfl⟩

theorem IsHex.append {text : List Char} (hex : IsHex text) (more : List Char) :
    IsHex (text ++ more) := by
  obtain ⟨mark, later, isMark, rfl⟩ := isHex_iff.mp hex
  exact isHex_iff.mpr ⟨mark, later ++ more, isMark, rfl⟩

/-- Behind the mark of a hexadecimal number there is no place for a dot or a sign. -/
theorem Grown.hex {text : List Char} (grown : Grown text) (hex : IsHex text) :
    ∀ c ∈ text, c ∉ ['.', '+', '-'] := by
  obtain ⟨mark, later, isMark, rfl⟩ := isHex_iff.mp hex
  have first : '0' ∉ ['.', '+', '-'] := by decide
  have second : mark ∉ ['.', '+', '-'] := by
    simp only [List.mem_cons, List.not_mem_nil, or_false] at isMark
    rcases isMark with rfl | rfl <;> decide
  refine List.forall_mem_cons.mpr ⟨first, List.forall_mem_cons.mpr ⟨second, ?_⟩⟩
  intro c member atMark
  obtain ⟨inner, rest, rfl⟩ := List.append_of_mem member
  have hexBefore : IsHex ('0' :: mark :: inner) := isHex_iff.mpr ⟨mark, inner, isMark, rfl⟩
  have continues := grown ('0' :: mark :: inner) c rest rfl
  rcases List.mem_cons.mp atMark with dot | sign
  · rcases continues.point dot with empty | ⟨run, _⟩
    · cases empty
    · exact run.unmarked.not_isHex hexBefore
  · exact (continues.sign sign).1 hexBefore

theorem numberText_iff {text : List Char} :
    NumberText text ↔ BeginsNumber text ∧ Grown text := by
  constructor
  · intro number
    refine ⟨number.begins, ?_⟩
    rintro before c later split
    have member : c ∈ text := by simp [split]
    refine ⟨?_, ?_, number.letters c member⟩
    · rintro rfl
      exact number.point before later split
    · intro sign
      refine ⟨?_, number.sign before c later sign split⟩
      intro hex
      have whole : IsHex text := split ▸ hex.append (c :: later)
      exact number.hex whole c member (List.mem_cons_of_mem '.' sign)
  · rintro ⟨begins, grown⟩
    refine ⟨begins, grown.onePoint, ?_, ?_, grown.hex, ?_⟩
    · intro before later split
      exact (grown before '.' later split).point rfl
    · intro before sign later isSign split
      exact ((grown before sign later split).sign isSign).2
    · intro c member other
      obtain ⟨before, later, split⟩ := List.append_of_mem member
      exact (grown before c later split).letter other

/-- A split of a text with one more character is at that character or in the text before. -/
theorem append_singleton_split {text before later : List Char} {c d : Char}
    (split : text ++ [c] = before ++ d :: later) :
    before = text ∧ d = c ∨ ∃ inner, text = before ++ d :: inner := by
  rcases List.eq_nil_or_concat later with rfl | ⟨inner, last, rfl⟩
  · obtain ⟨same, atEnd⟩ := List.append_inj' split rfl
    exact .inl ⟨same.symm, (List.cons.inj atEnd).1.symm⟩
  · refine .inr ⟨inner, ?_⟩
    rw [List.concat_eq_append, ← List.cons_append, ← List.append_assoc] at split
    exact (List.append_inj' split rfl).1

theorem grown_nil : Grown [] := by
  intro before c later split
  simp at split

theorem Grown.append {text : List Char} {c : Char} (grown : Grown text)
    (continues : Continues text c) : Grown (text ++ [c]) := by
  intro before d later split
  rcases append_singleton_split split with ⟨rfl, rfl⟩ | ⟨inner, atText⟩
  · exact continues
  · exact grown before d inner atText

theorem NumberText.append {text : List Char} {c : Char} (number : NumberText text)
    (goesOn : numberGoesOn text c = true) : NumberText (text ++ [c]) := by
  obtain ⟨begins, grown⟩ := numberText_iff.mp number
  have continues := (begins.numberGoesOn_iff c).mp goesOn
  exact numberText_iff.mpr ⟨begins.append [c], grown.append continues⟩

theorem NumberText.of_digit {c : Char} (digit : c.isDigit = true) : NumberText [c] := by
  have letter := isLetterLike_of_isDigit digit
  exact numberText_iff.mpr ⟨⟨c, [], digit, .inl rfl⟩, grown_nil.append (.of_letter letter _)⟩

theorem NumberText.of_fraction {c : Char} (digit : c.isDigit = true) : NumberText ['.', c] := by
  have letter := isLetterLike_of_isDigit digit
  have point : Grown ['.'] := grown_nil.append .first_point
  exact numberText_iff.mpr ⟨⟨c, [], digit, .inr rfl⟩, point.append (.of_letter letter _)⟩

theorem Word.append {text : List Char} {c : Char} (word : Word text)
    (letter : isLetterLike c = true) : Word (text ++ [c]) := by
  obtain ⟨letters, first, atFirst, noDigit⟩ := word
  refine ⟨List.forall_mem_append.mpr ⟨letters, List.forall_mem_singleton.mpr letter⟩, first, ?_,
    noDigit⟩
  rw [List.head?_append, Option.mem_def.mp atFirst]
  rfl

namespace Token

/-- What the token remembers of the source: the word or number so far. -/
def text : Token → List Char
  | .word text _ | .number text => text
  | _ => []

/-- The token is one that a source can leave: a word or number has a text of its kind, a mark is none
of the characters that have a kind of their own, and nothing else has a text. -/
def Shaped (token : Token) : Prop :=
  match token with
  | .word _ _ => Word token.text
  | .number _ => NumberText token.text
  | .punct c => token.text = [] ∧ isLetterLike c = false ∧ c ∉ [')', ']']
  | .start | .literal | .regex | .closer | .increment => token.text = []

theorem extend?_shaped {token longer : Token} {c : Char} (shaped : token.Shaped)
    (extends_ : token.extend? c = some longer) : longer.Shaped := by
  cases token with
  | word text property =>
    simp only [extend?, Option.ite_none_right_eq_some] at extends_
    obtain ⟨letter, same⟩ := extends_
    cases same
    exact Word.append shaped letter
  | number text =>
    simp only [extend?, Option.ite_none_right_eq_some] at extends_
    obtain ⟨goesOn, same⟩ := extends_
    cases same
    exact NumberText.append shaped goesOn
  | start | literal | regex | closer | increment | punct => cases extends_

theorem follow_shaped (token : Token) (c : Char) (glued : Bool) : (token.follow c glued).Shaped := by
  unfold follow
  split
  · rename_i digit
    split
    · exact NumberText.of_fraction digit
    · exact NumberText.of_digit digit
  · rename_i noDigit
    split
    · rename_i letter
      exact ⟨List.forall_mem_singleton.mpr letter, c, rfl, by simpa using noDigit⟩
    · rename_i noLetter
      split
      · rfl
      · rename_i opens
        split
        · rfl
        · exact ⟨rfl, by simpa using noLetter, by simpa using opens⟩

/-- A character goes on with the token, if it stands right behind it, or begins the next one. -/
theorem push_cases (token : Token) (c : Char) (glued : Bool) :
    glued = true ∧ token.extend? c = some (token.push c glued) ∨
      token.push c glued = token.follow c glued := by
  unfold push
  split
  · rename_i isGlued
    cases longer : token.extend? c with
    | none => exact .inr rfl
    | some longer => exact .inl ⟨isGlued, rfl⟩
  · exact .inr rfl

theorem push_shaped {token : Token} (shaped : token.Shaped) (c : Char) (glued : Bool) :
    (token.push c glued).Shaped := by
  rcases token.push_cases c glued with ⟨_, longer⟩ | begins
  · exact extend?_shaped shaped longer
  · rw [begins]
    exact token.follow_shaped c glued

theorem operate_shaped {token : Token} (shaped : token.Shaped) (operation : Operation) :
    (token.operate operation).Shaped := by
  cases operation with
  | push c glued => exact push_shaped shaped c glued
  | literal | regex => rfl

theorem foldl_operate_shaped {token : Token} (shaped : token.Shaped) (operations : List Operation) :
    (operations.foldl operate token).Shaped := by
  induction operations generalizing token with
  | nil => exact shaped
  | cons operation later ih => exact ih (operate_shaped shaped operation)

/-- A text of a number is taken in whole by a number that holds the first part of it. -/
theorem feed_numberText {before later : List Char} (begins : BeginsNumber before)
    (grown : Grown (before ++ later)) : feed (.number before) later = .number (before ++ later) := by
  induction later generalizing before with
  | nil => simp [feed]
  | cons c later ih =>
    have goesOn := (begins.numberGoesOn_iff c).mpr (grown before c later rfl)
    have pushed : push (.number before) c true = .number (before ++ [c]) := by
      simp [push, extend?, goesOn]
    have again : before ++ [c] ++ later = before ++ c :: later := by simp
    rw [feed_cons, pushed, ih (begins.append [c]) (again ▸ grown), again]

/-- A number is left behind when its characters are pushed, from the first one on. -/
theorem after_numberText {text : List Char} (number : NumberText text) :
    after (pushes false text) = .number text := by
  obtain ⟨begins, grown⟩ := numberText_iff.mp number
  rw [← List.nil_append (pushes false text), after_pushes]
  obtain ⟨c, later, digit, rfl | rfl⟩ := begins
  · have begun : push .start c false = .number [c] := by simp [push, follow, digit]
    have fed : feed (.number [c]) later = .number (c :: later) :=
      feed_numberText ⟨c, [], digit, .inl rfl⟩ grown
    rw [← fed, ← begun]
    rfl
  · have begun : push (.punct '.') c true = .number ['.', c] := by
      simp [push, extend?, follow, digit]
    have fed : feed (.number ['.', c]) later = .number ('.' :: c :: later) :=
      feed_numberText ⟨c, [], digit, .inr rfl⟩ grown
    rw [← fed, ← begun]
    rfl

theorem Shaped.reached {token : Token} (shaped : token.Shaped) :
    ∃ operations, after operations = token := by
  cases token with
  | start => exact ⟨[], rfl⟩
  | word text property =>
    have word : Word text := shaped
    cases property with
    | false =>
      refine ⟨[] ++ pushes false text, ?_⟩
      rw [after_pushes, spell_word word (fun glued => Bool.noConfusion glued)]
      rfl
    | true =>
      refine ⟨[.push '.' false] ++ pushes true text, ?_⟩
      rw [after_pushes, spell_word word (fun _ _ _ => rfl)]
      rfl
  | number text => exact ⟨pushes false text, after_numberText shaped⟩
  | literal => exact ⟨[.literal], rfl⟩
  | regex => exact ⟨[.regex], rfl⟩
  | closer => exact ⟨[.push ')' false], rfl⟩
  | increment => exact ⟨[.push '+' false, .push '+' true], rfl⟩
  | punct c =>
    obtain ⟨_, noLetter, noCloser⟩ := shaped
    have ends : Token.start.EndsBefore false [c] := fun glued => Bool.noConfusion glued
    exact ⟨[.push c false], ends.push_mark noLetter noCloser fun glued => Bool.noConfusion glued⟩

end Token

/-- The texts that the last token can hold, whatever it was told, are exactly the words and the
numbers of this shape. No other token holds any. -/
theorem token_reached_iff (token : Token) :
    (∃ operations, Token.after operations = token) ↔ token.Shaped := by
  constructor
  · rintro ⟨operations, rfl⟩
    have start : Token.start.Shaped := rfl
    exact Token.foldl_operate_shaped start operations
  · exact Token.Shaped.reached

end Elision
