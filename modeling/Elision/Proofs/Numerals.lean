import Elision.Proofs.Spelling

namespace Elision

/-- Octal digits behind a zero: an octal number in the old spelling. -/
def OctalRun (text : List Char) : Prop :=
  ∃ digits, text = '0' :: digits ∧ digits ≠ [] ∧ ∀ d ∈ digits, d.isDigit = true ∧ d ≤ '7'

/-- The text of a numeric literal. An octal number in the old spelling takes no decimal point, so that
a dot behind it belongs to what follows. -/
structure NumericLiteral (text : List Char) : Prop where
  numeral : Numeral text
  noOctalPoint : ∀ whole later, text = whole ++ '.' :: later → ¬OctalRun whole

/-- Only a number that begins with a zero may be octal. -/
theorem Numeral.literal {c : Char} {text : List Char} (numeral : Numeral (c :: text))
    (noZero : c ≠ '0') : NumericLiteral (c :: text) := by
  refine ⟨numeral, ?_⟩
  rintro whole later split ⟨digits, rfl, _⟩
  exact noZero (List.cons.inj split).1

/-- The text of a word, keyword or not. -/
structure Word (text : List Char) : Prop where
  letters : ∀ c ∈ text, isLetterLike c = true
  first : ∃ c ∈ text.head?, c.isDigit = false

theorem word_of_keyword {text : List Char} (keyword : text ∈ operandKeywords) : Word text := by
  have all : operandKeywords.all (fun text => text.all isLetterLike &&
      text.head?.any (fun c => !c.isDigit)) = true := by decide
  have here := List.all_eq_true.mp all text keyword
  simp only [Bool.and_eq_true, List.all_eq_true, Option.any_eq_true, Bool.not_eq_true'] at here
  exact ⟨here.1, here.2⟩

theorem DigitRun.single {c : Char} (digit : c.isDigit = true) : DigitRun [c] :=
  .mk digit (by simp)

theorem DigitRun.digit_of_mem {text : List Char} (run : DigitRun text) {c : Char} (member : c ∈ text) :
    c.isDigit = true ∨ c = '_' := by
  obtain ⟨digit, others⟩ := run
  rcases List.mem_cons.mp member with rfl | later
  · exact .inl digit
  · exact others c later

theorem DigitRun.isLegacyOctal_iff {text : List Char} (run : DigitRun text) :
    isLegacyOctal text = true ↔ OctalRun text := by
  obtain @⟨c, digits, digit, others⟩ := run
  constructor
  · intro octal
    simp only [isLegacyOctal, Bool.and_eq_true, decide_eq_true_eq, List.all_cons, List.head?_cons,
      List.length_cons, Option.some.injEq, List.all_eq_true] at octal
    obtain ⟨⟨long, rfl⟩, _, small⟩ := octal
    refine ⟨digits, rfl, List.ne_nil_of_length_pos (by omega), ?_⟩
    intro d member
    refine ⟨?_, small d member⟩
    rcases others d member with isDigit | rfl
    · exact isDigit
    · exact absurd (small '_' member) (by decide)
  · rintro ⟨digits, same, nonempty, small⟩
    obtain ⟨rfl, rfl⟩ := List.cons.inj same
    have long : 0 < digits.length := List.length_pos_iff.mpr nonempty
    have all : digits.all (· ≤ '7') = true := by simpa using fun d member => (small d member).2
    simp [isLegacyOctal, all, long]

/-- A dot behind digits is their decimal point unless they are octal. -/
theorem DigitRun.isPlainInteger_iff {text : List Char} (run : DigitRun text) :
    isPlainInteger text = true ↔ ¬OctalRun text := by
  rw [← run.isLegacyOctal_iff]
  obtain ⟨digit, others⟩ := run
  simpa [isPlainInteger, digit] using fun _ => others

/-- The mark of a hexadecimal number stands nowhere in the text. -/
def Unmarked (text : List Char) : Prop :=
  ∀ c ∈ text, c ∉ ['x', 'X']

theorem Unmarked.not_isHex {text : List Char} (unmarked : Unmarked text) : ¬IsHex text := by
  rintro (⟨rest, rfl⟩ | ⟨rest, rfl⟩)
  · exact unmarked 'x' (by simp) (by simp)
  · exact unmarked 'X' (by simp) (by simp)

theorem Unmarked.append {text later : List Char} (unmarked : Unmarked text)
    (alsoLater : Unmarked later) : Unmarked (text ++ later) :=
  List.forall_mem_append.mpr ⟨unmarked, alsoLater⟩

theorem DigitRun.unmarked {text : List Char} (run : DigitRun text) : Unmarked text := by
  intro c member mark
  have digit := run.digit_of_mem member
  simp only [List.mem_cons, List.not_mem_nil, or_false] at mark
  rcases mark with rfl | rfl <;> simp at digit

theorem unmarked_of_mem {e : Char} (isE : e ∈ ['e', 'E']) : Unmarked [e] := by
  simp only [List.mem_cons, List.not_mem_nil, or_false] at isE
  rcases isE with rfl | rfl <;> simp [Unmarked]

theorem unmarked_point : Unmarked ['.'] := by
  simp [Unmarked]

namespace Token

/-- The token behind a whole text, of which only the first character may stand apart. -/
def spell (token : Token) (glued : Bool) : List Char → Token
  | [] => token
  | c :: text => (token.push c glued).feed text

/-- The token does not go on with the text: something was elided, or the first character is none that
it takes. -/
def EndsBefore (token : Token) (glued : Bool) (text : List Char) : Prop :=
  glued = true → ∀ c ∈ text.head?, token.extend? c = none

section Spell

variable {token : Token} {glued : Bool} {c : Char} {text later : List Char}

theorem EndsBefore.push_eq (ends : token.EndsBefore glued (c :: text)) :
    token.push c glued = token.follow c glued := by
  cases glued with
  | false => rfl
  | true => simp [push, ends rfl c rfl]

/-- A mark of its own, unless it doubles a sign. -/
theorem EndsBefore.push_mark (ends : token.EndsBefore glued (c :: text))
    (noLetter : isLetterLike c = false) (noCloser : c ∉ [')', ']'])
    (single : glued = true → c ∈ ['+', '-'] → token ≠ .punct c) : token.push c glued = .punct c := by
  have noDigit : c.isDigit = false := by
    cases digit : c.isDigit with
    | false => rfl
    | true =>
      rw [isLetterLike_of_isDigit digit] at noLetter
      cases noLetter
  have opens : ¬(c = ')' ∨ c = ']') := by simpa using noCloser
  have noIncrement : ¬(((c = '+' ∨ c = '-') ∧ glued = true) ∧ token = .punct c) := by
    rintro ⟨⟨sign, isGlued⟩, same⟩
    exact single isGlued (by simpa using sign) same
  rw [ends.push_eq]
  simp [follow, noDigit, noLetter, opens, noIncrement]

theorem spell_word (word : Word text) (ends : token.EndsBefore glued text) :
    token.spell glued text = .word text (token = .punct '.') := by
  obtain ⟨letters, c, atFirst, noDigit⟩ := word
  obtain ⟨text, rfl⟩ := List.head?_eq_some_iff.mp atFirst
  obtain ⟨letter, letters⟩ := List.forall_mem_cons.mp letters
  rw [spell, ends.push_eq]
  simp [follow, noDigit, letter, feed_word letters]

/-- The digits that a number begins with are its text so far. -/
theorem spell_digits (run : DigitRun text) (ends : token.EndsBefore glued (text ++ later))
    (noPoint : glued = true → token ≠ .punct '.') :
    token.spell glued (text ++ later) = feed (.number text) later := by
  have letters := run.letters
  obtain @⟨c, digits, digit, _⟩ := run
  rw [List.cons_append] at ends ⊢
  have begins : token.push c glued = .number [c] := by
    rw [ends.push_eq]
    simpa [follow, digit] using noPoint
  rw [spell, begins, feed_append, feed_number (List.forall_mem_cons.mp letters).2]
  rfl

theorem feed_point (plain : Elision.isPlainInteger text = true) (later : List Char) :
    feed (.number text) ('.' :: later) = feed (.number (text ++ ['.'])) later := by
  have goesOn : numberGoesOn text '.' = true := by simpa [numberGoesOn] using plain
  rw [feed_cons]
  simp [push, extend?, goesOn]

/-- A number takes its exponent, sign included, unless it is hexadecimal. -/
theorem feed_exponent (exponent : Exponent later) (unmarked : Unmarked text) :
    feed (.number text) later = .number (text ++ later) := by
  cases exponent with
  | none => simp [feed]
  | plain isE run =>
    refine feed_number (List.forall_mem_cons.mpr ⟨?_, run.letters⟩) text
    exact isLetterLike_of_exponent isE
  | @signed e sign digits isE isSign run =>
    have noHex : ¬IsHex (text ++ [e]) := (unmarked.append (unmarked_of_mem isE)).not_isHex
    have awaits : awaitsExponentSign (text ++ [e]) = true :=
      awaitsExponentSign_iff.mpr ⟨noHex, by simpa using isE⟩
    have goesOn : numberGoesOn (text ++ [e]) sign = true := by
      simp only [List.mem_cons, List.not_mem_nil, or_false] at isSign
      rcases isSign with rfl | rfl <;> simpa [numberGoesOn] using awaits
    rw [feed_cons, push_letter (isLetterLike_of_exponent isE), feed_cons]
    simp [push, extend?, goesOn, feed_number run.letters]

/-- A dot and the digits right behind it are a number. -/
theorem feed_fraction (run : DigitRun text) (later : List Char) :
    feed (.punct '.') (text ++ later) = feed (.number ('.' :: text)) later := by
  have letters := run.letters
  obtain @⟨c, digits, digit, _⟩ := run
  have begins : push (.punct '.') c true = .number ['.', c] := by
    simp [push, extend?, follow, digit]
  rw [List.cons_append, feed_cons, begins, feed_append,
    feed_number (List.forall_mem_cons.mp letters).2]
  rfl

end Spell

end Token

theorem NumericLiteral.plain_of_point {whole later : List Char}
    (literal : NumericLiteral (whole ++ '.' :: later)) (run : DigitRun whole) :
    isPlainInteger whole = true :=
  run.isPlainInteger_iff.mpr (literal.noOctalPoint whole later rfl)

/-- A numeric literal is one token, whatever stands before it, unless a dot there becomes its decimal
point. -/
theorem NumericLiteral.spell {text : List Char} (literal : NumericLiteral text) {token : Token}
    {glued : Bool} (ends : token.EndsBefore glued text) (noPoint : glued = true → token ≠ .punct '.') :
    token.spell glued text = .number text := by
  cases literal.numeral with
  | integer run exponent =>
    rw [Token.spell_digits run ends noPoint]
    exact Token.feed_exponent exponent run.unmarked
  | trailingPoint run exponent =>
    rw [Token.spell_digits run ends noPoint, Token.feed_point (literal.plain_of_point run),
      Token.feed_exponent exponent (run.unmarked.append unmarked_point), List.append_assoc]
    rfl
  | @fraction whole digits exponent run inner atExponent =>
    have unmarked := (run.unmarked.append unmarked_point).append inner.unmarked
    rw [Token.spell_digits run ends noPoint, Token.feed_point (literal.plain_of_point run),
      Token.feed_append, Token.feed_number inner.letters, Token.feed_exponent atExponent unmarked]
    simp
  | @leadingPoint digits exponent run atExponent =>
    have begins : token.push '.' glued = .punct '.' :=
      ends.push_mark rfl (by decide) fun _ isSign => absurd isSign (by decide)
    rw [Token.spell, begins, Token.feed_fraction run]
    exact Token.feed_exponent atExponent (unmarked_point.append run.unmarked)
  | bigInt run =>
    rw [Token.spell_digits run ends noPoint]
    exact Token.feed_number (List.forall_mem_singleton.mpr rfl) _
  | @based mark digits isMark others =>
    have spelled := Token.spell_digits (DigitRun.single rfl) ends noPoint
    exact spelled.trans (Token.feed_number (based_letters isMark others) ['0'])

end Elision
