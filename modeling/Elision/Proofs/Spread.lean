import Elision.Proofs.Numerals
import Elision.Proofs.Reads

namespace Elision

/-- What is asked of the last token before a slash, a dot or a sign is written. -/
structure Answers where
  opensRegex : Bool
  isPlainInteger : Bool
  absorbsPlus : Bool
  absorbsMinus : Bool
  deriving DecidableEq

namespace Token

def answers (token : Token) : Answers where
  opensRegex := token.opensRegex
  isPlainInteger := token.isPlainInteger
  absorbsPlus := token.absorbsSign '+'
  absorbsMinus := token.absorbsSign '-'

/-- The token behind a spread, which stands apart, and a text right behind it. -/
def behindSpread (token : Token) (text : List Char) : Token :=
  (((token.push '.' false).push '.' true).push '.' true).feed text

/-- The token behind a comma, which stands apart, and a text right behind it. -/
def behindComma (token : Token) (text : List Char) : Token :=
  (token.push ',' false).feed text

/-- The last of the three dots is recorded like the dot before the name of a property. -/
theorem behindSpread_eq (token : Token) (text : List Char) :
    token.behindSpread text = feed (.punct '.') text := rfl

theorem behindComma_eq (token : Token) (text : List Char) :
    token.behindComma text = feed (.punct ',') text := rfl

theorem feed_eq_spell (token : Token) (text : List Char) : token.feed text = token.spell true text := by
  cases text <;> rfl

theorem punct_endsBefore (c : Char) (glued : Bool) (text : List Char) :
    EndsBefore (.punct c) glued text :=
  fun _ _ _ => rfl

theorem answers_word (text : List Char) (property : Bool) :
    answers (.word text property) = ⟨!property && text ∈ operandKeywords, false, false, false⟩ := rfl

theorem answers_number (text : List Char) :
    answers (.number text) =
      ⟨false, Elision.isPlainInteger text, awaitsExponentSign text, awaitsExponentSign text⟩ := by
  simp [answers, opensRegex, isPlainInteger, absorbsSign]

theorem feed_punct_word {text : List Char} (word : Word text) (c : Char) :
    feed (.punct c) text = .word text (c = '.') := by
  rw [feed_eq_spell, spell_word word (punct_endsBefore c true text)]
  simp

theorem behindComma_literal {text : List Char} (literal : NumericLiteral text) (token : Token) :
    token.behindComma text = .number text := by
  rw [behindComma_eq, feed_eq_spell]
  exact literal.spell (punct_endsBefore ',' true text) (fun _ => by decide)

end Token

/-- The words and numbers that are read otherwise right behind a spread than behind a comma. -/
inductive Misread : List Char → Prop
  /-- It is taken for the name of a property, so that a slash behind it divides. -/
  | keyword {text} : text ∈ operandKeywords → Misread text
  /-- It is taken for a fraction, which needs no second dot before a property. -/
  | integer {text} : DigitRun text → ¬OctalRun text → Misread text
  /-- Its decimal point is taken for the dot before a property, behind which a slash opens a regular
  expression. -/
  | point {whole} : DigitRun whole → Misread (whole ++ ['.'])
  /-- Its exponent is taken for a name, a sign and an integer. -/
  | exponent {whole e sign digits} : DigitRun whole → e ∈ ['e', 'E'] → sign ∈ ['+', '-'] →
      DigitRun digits → ¬OctalRun digits → Misread (whole ++ '.' :: e :: sign :: digits)
  /-- Its mark is no longer in front, so that its last digit is taken for the start of an exponent. -/
  | hexadecimal {mark digits e} : mark ∈ ['x', 'X'] →
      (∀ d ∈ digits, d.isAlphanum = true ∨ d = '_') → digits.getLast? = some e → e ∈ ['e', 'E'] →
      Misread ('0' :: mark :: digits)

section Awaiting

variable {text : List Char} {c : Char}

theorem awaitsExponentSign_eq_false (atEnd : text.getLast? = some c) (other : c ∉ ['e', 'E']) :
    awaitsExponentSign text = false := by
  simp only [List.mem_cons, List.not_mem_nil, or_false, not_or] at other
  simp [awaitsExponentSign, atEnd, other]

/-- A dot in front hides the mark of a hexadecimal number, and nothing else. -/
theorem awaitsExponentSign_dot (noHex : ¬IsHex text) :
    awaitsExponentSign ('.' :: text) = awaitsExponentSign text := by
  have noHexBehind : ¬IsHex ('.' :: text) := by
    rintro (⟨_, same⟩ | ⟨_, same⟩) <;> cases same
  have sameEnd : (('.' :: text).getLast? = some 'e' ∨ ('.' :: text).getLast? = some 'E') ↔
      (text.getLast? = some 'e' ∨ text.getLast? = some 'E') := by
    cases text with
    | nil => simp
    | cons d text => simp [List.getLast?_cons_cons]
  rw [Bool.eq_iff_iff, awaitsExponentSign_iff, awaitsExponentSign_iff, sameEnd]
  simp [noHex, noHexBehind]

theorem awaitsExponentSign_hex {mark : Char} (hex : mark ∈ ['x', 'X']) :
    awaitsExponentSign ('0' :: mark :: text) = false := by
  simp only [List.mem_cons, List.not_mem_nil, or_false] at hex
  rcases hex with rfl | rfl <;> rfl

/-- Digits are no start of an exponent. -/
theorem DigitRun.awaits_behind {digits : List Char} (run : DigitRun digits) (atEnd : digits <:+ text) :
    awaitsExponentSign text = false := by
  obtain ⟨d, atLast⟩ : ∃ d, digits.getLast? = some d := by
    obtain ⟨_, _⟩ := run
    exact ⟨_, List.getLast?_cons⟩
  have isDigit := run.digit_of_mem (List.mem_of_getLast? atLast)
  obtain ⟨front, rfl⟩ := atEnd
  have behind : (front ++ digits).getLast? = some d := by simp [List.getLast?_append, atLast]
  refine awaitsExponentSign_eq_false behind ?_
  intro isE
  simp only [List.mem_cons, List.not_mem_nil, or_false] at isE
  rcases isE with rfl | rfl <;> simp at isDigit

/-- With its exponent or without, a number ends in digits. -/
theorem Exponent.ends {digits exponent : List Char} (atExponent : Exponent exponent)
    (run : DigitRun digits) : ∃ last, DigitRun last ∧ last <:+ digits ++ exponent := by
  cases atExponent with
  | none => exact ⟨digits, run, by simp⟩
  | @plain e last _ inner => exact ⟨last, inner, digits ++ [e], by simp⟩
  | @signed e sign last _ _ inner => exact ⟨last, inner, digits ++ [e, sign], by simp⟩

end Awaiting

theorem noDigit_of_exponent {e : Char} (isE : e ∈ ['e', 'E']) :
    (e.isDigit || e = '_') = false := by
  simp only [List.mem_cons, List.not_mem_nil, or_false] at isE
  rcases isE with rfl | rfl <;> rfl

theorem NumericLiteral.not_word {text : List Char} (literal : NumericLiteral text) : ¬Word text := by
  rintro ⟨letters, first, atFirst, noDigit⟩
  obtain ⟨c, later, rfl, begins, _⟩ := literal.numeral.spellsNumber
  cases atFirst
  rcases begins with digit | rfl
  · rw [digit] at noDigit
    cases noDigit
  · cases letters '.' List.mem_cons_self

namespace Token

/-- A number with a decimal point is no plain integer, and its last digit is no start of an exponent. -/
theorem answers_pointed {text digits : List Char} (point : '.' ∈ text) (run : DigitRun digits)
    (atEnd : digits <:+ text) : answers (.number text) = ⟨false, false, false, false⟩ := by
  rw [answers_number, isPlainInteger_eq_false point rfl, run.awaits_behind atEnd]

theorem answers_dot_number {text : List Char} (noInteger : Elision.isPlainInteger text = false)
    (same : awaitsExponentSign ('.' :: text) = awaitsExponentSign text) :
    answers (.number ('.' :: text)) = answers (.number text) := by
  rw [answers_number, answers_number, noInteger, same,
    isPlainInteger_eq_false (d := '.') List.mem_cons_self rfl]

/-- Behind a dot, a number that has no point of its own takes the dot for one. -/
theorem feed_dot_number {text later : List Char} (run : DigitRun text)
    (stays : feed (.number ('.' :: text)) later = .number ('.' :: text ++ later)) :
    feed (.punct '.') (text ++ later) = .number ('.' :: (text ++ later)) := by
  rw [feed_fraction run, stays]
  rfl

/-- Its own point is then the second one, and ends it. -/
theorem feed_dot_point {text : List Char} (run : DigitRun text) (later : List Char) :
    feed (.punct '.') (text ++ '.' :: later) = feed (.punct '.') later := by
  rw [feed_fraction run, feed_cons, push_dot (d := '.') List.mem_cons_self List.mem_cons_self]

/-- An exponent with a sign behind a dot is a name, a sign and a number. -/
theorem feed_dot_exponent {e sign : Char} {digits : List Char} (isE : e ∈ ['e', 'E'])
    (isSign : sign ∈ ['+', '-']) (run : DigitRun digits) :
    feed (.punct '.') (e :: sign :: digits) = .number digits := by
  have begins : push (push (.punct '.') e true) sign true = .punct sign := by
    simp only [List.mem_cons, List.not_mem_nil, or_false] at isE isSign
    rcases isE with rfl | rfl <;> rcases isSign with rfl | rfl <;> rfl
  have noPoint : Token.punct sign ≠ .punct '.' := by
    rintro ⟨⟩
    simp at isSign
  have spelled : spell (.punct sign) true (digits ++ []) = .number digits :=
    spell_digits run (punct_endsBefore sign true _) fun _ => noPoint
  rw [List.append_nil] at spelled
  rw [feed_cons, feed_cons, begins, feed_eq_spell, spelled]

theorem feed_dot_based {mark : Char} {digits : List Char}
    (isMark : mark ∈ ['x', 'X', 'o', 'O', 'b', 'B'])
    (others : ∀ d ∈ digits, d.isAlphanum = true ∨ d = '_') :
    feed (.punct '.') ('0' :: mark :: digits) = .number ('.' :: '0' :: mark :: digits) :=
  feed_dot_number (DigitRun.single rfl) (feed_number (based_letters isMark others) ['.', '0'])

end Token

section BehindDot

variable {whole exponent : List Char}

theorem answers_dot_integer (run : DigitRun whole) (atExponent : Exponent exponent)
    (clear : ¬Misread (whole ++ exponent)) :
    (Token.feed (.punct '.') (whole ++ exponent)).answers =
      (Token.number (whole ++ exponent)).answers := by
  have stays := Token.feed_exponent atExponent (unmarked_point.append run.unmarked)
  obtain ⟨last, inner, atEnd⟩ := atExponent.ends run
  have noInteger : isPlainInteger (whole ++ exponent) = false := by
    cases atExponent with
    | none =>
      rw [List.append_nil] at clear ⊢
      rw [← Bool.not_eq_true, run.isPlainInteger_iff]
      exact fun noOctal => clear (.integer run noOctal)
    | plain isE _ => exact isPlainInteger_eq_false (by simp) (noDigit_of_exponent isE)
    | signed isE _ _ => exact isPlainInteger_eq_false (by simp) (noDigit_of_exponent isE)
  rw [Token.feed_dot_number run stays]
  refine Token.answers_dot_number noInteger ?_
  rw [inner.awaits_behind atEnd, inner.awaits_behind (atEnd.trans (List.suffix_cons '.' _))]

theorem answers_dot_trailingPoint (run : DigitRun whole) (atExponent : Exponent exponent)
    (clear : ¬Misread (whole ++ '.' :: exponent)) :
    (Token.feed (.punct '.') (whole ++ '.' :: exponent)).answers =
      (Token.number (whole ++ '.' :: exponent)).answers := by
  rw [Token.feed_dot_point run]
  cases atExponent with
  | none => exact absurd (Misread.point run) clear
  | @plain e digits isE inner =>
    have letters : ∀ c ∈ e :: digits, isLetterLike c = true :=
      List.forall_mem_cons.mpr ⟨isLetterLike_of_exponent isE, inner.letters⟩
    have noDigit : e.isDigit = false := (Bool.or_eq_false_iff.mp (noDigit_of_exponent isE)).1
    have atEnd : digits <:+ whole ++ '.' :: e :: digits := ⟨whole ++ ['.', e], by simp⟩
    rw [Token.feed_punct_word ⟨letters, e, rfl, noDigit⟩, Token.answers_pointed (by simp) inner atEnd]
    rfl
  | @signed e sign digits isE isSign inner =>
    have atEnd : digits <:+ whole ++ '.' :: e :: sign :: digits := ⟨whole ++ ['.', e, sign], by simp⟩
    have noInteger : isPlainInteger digits = false := by
      rw [← Bool.not_eq_true, inner.isPlainInteger_iff]
      exact fun noOctal => clear (.exponent run isE isSign inner noOctal)
    rw [Token.feed_dot_exponent isE isSign inner, Token.answers_pointed (by simp) inner atEnd,
      Token.answers_number, noInteger, inner.awaits_behind List.suffix_rfl]

/-- The last digit of a hexadecimal number is no start of an exponent, unless a dot hides the mark. -/
theorem awaitsExponentSign_based {mark : Char} {digits : List Char}
    (others : ∀ d ∈ digits, d.isAlphanum = true ∨ d = '_')
    (clear : ¬Misread ('0' :: mark :: digits)) :
    awaitsExponentSign ('.' :: '0' :: mark :: digits) =
      awaitsExponentSign ('0' :: mark :: digits) := by
  by_cases hex : mark ∈ ['x', 'X']
  · rw [awaitsExponentSign_hex hex]
    cases atEnd : digits.getLast? with
    | none =>
      have behind : ('.' :: '0' :: mark :: digits).getLast? = some mark := by
        simp [List.getLast?_cons, atEnd]
      refine awaitsExponentSign_eq_false behind ?_
      simp only [List.mem_cons, List.not_mem_nil, or_false] at hex
      rcases hex with rfl | rfl <;> decide
    | some e =>
      have behind : ('.' :: '0' :: mark :: digits).getLast? = some e := by
        simp [List.getLast?_cons, atEnd]
      exact awaitsExponentSign_eq_false behind fun isE => clear (.hexadecimal hex others atEnd isE)
  · refine awaitsExponentSign_dot ?_
    rintro (⟨_, same⟩ | ⟨_, same⟩) <;> cases same <;> simp at hex

/-- A number that is not misread gives the same answers behind a dot as it does by itself. -/
theorem NumericLiteral.answers_behind_dot {text : List Char} (literal : NumericLiteral text)
    (clear : ¬Misread text) : (Token.feed (.punct '.') text).answers = (Token.number text).answers := by
  cases literal.numeral with
  | integer run exponent => exact answers_dot_integer run exponent clear
  | trailingPoint run exponent => exact answers_dot_trailingPoint run exponent clear
  | @fraction whole digits exponent run inner atExponent =>
    have stays := Token.feed_exponent atExponent (unmarked_point.append inner.unmarked)
    obtain ⟨last, lastRun, atEnd⟩ := atExponent.ends inner
    have atWhole : digits ++ exponent <:+ whole ++ '.' :: (digits ++ exponent) :=
      ⟨whole ++ ['.'], by simp⟩
    rw [Token.feed_dot_point run, Token.feed_dot_number inner stays,
      Token.answers_pointed (by simp) lastRun (atEnd.trans atWhole),
      Token.answers_pointed (by simp) lastRun (atEnd.trans (List.suffix_cons '.' _))]
  | leadingPoint run exponent =>
    -- The first dot of the number only takes the place of the dot before it.
    have stays := Token.feed_exponent exponent (unmarked_point.append run.unmarked)
    exact congrArg Token.answers (Token.feed_dot_number run stays)
  | @bigInt whole run =>
    have stays : Token.feed (.number ('.' :: whole)) ['n'] = .number ('.' :: whole ++ ['n']) :=
      Token.feed_number (List.forall_mem_singleton.mpr rfl) _
    have unmarked : Unmarked (whole ++ ['n']) := run.unmarked.append (by simp [Unmarked])
    rw [Token.feed_dot_number run stays]
    refine Token.answers_dot_number ?_ (awaitsExponentSign_dot unmarked.not_isHex)
    exact isPlainInteger_eq_false (d := 'n') (by simp) rfl
  | @based mark digits isMark others =>
    have noDigit : (mark.isDigit || mark = '_') = false := by
      have all : ['x', 'X', 'o', 'O', 'b', 'B'].all (fun c => !(c.isDigit || c = '_')) = true := rfl
      simpa using List.all_eq_true.mp all mark isMark
    rw [Token.feed_dot_based isMark others]
    refine Token.answers_dot_number ?_ (awaitsExponentSign_based others clear)
    exact isPlainInteger_eq_false (by simp) noDigit

/-- A number that is misread gives one wrong answer. -/
theorem NumericLiteral.answers_ne_of_misread {text : List Char} (literal : NumericLiteral text)
    (misread : Misread text) :
    (Token.feed (.punct '.') text).answers ≠ (Token.number text).answers := by
  cases misread with
  | keyword keyword => exact absurd (word_of_keyword keyword) literal.not_word
  | integer run noOctal =>
    have spelled := Token.feed_fraction run []
    rw [List.append_nil] at spelled
    rw [spelled, Token.answers_number, run.isPlainInteger_iff.mpr noOctal]
    intro same
    have integer : isPlainInteger ('.' :: text) = true := congrArg Answers.isPlainInteger same
    rw [isPlainInteger_eq_false (d := '.') List.mem_cons_self rfl] at integer
    cases integer
  | point run =>
    rw [Token.feed_dot_point run]
    intro same
    cases congrArg Answers.opensRegex same
  | @exponent whole e sign digits run isE isSign inner noOctal =>
    have atEnd : digits <:+ whole ++ '.' :: e :: sign :: digits := ⟨whole ++ ['.', e, sign], by simp⟩
    rw [Token.feed_dot_point run, Token.feed_dot_exponent isE isSign inner,
      Token.answers_pointed (by simp) inner atEnd]
    intro same
    have integer : isPlainInteger digits = false := congrArg Answers.isPlainInteger same
    rw [inner.isPlainInteger_iff.mpr noOctal] at integer
    cases integer
  | @hexadecimal mark digits e hex others atEnd isE =>
    have isMark : mark ∈ ['x', 'X', 'o', 'O', 'b', 'B'] := List.mem_append_left _ hex
    have hidden : awaitsExponentSign ('.' :: '0' :: mark :: digits) = true := by
      simp only [List.mem_cons, List.not_mem_nil, or_false] at isE
      rcases isE with rfl | rfl <;>
        simp [awaitsExponentSign, List.getLast?_cons, atEnd, List.isPrefixOf]
    rw [Token.feed_dot_based isMark others, Token.answers_number, Token.answers_number,
      awaitsExponentSign_hex hex, hidden]
    intro same
    cases congrArg Answers.absorbsPlus same

end BehindDot

/-- Of the words only keywords are misread: the others among these texts begin with a digit. -/
theorem Misread.keyword_of_word {text : List Char} (misread : Misread text) (word : Word text) :
    text ∈ operandKeywords := by
  obtain ⟨_, c, atFirst, noDigit⟩ := word
  have noRun {digits later : List Char} (run : DigitRun digits) (front : digits ++ later = text) :
      False := by
    obtain ⟨digit, _⟩ := run
    subst front
    cases atFirst
    rw [digit] at noDigit
    cases noDigit
  cases misread with
  | keyword keyword => exact keyword
  | integer run _ => exact absurd (List.append_nil text) (noRun run)
  | point run => exact absurd rfl (noRun run)
  | exponent run _ _ _ _ => exact absurd rfl (noRun run)
  | hexadecimal _ _ _ _ =>
    cases atFirst
    cases noDigit

/-- A spread is like a comma for the token right behind it, exactly if this is none of the words and
numbers that a dot before them changes. -/
theorem spread_like_comma_iff (token : Token) (text : List Char)
    (isToken : Word text ∨ NumericLiteral text) :
    (token.behindSpread text).answers = (token.behindComma text).answers ↔ ¬Misread text := by
  rcases isToken with word | literal
  · have misread_iff : Misread text ↔ text ∈ operandKeywords :=
      ⟨fun misread => misread.keyword_of_word word, Misread.keyword⟩
    rw [Token.behindSpread_eq, Token.behindComma_eq, Token.feed_punct_word word,
      Token.feed_punct_word word, Token.answers_word, Token.answers_word, misread_iff]
    simp
  · rw [Token.behindSpread_eq, Token.behindComma_literal literal]
    constructor
    · intro same misread
      exact literal.answers_ne_of_misread misread same
    · exact literal.answers_behind_dot

/-- A number with a fraction is read in the same way, a keyword is not. -/
theorem spread_like_comma_iff_fraction :
    NumericLiteral "1.5e-3".toList ∧ ¬Misread "1.5e-3".toList ∧ Word "typeof".toList ∧
      (Token.closer.behindSpread "typeof".toList).answers ≠
        (Token.closer.behindComma "typeof".toList).answers := by
  have numeral : Numeral "1.5e-3".toList :=
    .fraction (.single rfl) (.single rfl) (.signed (by decide) (by decide) (.single rfl))
  have literal : NumericLiteral "1.5e-3".toList := numeral.literal (by decide)
  have keyword : "typeof".toList ∈ operandKeywords := by decide
  have word := word_of_keyword keyword
  refine ⟨literal, ?_, word, ?_⟩
  · exact (spread_like_comma_iff .closer "1.5e-3".toList (.inr literal)).mp rfl
  · intro same
    exact (spread_like_comma_iff .closer "typeof".toList (.inl word)).mp same (.keyword keyword)

/-- Behind a spread, the dot of a property becomes the decimal point of the integer before it, and the
quote in a regular expression opens a string. -/
theorem spread_unlike_comma :
    minify "f(1 .x)" = .ok "\nf(1..x)" ∧ minify "f(...1 .x)" = .ok "\nf(...1.x)" ∧
      minify "f(typeof /'/)" = .ok "\nf(typeof/'/)" ∧
      minify "f(...typeof /'/)" = .error ⟨.string, ⟨13, 1, 14⟩⟩ ∧
      ¬∀ (token : Token) (text : List Char), Word text ∨ NumericLiteral text →
        (token.behindSpread text).answers = (token.behindComma text).answers := by
  refine ⟨?_, ?_, ?_, ?_, ?_⟩
  · exact minify_eq_ok_iff.mpr (by decide +kernel)
  · exact minify_eq_ok_iff.mpr (by decide +kernel)
  · exact minify_eq_ok_iff.mpr (by decide +kernel)
  · exact minify_eq_error_iff.mpr ⟨⟨.string, "'/)".toList⟩, by decide +kernel, by decide +kernel⟩
  · intro same
    have keyword : "typeof".toList ∈ operandKeywords := by decide
    have answers := same .start "typeof".toList (.inl (word_of_keyword keyword))
    exact absurd answers (by decide)

end Elision
