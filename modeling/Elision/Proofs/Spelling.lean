import Elision.Proofs.Fusion

namespace Elision

/-- Decimal digits. Underscores may stand behind the first. -/
inductive DigitRun : List Char → Prop
  | mk {c digits} : c.isDigit = true → (∀ d ∈ digits, d.isDigit = true ∨ d = '_') →
      DigitRun (c :: digits)

/-- The exponent of a number, if it has one. -/
inductive Exponent : List Char → Prop
  | none : Exponent []
  | plain {e digits} : e ∈ ['e', 'E'] → DigitRun digits → Exponent (e :: digits)
  | signed {e sign digits} : e ∈ ['e', 'E'] → sign ∈ ['+', '-'] → DigitRun digits →
      Exponent (e :: sign :: digits)

/-- The text of a numeric literal. Digits that its base does not have are let in. -/
inductive Numeral : List Char → Prop
  | integer {whole exponent} : DigitRun whole → Exponent exponent → Numeral (whole ++ exponent)
  | trailingPoint {whole exponent} : DigitRun whole → Exponent exponent →
      Numeral (whole ++ '.' :: exponent)
  | fraction {whole digits exponent} : DigitRun whole → DigitRun digits → Exponent exponent →
      Numeral (whole ++ '.' :: (digits ++ exponent))
  | leadingPoint {digits exponent} : DigitRun digits → Exponent exponent →
      Numeral ('.' :: (digits ++ exponent))
  | bigInt {whole} : DigitRun whole → Numeral (whole ++ ['n'])
  /-- Digits of another base, with the suffix of a big integer or without. -/
  | based {mark digits} : mark ∈ ['x', 'X', 'o', 'O', 'b', 'B'] →
      (∀ d ∈ digits, d.isAlphanum = true ∨ d = '_') → Numeral ('0' :: mark :: digits)

/-- The characters of an identifier. An escape has four digits behind it; one in braces is left out. -/
inductive IdentifierRun : List Char → Prop
  | done : IdentifierRun []
  | letter {c text} : isLetterLike c = true → c ≠ '\\' → isLineTerminator c = false →
      IdentifierRun text → IdentifierRun (c :: text)
  | escape {digits text} : digits.length = 4 → (∀ d ∈ digits, d.isAlphanum = true) →
      IdentifierRun text → IdentifierRun ('\\' :: 'u' :: (digits ++ text))

/-- The text of an identifier that is not one of the words before an operand. -/
structure Identifier (text : List Char) : Prop where
  run : IdentifierRun text
  first : ∃ c ∈ text.head?, c.isDigit = false
  noKeyword : text ∉ operandKeywords

namespace Token

/-- The token behind characters that stand right behind it. -/
def feed (token : Token) (text : List Char) : Token :=
  text.foldl (fun token c => token.push c true) token

@[simp] theorem feed_cons (token : Token) (c : Char) (text : List Char) :
    token.feed (c :: text) = (token.push c true).feed text := rfl

theorem feed_append (token : Token) (before after : List Char) :
    token.feed (before ++ after) = (token.feed before).feed after :=
  List.foldl_append

/-- The token is not one of the words before an operand. A property is none of them. -/
def NoKeyword (token : Token) : Prop :=
  ∀ text, token = .word text false → text ∉ operandKeywords

/-- The tokens between two characters of a number: the number itself, a dot, or the name of a property
if the dot could not be its decimal point. -/
def Numeric : Token → Prop
  | .number _ => True
  | .word _ property => property = true
  | .punct c => c = '.'
  | _ => False

theorem Numeric.noKeyword {token : Token} (numeric : token.Numeric) : token.NoKeyword := by
  rintro text rfl
  cases numeric

theorem push_word {c : Char} (letter : isLetterLike c = true) (text : List Char) (property : Bool) :
    push (.word text property) c true = .word (text ++ [c]) property := by
  simp [push, extend?, letter]

theorem feed_number {letters : List Char} (spelled : ∀ c ∈ letters, isLetterLike c = true)
    (text : List Char) : feed (.number text) letters = .number (text ++ letters) := by
  induction letters generalizing text with
  | nil => simp [feed]
  | cons c letters ih =>
    obtain ⟨letter, spelled⟩ := List.forall_mem_cons.mp spelled
    rw [feed_cons, push_letter letter, ih spelled, List.append_assoc]
    rfl

theorem feed_word {letters : List Char} (spelled : ∀ c ∈ letters, isLetterLike c = true)
    (text : List Char) (property : Bool) :
    feed (.word text property) letters = .word (text ++ letters) property := by
  induction letters generalizing text with
  | nil => simp [feed]
  | cons c letters ih =>
    obtain ⟨letter, spelled⟩ := List.forall_mem_cons.mp spelled
    rw [feed_cons, push_word letter, ih spelled, List.append_assoc]
    rfl

theorem Numeric.push_of_letter {token : Token} {c : Char} (numeric : token.Numeric)
    (letter : isLetterLike c = true) : (token.push c true).Numeric := by
  cases token with
  | number text => simp [push_letter letter, Numeric]
  | word text property => simpa [push_word letter, Numeric] using numeric
  | punct d =>
    have isDot : d = '.' := numeric
    subst isDot
    by_cases digit : c.isDigit = true
    · simp [push, extend?, follow, digit, Numeric]
    · simp [push, extend?, follow, digit, letter, Numeric]
  | start | literal | regex | closer | increment => cases numeric

theorem Fits.numeric_of_dot {token : Token} (fits : token.Fits (some ⟨'.', false⟩)) :
    token.Numeric := by
  cases token with
  | start => cases fits
  | word text property =>
    obtain ⟨_, same, letter⟩ := fits
    cases same
    cases letter
  | number text => trivial
  | literal =>
    obtain ⟨_, same, isQuote⟩ := fits
    cases same
    cases isQuote
  | regex =>
    rcases fits with same | ⟨_, same, alpha⟩
    · cases same
    · cases same
      cases alpha
  | closer | increment => rcases fits with same | same <;> cases same
  | punct c =>
    cases fits.1
    rfl

theorem push_dot_numeric (token : Token) (glued : Bool) : (token.push '.' glued).Numeric :=
  (token.push_fits '.' glued).numeric_of_dot

def isWord : Token → Bool
  | .word _ _ => true
  | _ => false

theorem Fits.isWord_eq {token : Token} {c : Char} (fits : token.Fits (some ⟨c, false⟩))
    (noLetter : isLetterLike c = false) : token.isWord = false := by
  cases token with
  | word text property =>
    obtain ⟨_, same, letter⟩ := fits
    cases same
    rw [noLetter] at letter
    cases letter
  | _ => rfl

theorem push_digit_numeric {token : Token} {c : Char} {glued : Bool} (digit : c.isDigit = true)
    (apart : glued = true → token.isWord = false) : (token.push c glued).Numeric := by
  have begins : (token.follow c glued).Numeric := by simp [follow, digit, Numeric]
  cases glued with
  | false => exact begins
  | true =>
    cases token with
    | number text => simp [push_letter (isLetterLike_of_isDigit digit), Numeric]
    | word text property => cases apart rfl
    | start | literal | regex | closer | increment | punct => exact begins

theorem Numeric.feed_letters {token : Token} {text : List Char} (numeric : token.Numeric)
    (spelled : ∀ c ∈ text, isLetterLike c = true) : (token.feed text).Numeric := by
  induction text generalizing token with
  | nil => exact numeric
  | cons c text ih =>
    obtain ⟨letter, spelled⟩ := List.forall_mem_cons.mp spelled
    exact ih (numeric.push_of_letter letter) spelled

end Token

theorem isLetterLike_of_isAlphanum {c : Char} (alphanum : c.isAlphanum = true) :
    isLetterLike c = true := by
  simp [isLetterLike, classify, alphanum]

theorem DigitRun.letters {text : List Char} (run : DigitRun text) :
    ∀ c ∈ text, isLetterLike c = true := by
  obtain ⟨digit, others⟩ := run
  refine List.forall_mem_cons.mpr ⟨isLetterLike_of_isDigit digit, ?_⟩
  intro c member
  rcases others c member with digit | rfl
  · exact isLetterLike_of_isDigit digit
  · rfl

theorem isLetterLike_of_exponent {e : Char} (isE : e ∈ ['e', 'E']) : isLetterLike e = true := by
  have all : ∀ e ∈ ['e', 'E'], isLetterLike e = true := List.all_eq_true.mp rfl
  exact all e isE

/-- A sign in an exponent may end the token before it, but the digits behind it are a number then. -/
theorem Exponent.numeric {text : List Char} {token : Token} (exponent : Exponent text)
    (numeric : token.Numeric) : (token.feed text).Numeric := by
  cases exponent with
  | none => exact numeric
  | plain isE run =>
    exact (numeric.push_of_letter (isLetterLike_of_exponent isE)).feed_letters run.letters
  | @signed e sign digits isE isSign run =>
    have noLetter : isLetterLike sign = false :=
      isLetterLike_of_mark (List.mem_cons_of_mem '.' isSign)
    have apart : ((token.push e true).push sign true).isWord = false :=
      (Token.push_fits _ sign true).isWord_eq noLetter
    have letters := run.letters
    obtain @⟨c, digits, digit, _⟩ := run
    have numeric : (((token.push e true).push sign true).push c true).Numeric :=
      Token.push_digit_numeric digit fun _ => apart
    exact numeric.feed_letters (List.forall_mem_cons.mp letters).2

/-- A text that begins as numbers do, and whose later characters keep the token one of these. -/
def SpellsNumber (text : List Char) : Prop :=
  ∃ c later, text = c :: later ∧ (c.isDigit = true ∨ c = '.') ∧
    ∀ token : Token, token.Numeric → (token.feed later).Numeric

theorem DigitRun.spellsNumber {digits tail : List Char} (run : DigitRun digits)
    (stays : ∀ token : Token, token.Numeric → (token.feed tail).Numeric) :
    SpellsNumber (digits ++ tail) := by
  have letters := run.letters
  obtain @⟨c, digits, digit, _⟩ := run
  refine ⟨c, digits ++ tail, rfl, .inl digit, ?_⟩
  intro token numeric
  rw [Token.feed_append]
  exact stays _ (numeric.feed_letters (List.forall_mem_cons.mp letters).2)

theorem based_letters {mark : Char} {digits : List Char} (isMark : mark ∈ ['x', 'X', 'o', 'O', 'b', 'B'])
    (others : ∀ d ∈ digits, d.isAlphanum = true ∨ d = '_') :
    ∀ c ∈ mark :: digits, isLetterLike c = true := by
  have letterOf : ∀ c ∈ ['x', 'X', 'o', 'O', 'b', 'B'], isLetterLike c = true :=
    List.all_eq_true.mp rfl
  refine List.forall_mem_cons.mpr ⟨letterOf mark isMark, ?_⟩
  intro d member
  rcases others d member with alphanum | rfl
  · exact isLetterLike_of_isAlphanum alphanum
  · rfl

theorem Numeral.spellsNumber {text : List Char} (numeral : Numeral text) : SpellsNumber text := by
  cases numeral with
  | integer whole exponent => exact whole.spellsNumber fun _ numeric => exponent.numeric numeric
  | trailingPoint whole exponent =>
    exact whole.spellsNumber fun token _ => exponent.numeric (token.push_dot_numeric true)
  | @fraction whole digits exponent atWhole run atExponent =>
    refine atWhole.spellsNumber ?_
    intro token _
    rw [Token.feed_cons, Token.feed_append]
    exact atExponent.numeric ((token.push_dot_numeric true).feed_letters run.letters)
  | @leadingPoint digits exponent run atExponent =>
    refine ⟨'.', digits ++ exponent, rfl, .inr rfl, ?_⟩
    intro token numeric
    rw [Token.feed_append]
    exact atExponent.numeric (numeric.feed_letters run.letters)
  | bigInt whole => exact whole.spellsNumber fun _ numeric => numeric.push_of_letter rfl
  | @based mark digits isMark others =>
    refine ⟨'0', mark :: digits, rfl, .inl rfl, ?_⟩
    intro token numeric
    exact numeric.feed_letters (based_letters isMark others)

theorem IdentifierRun.letters {text : List Char} (run : IdentifierRun text) :
    ∀ c ∈ text, isLetterLike c = true := by
  induction run with
  | done => simp
  | letter isLetter _ _ _ ih => exact List.forall_mem_cons.mpr ⟨isLetter, ih⟩
  | escape _ alphanum _ ih =>
    refine List.forall_mem_cons.mpr ⟨rfl, List.forall_mem_cons.mpr ⟨rfl, ?_⟩⟩
    refine List.forall_mem_append.mpr ⟨?_, ih⟩
    intro d member
    exact isLetterLike_of_isAlphanum (alphanum d member)

/-- The word is the whole token, unless a number before it takes it in. -/
theorem Identifier.noKeyword_feed {c : Char} {text : List Char} (word : Identifier (c :: text))
    {token : Token} {glued : Bool} (apart : glued = true → token.isWord = false) :
    ((token.push c glued).feed text).NoKeyword := by
  obtain ⟨letter, letters⟩ := List.forall_mem_cons.mp word.run.letters
  have noDigit : c.isDigit = false := by simpa using word.first
  have begins : ((token.follow c glued).feed text).NoKeyword := by
    rintro spelled same
    simp only [Token.follow, noDigit, Bool.false_eq_true, ↓reduceIte, letter,
      Token.feed_word letters] at same
    rw [← (Token.word.inj same).1]
    exact word.noKeyword
  cases glued with
  | false => exact begins
  | true =>
    cases token with
    | number digits =>
      -- A number that ends in its decimal point, say, takes all letters of the word.
      rw [Token.push_letter letter, Token.feed_number letters]
      rintro spelled ⟨⟩
    | word spelled property => cases apart rfl
    | start | literal | regex | closer | increment | punct => exact begins

end Elision
