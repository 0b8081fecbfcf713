import Mathlib.Data.List.Chain
import Elision.Proofs.Spelling
import Elision.Proofs.Steps

namespace Elision

/-- A token in the code of a substitution, or what stands between two. Braces and slashes are left
out. -/
inductive CodePiece
  | blank (c : Char) (isBlank : classify c = .whitespace)
  | lineBreak (c : Char) (ends : isLineTerminator c = true)
  | word (text : List Char) (isWord : Identifier text)
  | number (text : List Char) (isNumber : Numeral text)
  | string (quote : Char) (tail : List Char) (isQuote : classify quote = .quote)
      (noTemplate : quote ≠ backtick) (closed : QuotedTail quote tail)
  | mark (c : Char) (isMark : c ∈ punctuators) (noBrace : c ∉ [leftBrace, rightBrace])

namespace CodePiece

/-- What a piece is read as outside of templates. -/
def lexemes : CodePiece → List Lexeme
  | .blank c _ => [.blank c]
  | .lineBreak c _ => [.lineBreak c]
  | .word text _ | .number text _ => text.map .code
  | .string quote tail _ _ _ => [.quoted quote tail]
  | .mark c _ _ => [.code c]

def text (piece : CodePiece) : List Char :=
  textOf piece.lexemes

/-- Words and numbers, which would take a letter right behind them. -/
def isSpelled : CodePiece → Bool
  | .word _ _ | .number _ _ => true
  | _ => false

/-- Two pieces side by side that stay two. -/
def Apart (before after : CodePiece) : Prop :=
  before.isSpelled = true → after.isSpelled = true →
    ∀ c ∈ after.text.head?, isLetterLike c = false

end CodePiece

def codeText (pieces : List CodePiece) : List Char :=
  pieces.flatMap CodePiece.text

/-- The last token, and whether nothing was elided behind it. -/
structure Tracker where
  token : Token
  glued : Bool

namespace Tracker

def accept (tracker : Tracker) (lexeme : Lexeme) : Tracker :=
  match lexeme.gap? with
  | some _ => { tracker with glued := false }
  | none => ⟨lexeme.track tracker.token tracker.glued, true⟩

def run (tracker : Tracker) (lexemes : List Lexeme) : Tracker :=
  lexemes.foldl accept tracker

end Tracker

/-- The last token behind code, when nothing stands before it. -/
def tokenBehind (pieces : List CodePiece) : Token :=
  (Tracker.run ⟨.start, true⟩ (pieces.flatMap CodePiece.lexemes)).token

namespace Token

/-- A number that ends in its decimal point or in a sign. -/
def endsInMark : Token → Bool
  | .number text => text.getLast?.any (· ∈ ['.', '+', '-'])
  | _ => false

/-- Whether the last character of the token is one behind which an operand is expected. -/
def asksOperand (token : Token) : Bool :=
  token.opensRegex || token = .increment || token.endsInMark

/-- What the last character tells of a token is whether it asks for an operand. -/
theorem Fits.expectsOperand_eq {token : Token} {c : Char} (fits : token.Fits (some ⟨c, false⟩))
    (noQuote : classify c ≠ .quote) (noKeyword : token.NoKeyword) :
    expectsOperand c = token.asksOperand := by
  cases token with
  | start => cases fits
  | word text property =>
    obtain ⟨_, same, letter⟩ := fits
    cases same
    have operand : opensRegex (.word text property) = false := by
      cases property with
      | false => simpa [opensRegex] using noKeyword text rfl
      | true => rfl
    simp [expectsOperand, letter, asksOperand, operand, endsInMark]
  | number text =>
    obtain ⟨_, same, atLast, letter | mark⟩ := fits
    · cases same
      have noMark : c ∉ ['.', '+', '-'] := by
        intro mark
        rw [isLetterLike_of_mark mark] at letter
        cases letter
      simp_all [expectsOperand, asksOperand, opensRegex, endsInMark]
    · cases same
      have marks : endsInMark (.number text) = true := by simpa [endsInMark, atLast] using mark
      simp only [List.mem_cons, List.not_mem_nil, or_false] at mark
      rcases mark with rfl | rfl | rfl <;> simp +decide [asksOperand, marks]
  | literal =>
    obtain ⟨_, same, isQuote⟩ := fits
    cases same
    exact absurd isQuote noQuote
  | regex =>
    rcases fits with same | ⟨_, same, alpha⟩
    · cases same
    · cases same
      simp [expectsOperand, isLetterLike_of_isAlpha alpha, asksOperand, opensRegex, endsInMark]
  | closer => rcases fits with same | same <;> cases same <;> decide
  | increment => rcases fits with same | same <;> cases same <;> decide
  | punct c =>
    obtain ⟨same, noLetter, noCloser⟩ := fits
    cases same
    simp_all [expectsOperand, asksOperand, opensRegex]

end Token

/-- The characters of code that a substitution takes one by one, and that say by themselves whether
an operand is expected behind them. -/
def isOrdinary (c : Char) : Bool :=
  c ∉ ['\\', '/', leftBrace, rightBrace] && classify c ≠ .whitespace && !isLineTerminator c &&
    classify c ≠ .quote

theorem classify_ne_quote_of_isOrdinary {c : Char} (ordinary : isOrdinary c = true) :
    classify c ≠ .quote := by
  simp only [isOrdinary, Bool.and_eq_true, decide_eq_true_eq] at ordinary
  exact ordinary.2

theorem classify_ne_quote_of_isLetterLike {c : Char} (letter : isLetterLike c = true) :
    classify c ≠ .quote := by
  intro isQuote
  simp [isLetterLike, isQuote] at letter

theorem isOrdinary_of_isLetterLike {c : Char} (letter : isLetterLike c = true) (plain : c ≠ '\\')
    (sameLine : isLineTerminator c = false) : isOrdinary c = true := by
  have noSlash := ne_of_isLetterLike letter (d := '/') rfl
  have noOpen := ne_of_isLetterLike letter (d := leftBrace) rfl
  have noClose := ne_of_isLetterLike letter (d := rightBrace) rfl
  have isLetter : classify c = .letter := by simpa [isLetterLike] using letter
  simp [isOrdinary, plain, noSlash, noOpen, noClose, isLetter, sameLine]

theorem isOrdinary_of_isAlphanum {c : Char} (alphanum : c.isAlphanum = true) :
    isOrdinary c = true := by
  refine isOrdinary_of_isLetterLike (isLetterLike_of_isAlphanum alphanum) ?_ ?_
  · rintro rfl
    cases alphanum
  · by_cases lineEnd : isLineTerminator c = true
    · simp only [isLineTerminator, Bool.or_eq_true, decide_eq_true_eq] at lineEnd
      rcases lineEnd with ((rfl | rfl) | rfl) | rfl <;> cases alphanum
    · simpa using lineEnd

theorem isLetterLike_of_punctuator {c : Char} (isMark : c ∈ punctuators) : isLetterLike c = false := by
  have noLetters : punctuators.all (!isLetterLike ·) = true := rfl
  simpa using List.all_eq_true.mp noLetters c isMark

theorem isOrdinary_of_punctuator {c : Char} (isMark : c ∈ punctuators)
    (noBrace : c ∉ [leftBrace, rightBrace]) :
    isOrdinary c = true := by
  have others : punctuators.all (fun c => c ∈ [leftBrace, rightBrace] || isOrdinary c) = true := rfl
  have here := List.all_eq_true.mp others c isMark
  simpa only [noBrace, decide_false, Bool.false_or] using here

theorem DigitRun.ordinary {text : List Char} (run : DigitRun text) :
    ∀ c ∈ text, isOrdinary c = true := by
  have ordinaryOf {c : Char} (digit : c.isDigit = true) : isOrdinary c = true :=
    isOrdinary_of_isAlphanum (by simp [Char.isAlphanum, digit])
  obtain ⟨digit, others⟩ := run
  refine List.forall_mem_cons.mpr ⟨ordinaryOf digit, ?_⟩
  intro c member
  rcases others c member with digit | rfl
  · exact ordinaryOf digit
  · rfl

theorem Exponent.ordinary {text : List Char} (exponent : Exponent text) :
    ∀ c ∈ text, isOrdinary c = true := by
  have ordinaryE : ∀ e ∈ ['e', 'E'], isOrdinary e = true := List.all_eq_true.mp rfl
  have ordinarySign : ∀ sign ∈ ['+', '-'], isOrdinary sign = true := List.all_eq_true.mp rfl
  cases exponent with
  | none => simp
  | plain isE run => exact List.forall_mem_cons.mpr ⟨ordinaryE _ isE, run.ordinary⟩
  | signed isE isSign run =>
    refine List.forall_mem_cons.mpr ⟨ordinaryE _ isE, ?_⟩
    exact List.forall_mem_cons.mpr ⟨ordinarySign _ isSign, run.ordinary⟩

theorem Numeral.ordinary {text : List Char} (numeral : Numeral text) :
    ∀ c ∈ text, isOrdinary c = true := by
  have point : isOrdinary '.' = true := rfl
  cases numeral with
  | integer whole exponent => exact List.forall_mem_append.mpr ⟨whole.ordinary, exponent.ordinary⟩
  | trailingPoint whole exponent =>
    refine List.forall_mem_append.mpr ⟨whole.ordinary, ?_⟩
    exact List.forall_mem_cons.mpr ⟨point, exponent.ordinary⟩
  | fraction whole digits exponent =>
    refine List.forall_mem_append.mpr ⟨whole.ordinary, List.forall_mem_cons.mpr ⟨point, ?_⟩⟩
    exact List.forall_mem_append.mpr ⟨digits.ordinary, exponent.ordinary⟩
  | leadingPoint digits exponent =>
    refine List.forall_mem_cons.mpr ⟨point, ?_⟩
    exact List.forall_mem_append.mpr ⟨digits.ordinary, exponent.ordinary⟩
  | bigInt whole =>
    refine List.forall_mem_append.mpr ⟨whole.ordinary, ?_⟩
    exact List.forall_mem_singleton.mpr rfl
  | @based mark digits isMark others =>
    have ordinaryOf : ∀ c ∈ ['x', 'X', 'o', 'O', 'b', 'B'], isOrdinary c = true :=
      List.all_eq_true.mp rfl
    refine List.forall_mem_cons.mpr ⟨rfl, List.forall_mem_cons.mpr ⟨ordinaryOf mark isMark, ?_⟩⟩
    intro d member
    rcases others d member with alphanum | rfl
    · exact isOrdinary_of_isAlphanum alphanum
    · rfl

/-- Whether an operand is expected behind a text, as the last of its characters says. -/
def operandBehind (operand : Bool) (text : List Char) : Bool :=
  text.foldl (fun _ c => expectsOperand c) operand

/-- The characters of a token need not be known for that: the token tells it too. -/
theorem Token.asksOperand_feed {token : Token} {c : Char} {text : List Char}
    (fits : token.Fits (some ⟨c, false⟩)) (noQuote : ∀ d ∈ c :: text, classify d ≠ .quote)
    (noKeyword : (token.feed text).NoKeyword) :
    operandBehind (expectsOperand c) text = (token.feed text).asksOperand := by
  induction text generalizing token c with
  | nil => exact fits.expectsOperand_eq (noQuote c List.mem_cons_self) noKeyword
  | cons d text ih => exact ih (token.push_fits d true) (List.forall_mem_cons.mp noQuote).2 noKeyword

section Steps

variable {rest text : List Char} {depth : Nat} {outer : List Frame} {operand : Bool}

theorem templateStep_of_isOrdinary {ahead : Option Char} {c : Char} (ordinary : isOrdinary c = true) :
    TemplateStep ahead (.code depth :: outer) operand [c] (.code depth :: outer)
      (expectsOperand c) := by
  simp only [isOrdinary, Bool.and_eq_true, decide_eq_true_eq, Bool.not_eq_true'] at ordinary
  obtain ⟨⟨⟨special, visible⟩, sameLine⟩, noQuote⟩ := ordinary
  exact .codeChar special visible sameLine noQuote

theorem templateSteps_of_ordinary (ordinary : ∀ c ∈ text, isOrdinary c = true) :
    TemplateSteps rest (.code depth :: outer) operand text (.code depth :: outer)
      (operandBehind operand text) := by
  induction text generalizing operand with
  | nil => exact .done
  | cons c text ih =>
    obtain ⟨atFirst, ordinary⟩ := List.forall_mem_cons.mp ordinary
    exact .next (templateStep_of_isOrdinary atFirst) (ih ordinary)

/-- The digits of an escape stand behind it, so that its two characters do not matter. -/
theorem IdentifierRun.templateSteps (run : IdentifierRun text) :
    TemplateSteps rest (.code depth :: outer) operand text (.code depth :: outer)
      (operandBehind operand text) := by
  induction run generalizing operand with
  | done => exact .done
  | letter isLetter plain sameLine _ ih =>
    have ordinary := isOrdinary_of_isLetterLike isLetter plain sameLine
    exact .next (templateStep_of_isOrdinary ordinary) ih
  | @escape digits text four alphanum _ ih =>
    obtain ⟨d, digits, rfl⟩ := List.exists_cons_of_length_eq_add_one four
    have ordinary : ∀ c ∈ d :: digits, isOrdinary c = true := fun c member =>
      isOrdinary_of_isAlphanum (alphanum c member)
    have same : operandBehind operand ('\\' :: 'u' :: (d :: digits ++ text)) =
        operandBehind (operandBehind operand (d :: digits)) text :=
      List.foldl_append
    rw [same]
    exact .next .escape ((templateSteps_of_ordinary ordinary).append ih)

end Steps

theorem Tracker.run_append (tracker : Tracker) (before after : List Lexeme) :
    tracker.run (before ++ after) = (tracker.run before).run after :=
  List.foldl_append

theorem Tracker.run_code (tracker : Tracker) (c : Char) (text : List Char) :
    tracker.run ((c :: text).map .code) = ⟨(tracker.token.push c tracker.glued).feed text, true⟩ := by
  induction text generalizing tracker c with
  | nil => rfl
  | cons d text ih => exact ih ⟨tracker.token.push c tracker.glued, true⟩ d

theorem Tracker.asksOperand_run_code (tracker : Tracker) {c : Char} {text : List Char}
    (noQuote : ∀ d ∈ c :: text, classify d ≠ .quote)
    (noKeyword : ((tracker.token.push c tracker.glued).feed text).NoKeyword) (operand : Bool) :
    operandBehind operand (c :: text) =
      (tracker.run ((c :: text).map .code)).token.asksOperand := by
  rw [run_code]
  exact Token.asksOperand_feed (tracker.token.push_fits c tracker.glued) noQuote noKeyword

theorem textOf_code (text : List Char) : textOf (text.map .code) = text := by
  simp [textOf, List.flatMap_map, Lexeme.text]

/-- A piece whose first character is not taken by a word before it. -/
def Tracker.Meets (tracker : Tracker) (piece : CodePiece) : Prop :=
  tracker.glued = true → piece.isSpelled = true →
    (∃ c ∈ piece.text.head?, isLetterLike c = true) → tracker.token.isWord = false

namespace CodePiece

/-- Whether an operand is expected behind a piece, as the scan of a template has it. -/
def operand (operand : Bool) : CodePiece → Bool
  | .blank _ _ | .lineBreak _ _ => operand
  | .string _ _ _ _ _ => false
  | .word text _ | .number text _ => operandBehind operand text
  | .mark c _ _ => expectsOperand c

theorem templateSteps (piece : CodePiece) {rest : List Char} {depth : Nat} {outer : List Frame}
    {operand : Bool} :
    TemplateSteps rest (.code depth :: outer) operand piece.text (.code depth :: outer)
      (piece.operand operand) := by
  cases piece with
  | blank c isBlank =>
    have plain : c ≠ '\\' := by rintro rfl; cases isBlank
    exact .next (.space plain (.inl isBlank)) .done
  | lineBreak c ends =>
    have plain : c ≠ '\\' := by rintro rfl; cases ends
    exact .next (.space plain (.inr ends)) .done
  | word text isWord =>
    rw [CodePiece.text, lexemes, textOf_code]
    exact isWord.run.templateSteps
  | number text isNumber =>
    rw [CodePiece.text, lexemes, textOf_code]
    exact templateSteps_of_ordinary isNumber.ordinary
  | string quote tail isQuote noTemplate closed =>
    have same : CodePiece.text (.string quote tail isQuote noTemplate closed) = quote :: tail ++ [] :=
      rfl
    rw [same]
    exact .next (.string isQuote noTemplate closed) .done
  | mark c isMark noBrace =>
    exact .next (templateStep_of_isOrdinary (isOrdinary_of_punctuator isMark noBrace)) .done

/-- One piece keeps the scan of a template and the last token in step. -/
theorem asksOperand_run (piece : CodePiece) {tracker : Tracker} (meets : tracker.Meets piece) :
    piece.operand tracker.token.asksOperand = (tracker.run piece.lexemes).token.asksOperand := by
  cases piece with
  | blank | lineBreak | string => rfl
  | word text isWord =>
    obtain ⟨c, atFirst, _⟩ := isWord.first
    obtain ⟨later, rfl⟩ := List.head?_eq_some_iff.mp atFirst
    have letters := isWord.run.letters
    have apart : tracker.glued = true → tracker.token.isWord = false := fun glued =>
      meets glued rfl ⟨c, rfl, letters c List.mem_cons_self⟩
    exact tracker.asksOperand_run_code
      (fun d member => classify_ne_quote_of_isLetterLike (letters d member))
      (isWord.noKeyword_feed apart) _
  | number text isNumber =>
    obtain ⟨c, later, rfl, begins, stays⟩ := isNumber.spellsNumber
    have numeric : (tracker.token.push c tracker.glued).Numeric := by
      rcases begins with digit | rfl
      · refine Token.push_digit_numeric digit ?_
        intro glued
        exact meets glued rfl ⟨c, rfl, isLetterLike_of_isDigit digit⟩
      · exact tracker.token.push_dot_numeric tracker.glued
    exact tracker.asksOperand_run_code
      (fun d member => classify_ne_quote_of_isOrdinary (isNumber.ordinary d member))
      (stays _ numeric).noKeyword _
  | mark c isMark noBrace =>
    have fits := tracker.token.push_fits c tracker.glued
    have ordinary := isOrdinary_of_punctuator isMark noBrace
    refine fits.expectsOperand_eq (classify_ne_quote_of_isOrdinary ordinary) ?_
    intro text isWord
    have noWord := fits.isWord_eq (isLetterLike_of_punctuator isMark)
    rw [isWord] at noWord
    cases noWord

/-- Behind a piece stands one that is not taken into it. -/
theorem meets_run (piece : CodePiece) {next : CodePiece} (apart : piece.Apart next)
    (tracker : Tracker) : (tracker.run piece.lexemes).Meets next := by
  intro glued spelled starts
  cases piece with
  | blank | lineBreak => cases glued
  | string => rfl
  | mark c isMark noBrace =>
    exact (tracker.token.push_fits c tracker.glued).isWord_eq (isLetterLike_of_punctuator isMark)
  | word | number =>
    obtain ⟨c, atFirst, letter⟩ := starts
    rw [apart rfl spelled c atFirst] at letter
    cases letter

end CodePiece

/-- Whatever the code is made of, the scan of a template expects an operand behind it if the last token
asks for one. -/
theorem codeText_templateSteps {pieces : List CodePiece} (apart : pieces.IsChain CodePiece.Apart)
    {tracker : Tracker} (meets : ∀ piece ∈ pieces.head?, tracker.Meets piece) {rest : List Char}
    {depth : Nat} {outer : List Frame} :
    TemplateSteps rest (.code depth :: outer) tracker.token.asksOperand (codeText pieces)
      (.code depth :: outer)
      (tracker.run (pieces.flatMap CodePiece.lexemes)).token.asksOperand := by
  -- The flag of the scan is given by the token alone, so one invariant carries both along.
  induction pieces generalizing tracker with
  | nil => exact .done
  | cons piece later ih =>
    have next : ∀ following ∈ later.head?, (tracker.run piece.lexemes).Meets following := by
      intro following atFirst
      obtain ⟨others, rfl⟩ := List.head?_eq_some_iff.mp atFirst
      exact piece.meets_run (List.isChain_cons_cons.mp apart).1 tracker
    rw [List.flatMap_cons, Tracker.run_append]
    refine TemplateSteps.append piece.templateSteps ?_
    rw [piece.asksOperand_run (meets piece rfl)]
    exact ih apart.tail next

/-- How a scan goes on at a slash that it takes for the start of a regular expression. -/
def regexReading (unclosed : Unclosed) (frames : List Frame) (taken rest : List Char) :
    Except Unclosed Cut :=
  match takeRegex ('/' :: taken) rest with
  | none => .error ⟨.regex, '/' :: rest⟩
  | some cut => takeTemplate unclosed frames false cut.taken cut.rest

/-- How a scan goes on at a slash that it takes for a division. -/
def divisionReading (unclosed : Unclosed) (frames : List Frame) (taken rest : List Char) :
    Except Unclosed Cut :=
  takeTemplate unclosed frames true ('/' :: taken) rest

theorem takeTemplate_slash {rest : List Char} (noLine : rest.head? ≠ some '/')
    (noBlock : rest.head? ≠ some '*') (unclosed : Unclosed) (depth : Nat) (outer : List Frame)
    (operand : Bool) (taken : List Char) :
    takeTemplate unclosed (.code depth :: outer) operand taken ('/' :: rest) =
      if operand then regexReading unclosed (.code depth :: outer) taken rest
      else divisionReading unclosed (.code depth :: outer) taken rest := by
  rw [takeTemplate.eq_def]
  cases operand with
  | false => simp +decide [noLine, noBlock, divisionReading]
  | true =>
    simp +decide only [noLine, noBlock, regexReading, ↓reduceIte]
    split <;> simp_all

/-- The opening of a substitution and its code are taken as they are, and what the last token asks for
decides about a slash behind them. -/
theorem takeTemplate_code_slash {pieces : List CodePiece} (apart : pieces.IsChain CodePiece.Apart)
    {rest : List Char} (noLine : rest.head? ≠ some '/') (noBlock : rest.head? ≠ some '*')
    (unclosed : Unclosed) (outer : List Frame) (operand : Bool) (taken : List Char) :
    takeTemplate unclosed (.text :: outer) operand taken
        ('$' :: leftBrace :: (codeText pieces ++ '/' :: rest)) =
      if (tokenBehind pieces).asksOperand then
        regexReading unclosed (.code 0 :: .text :: outer)
          ((codeText pieces).reverse ++ leftBrace :: '$' :: taken) rest
      else
        divisionReading unclosed (.code 0 :: .text :: outer)
          ((codeText pieces).reverse ++ leftBrace :: '$' :: taken) rest := by
  have meets : ∀ piece ∈ pieces.head?, Tracker.Meets ⟨.start, true⟩ piece := by
    intro piece _ _ _ _
    rfl
  have steps : TemplateSteps ('/' :: rest) (.text :: outer) operand
      (['$', leftBrace] ++ codeText pieces) (.code 0 :: .text :: outer)
      (tokenBehind pieces).asksOperand :=
    .next .openCode (codeText_templateSteps apart meets)
  have scanned := steps.take unclosed taken
  rw [takeTemplate_slash noLine noBlock] at scanned
  simpa using scanned

/-- A slash behind code in a substitution opens a regular expression if the last token says so, and
also behind a doubled sign, of which the scan sees only the last character. Nothing is said of numbers
that end in a mark. -/
theorem slash_behind_code (pieces : List CodePiece) (apart : pieces.IsChain CodePiece.Apart)
    (noMark : (tokenBehind pieces).endsInMark = false) (rest : List Char)
    (noLine : rest.head? ≠ some '/') (noBlock : rest.head? ≠ some '*') (unclosed : Unclosed)
    (outer : List Frame) (operand : Bool) (taken : List Char) :
    takeTemplate unclosed (.text :: outer) operand taken
        ('$' :: leftBrace :: (codeText pieces ++ '/' :: rest)) =
      if (tokenBehind pieces).opensRegex ∨ tokenBehind pieces = .increment then
        regexReading unclosed (.code 0 :: .text :: outer)
          ((codeText pieces).reverse ++ leftBrace :: '$' :: taken) rest
      else
        divisionReading unclosed (.code 0 :: .text :: outer)
          ((codeText pieces).reverse ++ leftBrace :: '$' :: taken) rest := by
  rw [takeTemplate_code_slash apart noLine noBlock]
  simp [Token.asksOperand, noMark]

theorem slash_behind_code_exponent :
    ∃ pieces : List CodePiece, codeText pieces = "a['s']+ 1.5e-3".toList ∧
      pieces.IsChain CodePiece.Apart ∧ (tokenBehind pieces).endsInMark = false ∧
      takeTemplate ⟨.string, []⟩ [.text] true [] ('$' :: leftBrace :: (codeText pieces ++ ['/', '2'])) =
        divisionReading ⟨.string, []⟩ [.code 0, .text] ((codeText pieces).reverse ++ [leftBrace, '$'])
          ['2'] := by
  have word : Identifier ['a'] := ⟨.letter rfl (by decide) rfl .done, ⟨'a', rfl, rfl⟩, by decide⟩
  have string : QuotedTail singleQuote ['s', singleQuote] :=
    .plain (by decide) (by decide) (.close (by decide))
  have digit {c : Char} (isDigit : c.isDigit = true) : DigitRun [c] := .mk isDigit (by simp)
  have number : Numeral (['1'] ++ '.' :: (['5'] ++ ['e', '-', '3'])) :=
    .fraction (digit rfl) (digit rfl) (.signed (by decide) (by decide) (digit rfl))
  let pieces : List CodePiece := [.word _ word, .mark '[' (by decide) (by decide),
    .string _ _ rfl (by decide) string, .mark ']' (by decide) (by decide),
    .mark '+' (by decide) (by decide), .blank ' ' rfl, .number _ number]
  have apart : pieces.IsChain CodePiece.Apart := by
    simp [pieces, CodePiece.Apart, CodePiece.isSpelled]
  have token : tokenBehind pieces = .number ['1', '.', '5', 'e', '-', '3'] := rfl
  have noMark : (tokenBehind pieces).endsInMark = false := by rw [token]; rfl
  refine ⟨pieces, rfl, apart, noMark, ?_⟩
  rw [slash_behind_code pieces apart noMark ['2'] (by decide) (by decide), token]
  rfl

/-- The last token alone does not decide: a doubled sign is an operand for it, but the scan takes the
slash behind `a++` for the start of a regular expression. -/
theorem slash_behind_increment :
    ¬∀ (pieces : List CodePiece) (_ : pieces.IsChain CodePiece.Apart) (rest : List Char)
      (_ : rest.head? ≠ some '/') (_ : rest.head? ≠ some '*') (unclosed : Unclosed)
      (outer : List Frame) (operand : Bool) (taken : List Char),
      takeTemplate unclosed (.text :: outer) operand taken
          ('$' :: leftBrace :: (codeText pieces ++ '/' :: rest)) =
        if (tokenBehind pieces).opensRegex then
          regexReading unclosed (.code 0 :: .text :: outer)
            ((codeText pieces).reverse ++ leftBrace :: '$' :: taken) rest
        else
          divisionReading unclosed (.code 0 :: .text :: outer)
            ((codeText pieces).reverse ++ leftBrace :: '$' :: taken) rest := by
  intro agrees
  have word : Identifier ['a'] := ⟨.letter rfl (by decide) rfl .done, ⟨'a', rfl, rfl⟩, by decide⟩
  let pieces : List CodePiece :=
    [.word _ word, .mark '+' (by decide) (by decide), .mark '+' (by decide) (by decide)]
  have apart : pieces.IsChain CodePiece.Apart := by
    simp [pieces, CodePiece.Apart, CodePiece.isSpelled]
  have scanned := agrees pieces apart ['2', rightBrace, backtick] (by decide) (by decide)
    ⟨.string, []⟩ [] true []
  rw [takeTemplate_code_slash apart (by decide) (by decide)] at scanned
  have isOpen : regexReading ⟨.string, []⟩ [.code 0, .text] ['+', '+', 'a', leftBrace, '$']
      ['2', rightBrace, backtick] = .error ⟨.regex, ['/', '2', rightBrace, backtick]⟩ := rfl
  have closing : TemplateSteps [] [.code 0, .text] true ['2', rightBrace, backtick] [] false :=
    .next (templateStep_of_isOrdinary rfl) (.next .endCode (.next .endText .done))
  have closed : divisionReading ⟨.string, []⟩ [.code 0, .text] ['+', '+', 'a', leftBrace, '$']
      ['2', rightBrace, backtick] =
        .ok ⟨[backtick, rightBrace, '2', '/', '+', '+', 'a', leftBrace, '$'], []⟩ := by
    have scan := closing.take ⟨.string, []⟩ ['/', '+', '+', 'a', leftBrace, '$']
    rwa [takeTemplate] at scan
  cases isOpen.symm.trans (scanned.trans closed)

end Elision
