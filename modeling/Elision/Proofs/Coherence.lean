import Elision.Proofs.Joints

namespace Elision

/-- The last token and the last character kept belong together. -/
def Token.Fits : Token → Option Retained → Prop
  | .start, last => last = none
  | .word _ _, last => ∃ c, last = some ⟨c, false⟩ ∧ isLetterLike c = true
  | .number text, last =>
    ∃ c, last = some ⟨c, false⟩ ∧ text.getLast? = some c ∧
      (isLetterLike c = true ∨ c ∈ ['.', '+', '-'])
  | .literal, last => ∃ c, last = some ⟨c, false⟩ ∧ classify c = .quote
  | .regex, last => last = some ⟨'/', true⟩ ∨ ∃ c, last = some ⟨c, false⟩ ∧ c.isAlpha = true
  | .closer, last => last = some ⟨')', false⟩ ∨ last = some ⟨']', false⟩
  | .increment, last => last = some ⟨'+', false⟩ ∨ last = some ⟨'-', false⟩
  | .punct c, last => last = some ⟨c, false⟩ ∧ isLetterLike c = false ∧ c ∉ [')', ']']

theorem isLetterLike_of_isDigit {c : Char} (digit : c.isDigit = true) : isLetterLike c = true := by
  simp [isLetterLike, classify, Char.isAlphanum, digit]

theorem isLetterLike_of_isAlpha {c : Char} (alpha : c.isAlpha = true) : isLetterLike c = true := by
  simp [isLetterLike, classify, Char.isAlphanum, alpha]

theorem numberGoesOn_cases {text : List Char} {c : Char} (goesOn : numberGoesOn text c = true) :
    isLetterLike c = true ∨ c ∈ ['.', '+', '-'] := by
  unfold numberGoesOn at goesOn
  split at goesOn
  · rename_i dot
    exact .inr (by simp [dot])
  · split at goesOn
    · rename_i sign
      simp only [Bool.or_eq_true, decide_eq_true_eq] at sign
      exact .inr (by simpa using .inr sign)
    · exact .inl goesOn

theorem Token.follow_fits (token : Token) (c : Char) (glued : Bool) :
    (token.follow c glued).Fits (some ⟨c, false⟩) := by
  unfold Token.follow
  split
  · rename_i digit
    refine ⟨c, rfl, ?_, .inl (isLetterLike_of_isDigit digit)⟩
    split <;> rfl
  · split
    · rename_i letter
      exact ⟨c, rfl, letter⟩
    · rename_i noLetter
      split
      · rename_i closes
        simp only [Bool.or_eq_true, decide_eq_true_eq] at closes
        rcases closes with rfl | rfl
        · exact .inl rfl
        · exact .inr rfl
      · rename_i opens
        split
        · rename_i doubled
          simp only [Bool.and_eq_true, Bool.or_eq_true, decide_eq_true_eq] at doubled
          rcases doubled.1.1 with rfl | rfl
          · exact .inl rfl
          · exact .inr rfl
        · exact ⟨rfl, by simpa using noLetter, by simpa using opens⟩

theorem Token.extend?_fits {token longer : Token} {c : Char} (extends_ : token.extend? c = some longer) :
    longer.Fits (some ⟨c, false⟩) := by
  unfold Token.extend? at extends_
  split at extends_
  · split at extends_
    · rename_i letter
      cases extends_
      exact ⟨c, rfl, letter⟩
    · cases extends_
  · split at extends_
    · rename_i goesOn
      cases extends_
      exact ⟨c, rfl, by simp, numberGoesOn_cases goesOn⟩
    · cases extends_
  · cases extends_

theorem Token.push_fits (token : Token) (c : Char) (glued : Bool) :
    (token.push c glued).Fits (some ⟨c, false⟩) := by
  unfold Token.push
  split
  · cases longer : token.extend? c with
    | none => exact token.follow_fits c glued
    | some longer => exact Token.extend?_fits longer
  · exact token.follow_fits c glued

/-- Whatever the token was before, behind a kept piece it fits the end of that piece. -/
theorem Writer.keep_fits {piece : Lexeme} (kept : piece.gap? = none) (whole : piece.Whole)
    (writer : Writer) (ahead : Option Char) :
    (writer.keep piece ahead).token.Fits (writer.keep piece ahead).last := by
  cases piece with
  | code c => exact Token.push_fits _ c _
  | quoted quote tail =>
    refine ⟨quote, rfl, ?_⟩
    rcases whole with ⟨rfl, _⟩ | ⟨_, isQuote, _⟩
    · rfl
    · exact isQuote
  | regex tail flags =>
    cases atFlag : flags.getLast? with
    | none => exact .inl (by simp [Writer.keep, Lexeme.last, atFlag])
    | some flag =>
      have letter := whole.2.2.2 flag (List.mem_of_getLast? atFlag)
      exact .inr ⟨flag, by simp [Writer.keep, Lexeme.last, atFlag], letter⟩
  | blank | lineBreak | lineComment | blockComment => cases kept

/-- The text of a number has the mark of a hexadecimal one in front. -/
def IsHex (text : List Char) : Prop := ['0', 'x'] <+: text ∨ ['0', 'X'] <+: text

theorem IsHex.of_append {a b : Char} {text more : List Char} (hex : IsHex (a :: b :: text ++ more)) :
    IsHex (a :: b :: text) := by
  rcases hex with ⟨rest, same⟩ | ⟨rest, same⟩
  · cases same
    exact .inl ⟨text, rfl⟩
  · cases same
    exact .inr ⟨text, rfl⟩

theorem awaitsExponentSign_iff {text : List Char} :
    awaitsExponentSign text = true ↔
      ¬IsHex text ∧ (text.getLast? = some 'e' ∨ text.getLast? = some 'E') := by
  simp [awaitsExponentSign, IsHex, ← List.isPrefixOf_iff_prefix]

theorem isLetterLike_of_hex {text : List Char} {c : Char} (hex : IsHex text)
    (goesOn : numberGoesOn text c = true) : isLetterLike c = true := by
  unfold numberGoesOn at goesOn
  split at goesOn
  · rcases hex with ⟨rest, rfl⟩ | ⟨rest, rfl⟩ <;> simp +decide [Elision.isPlainInteger] at goesOn
  · split at goesOn
    · exact absurd hex (awaitsExponentSign_iff.mp goesOn).1
    · exact goesOn

/-- A hexadecimal number holds letters and digits only. -/
def Token.HexLetters : Token → Prop
  | .number text => IsHex text → ∀ c ∈ text, isLetterLike c = true
  | _ => True

theorem Token.extend?_hexLetters {token longer : Token} {c : Char} (clean : token.HexLetters)
    (extends_ : token.extend? c = some longer) : longer.HexLetters := by
  unfold Token.extend? at extends_
  split at extends_
  · split at extends_
    · cases extends_; trivial
    · cases extends_
  · rename_i text
    split at extends_
    · rename_i goesOn
      cases extends_
      intro hex d member
      match text with
      | [] => rcases hex with ⟨_, short⟩ | ⟨_, short⟩ <;> cases short
      | [a] =>
        have pair : a = '0' ∧ (c = 'x' ∨ c = 'X') := by
          rcases hex with ⟨_, same⟩ | ⟨_, same⟩ <;> cases same <;> simp
        have letters : isLetterLike a = true ∧ isLetterLike c = true := by
          obtain ⟨rfl, rfl | rfl⟩ := pair <;> decide
        rcases List.mem_append.mp member with old | new
        · rw [List.mem_singleton.mp old]
          exact letters.1
        · rw [List.mem_singleton.mp new]
          exact letters.2
      | a :: b :: text =>
        have hex := hex.of_append
        rcases List.mem_append.mp member with old | new
        · exact clean hex d old
        · rw [List.mem_singleton.mp new]
          exact isLetterLike_of_hex hex goesOn
    · cases extends_
  · cases extends_

theorem Token.follow_hexLetters (token : Token) (c : Char) (glued : Bool) :
    (token.follow c glued).HexLetters := by
  unfold Token.follow
  split
  · intro hex
    split at hex
    · rcases hex with ⟨_, short⟩ | ⟨_, short⟩ <;> cases short
    · rcases hex with ⟨_, short⟩ | ⟨_, short⟩ <;> cases short
  · split
    · trivial
    · split
      · trivial
      · split <;> trivial

theorem Token.push_hexLetters {token : Token} (clean : token.HexLetters) (c : Char) (glued : Bool) :
    (token.push c glued).HexLetters := by
  unfold Token.push
  split
  · cases longer : token.extend? c with
    | none => exact token.follow_hexLetters c glued
    | some longer => exact Token.extend?_hexLetters clean longer
  · exact token.follow_hexLetters c glued

theorem Lexeme.track_hexLetters {token : Token} (clean : token.HexLetters) (glued : Bool)
    (piece : Lexeme) : (piece.track token glued).HexLetters := by
  cases piece with
  | code c => exact Token.push_hexLetters clean c glued
  | quoted | regex => trivial
  | _ => exact clean

theorem Laid.endToken_hexLetters {rest : List Char} {writer : Writer} {pieces : List Placed}
    (laid : Laid rest writer pieces) (clean : writer.token.HexLetters) :
    (endToken writer.token pieces).HexLetters := by
  induction laid with
  | done => exact clean
  | next _ _ _ _ token _ ih =>
    rw [endToken, token]
    exact ih (Lexeme.track_hexLetters clean _ _)

end Elision
