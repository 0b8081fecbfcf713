import Elision.Proofs.LastToken
import Elision.Proofs.Reads

namespace Elision

theorem Token.extend?_of_mark {c : Char} (noLetter : isLetterLike c = false)
    (other : c ∉ ['.', '+', '-']) (token : Token) : token.extend? c = none := by
  cases token with
  | word text property => simp [Token.extend?, noLetter]
  | number text =>
    have stops : numberGoesOn text c = false := by
      rw [← Bool.not_eq_true]
      intro goesOn
      rcases numberGoesOn_cases goesOn with letter | mark
      · rw [noLetter] at letter
        cases letter
      · exact other mark
    simp [Token.extend?, stops]
  | _ => rfl

/-- A mark that no token takes up and that closes or doubles nothing is always recorded. -/
theorem Token.push_of_mark {c : Char} (noLetter : isLetterLike c = false)
    (other : c ∉ [')', ']', '.', '+', '-']) (token : Token) (glued : Bool) :
    token.push c glued = .punct c := by
  simp only [List.mem_cons, List.not_mem_nil, or_false, not_or] at other
  have stops := Token.extend?_of_mark noLetter (by simp [other]) token
  have ends : token.EndsBefore glued [c] := by simp [Token.EndsBefore, stops]
  refine ends.push_mark noLetter (by simp [other]) ?_
  intro _ isSign
  simp [other] at isSign

/-- What introduces the name of a member: a dot that was recorded as a mark, the two characters of an
optional access, or the mark of a private name. Only the last has to stand right before the name. -/
inductive Introduced (history : List Operation) : Bool → Prop
  | dot {glued} : Token.after history = .punct '.' → Introduced history glued
  | optional {earlier apart joined glued} :
      history = earlier ++ [.push '?' apart, .push '.' joined] → Introduced history glued
  | privateMark {apart} : history.getLast? = some (.push '#' apart) → Introduced history true

theorem Introduced.after_eq {history : List Operation} {glued : Bool}
    (introduced : Introduced history glued) :
    Token.after history = .punct '.' ∨ Token.after history = .punct '#' := by
  cases introduced with
  | dot atDot => exact .inl atDot
  | @optional earlier apart joined _ split =>
    have asked : (Token.after earlier).push '?' apart = .punct '?' :=
      Token.push_of_mark rfl (by decide) _ _
    rw [split, Token.after_append]
    simp only [List.foldl_cons, List.foldl_nil, Token.operate, asked]
    cases joined <;> exact .inl rfl
  | @privateMark apart atLast =>
    obtain ⟨earlier, rfl⟩ := List.getLast?_eq_some_iff.mp atLast
    rw [Token.after_append]
    exact .inr (Token.push_of_mark rfl (by decide) _ _)

theorem Lexeme.read_slash_iff {opensRegex : Bool} {rest : List Char} (noLine : rest.head? ≠ some '/')
    (noBlock : rest.head? ≠ some '*') :
    Lexeme.read opensRegex '/' rest = .ok ⟨.code '/', rest⟩ ↔ opensRegex = false := by
  constructor
  · intro divides
    exact (Lexeme.legible_of_read divides).agrees rfl
  · intro divides
    have whole : (Lexeme.code '/').Whole := ⟨by decide, by decide, by decide⟩
    exact Lexeme.read_of_legible ⟨whole, fun _ => ⟨noLine, noBlock⟩, fun _ => divides⟩ rfl

/-- A name behind a dot is an operand, even if it is spelled like a keyword: a slash behind it
divides, whatever was recorded before. A private name is one only if it is no keyword. -/
theorem name_divides_iff {history : List Operation} {glued : Bool} {text : List Char}
    (word : Word text) (introduced : Introduced history glued) :
    ((Token.after (history ++ pushes glued text)).opensRegex = false ↔
        ¬(Token.after history = .punct '#' ∧ text ∈ operandKeywords)) ∧
      ∀ rest, rest.head? ≠ some '/' → rest.head? ≠ some '*' →
        (Lexeme.read (Token.after (history ++ pushes glued text)).opensRegex '/' rest =
            .ok ⟨.code '/', rest⟩ ↔
          ¬(Token.after history = .punct '#' ∧ text ∈ operandKeywords)) := by
  have asOperand : (Token.after (history ++ pushes glued text)).opensRegex = false ↔
      ¬(Token.after history = .punct '#' ∧ text ∈ operandKeywords) := by
    have ends : (Token.after history).EndsBefore glued text := by
      rcases introduced.after_eq with atMark | atMark <;> rw [atMark] <;> exact fun _ _ _ => rfl
    rw [Token.after_pushes, Token.spell_word word ends]
    rcases introduced.after_eq with atMark | atMark <;> simp [Token.opensRegex, atMark]
  refine ⟨asOperand, ?_⟩
  intro rest noLine noBlock
  rw [Lexeme.read_slash_iff noLine noBlock, asOperand]

/-- A keyword behind an optional access and a gap, and a private name that only begins like a
keyword. -/
theorem name_divides_iff_optional :
    (Token.after (pushes false "a?.".toList ++ pushes false "typeof".toList)).opensRegex = false ∧
      (Token.after (pushes false "this.#".toList ++ pushes true "newest".toList)).opensRegex = false := by
  have keyword : "typeof".toList ∈ operandKeywords := by decide
  have word : Word "newest".toList := ⟨List.all_eq_true.mp rfl, 'n', rfl, rfl⟩
  have split : pushes false "a?.".toList =
      [.push 'a' false] ++ [.push '?' true, .push '.' true] := rfl
  have optional : Introduced (pushes false "a?.".toList) false := .optional split
  have privateMark : Introduced (pushes false "this.#".toList) true := .privateMark rfl
  constructor
  · exact (name_divides_iff (word_of_keyword keyword) optional).1.mpr (by decide)
  · exact (name_divides_iff word privateMark).1.mpr (by decide)

/-- The name of a private member is taken for an operator if it is spelled like one, and the slash
behind it for the start of a regular expression. -/
theorem private_name_opens_regex :
    minify "this.new / 2" = .ok "\nthis.new/2" ∧
      minify "this.#new / 2" = .error ⟨.regex, ⟨10, 1, 11⟩⟩ ∧
      ¬∀ (history : List Operation) (glued : Bool) (text : List Char), Word text →
        Introduced history glued →
        (Token.after (history ++ pushes glued text)).opensRegex = false := by
  refine ⟨?_, ?_, ?_⟩
  · exact minify_eq_ok_iff.mpr (by decide +kernel)
  · exact minify_eq_error_iff.mpr ⟨⟨.regex, "/ 2".toList⟩, by decide +kernel, by decide +kernel⟩
  · intro always
    have keyword : "new".toList ∈ operandKeywords := by decide
    have divides := always (pushes false "#".toList) true "new".toList (word_of_keyword keyword)
      (.privateMark rfl)
    exact absurd divides (by decide)

end Elision
