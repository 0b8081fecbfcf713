import Elision.Gap
import Elision.Scan.Template
import Elision.Token

namespace Elision

/-- A piece of source text that is elided or kept as a whole. -/
inductive Lexeme
  | blank (c : Char)
  | lineBreak (c : Char)
  /-- Two slashes and the rest of the line. -/
  | lineComment (tail : List Char)
  /-- A slash, a star and the text up to the next star and slash, with these. -/
  | blockComment (tail : List Char)
  /-- One character of code. -/
  | code (c : Char)
  /-- A string or template: its quote and the text up to the closing quote, with that. -/
  | quoted (quote : Char) (tail : List Char)
  /-- A slash and the text up to the closing slash, with that, and the letters behind it. -/
  | regex (tail : List Char) (flags : List Char)
  deriving DecidableEq

namespace Lexeme

/-- The source text of the lexeme. -/
def text : Lexeme → List Char
  | .blank c | .lineBreak c | .code c => [c]
  | .lineComment tail => '/' :: '/' :: tail
  | .blockComment tail => '/' :: '*' :: tail
  | .quoted quote tail => quote :: tail
  | .regex tail flags => '/' :: (tail ++ flags)

/-- The gap that the lexeme leaves, or `none` if it is kept. -/
def gap? : Lexeme → Option Gap
  | .blank _ | .lineComment _ => some .blank
  | .lineBreak _ => some .lineBreak
  | .blockComment tail => some (if tail.any isLineTerminator then .lineBreak else .blank)
  | .code _ | .quoted _ _ | .regex _ _ => none

/-- The first character of the lexeme. -/
def first : Lexeme → Char
  | .blank c | .lineBreak c | .code c => c
  | .quoted quote _ => quote
  | .lineComment _ | .blockComment _ | .regex _ _ => '/'

/-- What a kept lexeme ends with. -/
def last : Lexeme → Retained
  | .regex _ flags =>
    match flags.getLast? with
    | some flag => ⟨flag, false⟩
    | none => ⟨'/', true⟩
  | lexeme => ⟨lexeme.first, false⟩

/-- The last token behind a kept lexeme. It is `glued` when nothing was elided before it. -/
def track (token : Token) (glued : Bool) : Lexeme → Token
  | .code c => token.push c glued
  | .quoted _ _ => .literal
  | .regex _ _ => .regex
  | _ => token

/-- A lexeme read from the head of a text, and the text behind it. -/
structure Read where
  lexeme : Lexeme
  rest : List Char
  deriving DecidableEq

/-- Reads the lexeme that begins with `c` and goes on in `cs`. -/
def read (opensRegex : Bool) (c : Char) (cs : List Char) : Except Unclosed Read :=
  match classify c with
  | .whitespace => .ok ⟨.blank c, cs⟩
  | .newline => .ok ⟨.lineBreak c, cs⟩
  | .slash =>
    if cs.head? = some '/' then
      let cut := takeLineComment [] cs.tail
      .ok ⟨.lineComment cut.taken.reverse, cut.rest⟩
    else if cs.head? = some '*' then
      match takeBlockComment [] cs.tail with
      | none => .error ⟨.comment, c :: cs⟩
      | some cut => .ok ⟨.blockComment cut.taken.reverse, cut.rest⟩
    else if opensRegex then
      match takeRegexBody false [] cs with
      | none => .error ⟨.regex, c :: cs⟩
      | some body =>
        let flags := takeFlags [] body.rest
        .ok ⟨.regex body.taken.reverse flags.taken.reverse, flags.rest⟩
    else .ok ⟨.code c, cs⟩
  | .quote =>
    if c = backtick then
      match takeTemplate ⟨.string, c :: cs⟩ [.text] true [] cs with
      | .error unclosed => .error unclosed
      | .ok cut => .ok ⟨.quoted c cut.taken.reverse, cut.rest⟩
    else
      match takeQuoted c [] cs with
      | none => .error ⟨.string, c :: cs⟩
      | some cut => .ok ⟨.quoted c cut.taken.reverse, cut.rest⟩
  | _ => .ok ⟨if isLineTerminator c then .lineBreak c else .code c, cs⟩

/-- No character of the source is lost or invented by reading a lexeme. -/
theorem read_text {opensRegex : Bool} {c : Char} {cs : List Char} {got : Read}
    (closed : read opensRegex c cs = .ok got) : got.lexeme.text ++ got.rest = c :: cs := by
  unfold read at closed
  split at closed
  · cases closed; rfl
  · cases closed; rfl
  · rename_i isSlash
    cases eq_slash_of_classify isSlash
    split at closed
    · rename_i opening
      obtain ⟨rest, rfl⟩ := List.head?_eq_some_iff.mp opening
      cases closed
      simpa [Cut.text, text] using takeLineComment_text [] rest
    · split at closed
      · rename_i opening
        obtain ⟨rest, rfl⟩ := List.head?_eq_some_iff.mp opening
        split at closed
        · cases closed
        · rename_i cut closing
          cases closed
          simpa [Cut.text, text] using takeBlockComment_text closing
      · split at closed
        · split at closed
          · cases closed
          · rename_i body closing
            cases closed
            have flags := takeRun_text Char.isAlpha [] body.rest
            have inner := takeRegexBody_text closing
            simp only [Cut.text, List.reverse_nil, List.nil_append] at flags inner
            simp [text, takeFlags, flags, inner]
        · cases closed; rfl
  · split at closed
    · split at closed
      · cases closed
      · rename_i cut closing
        cases closed
        simpa [Cut.text, text] using takeTemplate_text closing
    · split at closed
      · cases closed
      · rename_i cut closing
        cases closed
        simpa [Cut.text, text] using takeQuoted_text closing
  · cases closed
    dsimp only
    split <;> rfl

theorem text_length_pos (lexeme : Lexeme) : 0 < lexeme.text.length := by
  cases lexeme <;> simp [text]

theorem read_rest_le {opensRegex : Bool} {c : Char} {cs : List Char} {got : Read}
    (closed : read opensRegex c cs = .ok got) : got.rest.length ≤ cs.length := by
  have whole := congrArg List.length (read_text closed)
  have nonempty := got.lexeme.text_length_pos
  simp only [List.length_append, List.length_cons] at whole
  omega

end Lexeme

end Elision
