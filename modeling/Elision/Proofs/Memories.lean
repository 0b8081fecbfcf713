import Elision.Proofs.Separation
import Elision.Proofs.Tracked

namespace Elision

/-- The states between two turns of a run, each with the text that is left. A turn reads one lexeme
and takes it. -/
inductive Reached (buffer source : List Char) : Writer → List Char → Prop
  | start : Reached buffer source (.start buffer) (dropMark source)
  | turn {writer c cs got} : Reached buffer source writer (c :: cs) →
      Lexeme.read writer.token.opensRegex c cs = .ok got →
      Reached buffer source (writer.accept got.lexeme got.rest.head?) got.rest

section Reached

variable {buffer source unread : List Char} {writer : Writer}

/-- The run of the source passes through each of these states. -/
theorem Reached.scan_eq (reached : Reached buffer source writer unread) :
    ∃ seen, scan buffer source = writer.run seen unread := by
  induction reached with
  | start => exact ⟨[], rfl⟩
  | @turn writer c cs got _ closed ih =>
    obtain ⟨seen, atScan⟩ := ih
    obtain ⟨atText, legible⟩ := Lexeme.read_eq_ok_iff.mp closed
    refine ⟨got.lexeme :: seen, ?_⟩
    rw [atScan, ← atText, Writer.run_legible legible]

theorem Reached.run (reached : Reached buffer source writer unread) (seen : List Lexeme) :
    Reached buffer source (writer.run seen unread).writer (writer.run seen unread).unread := by
  fun_induction Writer.run writer seen unread with
  | case1 => exact reached
  | case2 => exact reached
  | case3 writer seen c cs got closed _ ih => exact ih (.turn reached closed)

/-- The state in which a run ends is one of them. -/
theorem scan_reached (buffer source : List Char) :
    Reached buffer source (scan buffer source).writer (scan buffer source).unread :=
  Reached.start.run []

end Reached

/-- What a writer remembers of its own output: `appended` is what it has written behind the buffer and
the line break, the last character kept is the end of that, and so is the word or number in the last
token. -/
structure Writer.Recalls (buffer : List Char) (writer : Writer) (appended : List Char) : Prop where
  out : writer.out.reverse = buffer ++ '\n' :: appended
  last : appended.getLast? = writer.last.map Retained.char
  fits : writer.token.Fits writer.last
  text : writer.token.text <:+ appended

theorem Writer.recalls_start (buffer : List Char) : (Writer.start buffer).Recalls buffer [] :=
  ⟨by simp [Writer.start], rfl, rfl, List.nil_suffix⟩

namespace Token

theorem text_extend? {token longer : Token} {c : Char} (extends_ : token.extend? c = some longer) :
    longer.text = token.text ++ [c] := by
  cases token with
  | word text property =>
    simp only [extend?, Option.ite_none_right_eq_some] at extends_
    cases extends_.2
    rfl
  | number text =>
    simp only [extend?, Option.ite_none_right_eq_some] at extends_
    cases extends_.2
    rfl
  | start | literal | regex | closer | increment | punct => cases extends_

theorem text_follow (token : Token) (c : Char) (glued : Bool) :
    (token.follow c glued).text <:+ [c] ∨
      glued = true ∧ token = .punct '.' ∧ (token.follow c glued).text = ['.', c] := by
  unfold follow
  split
  · split
    · rename_i point
      simp only [Bool.and_eq_true, decide_eq_true_eq] at point
      exact .inr ⟨point.1, point.2, rfl⟩
    · exact .inl List.suffix_rfl
  · split
    · exact .inl List.suffix_rfl
    · split
      · exact .inl List.nil_suffix
      · split <;> exact .inl List.nil_suffix

/-- With one more character the text of a token is at most that character, unless this stands right
behind it: then the text may go on, or take back a dot that was recorded as a mark. -/
theorem text_push (token : Token) (c : Char) (glued : Bool) :
    (token.push c glued).text <:+ [c] ∨
      glued = true ∧ ((token.push c glued).text = token.text ++ [c] ∨
        token = .punct '.' ∧ (token.push c glued).text = ['.', c]) := by
  rcases token.push_cases c glued with ⟨isGlued, longer⟩ | begins
  · exact .inr ⟨isGlued, .inl (text_extend? longer)⟩
  · rw [begins]
    exact (token.text_follow c glued).imp_right fun point => ⟨point.1, .inr point.2⟩

end Token

section Recalls

variable {buffer appended : List Char} {writer : Writer} {piece : Lexeme}

/-- A character right behind the output makes up the text of its token with what the token held. -/
theorem Writer.Recalls.text_push (recalls : writer.Recalls buffer appended) {c : Char}
    {ahead : Option Char} :
    (writer.token.push c writer.isGlued).text <:+ appended ++ writer.joint c ahead ++ [c] := by
  rcases writer.token.text_push c writer.isGlued with short | ⟨glued, goesOn⟩
  · exact short.trans (List.suffix_append _ _)
  · have noJoint : writer.joint c ahead = [] := (Joins.glued glued).joint_eq
    rw [noJoint, List.append_nil]
    rcases goesOn with longer | ⟨atDot, pointed⟩
    · obtain ⟨front, atText⟩ := recalls.text
      rw [longer, ← atText]
      exact ⟨front, by simp⟩
    · -- The dot is no text of its token, but the last character kept.
      have fits := recalls.fits
      rw [atDot] at fits
      have atEnd : appended.getLast? = some '.' := by rw [recalls.last, fits.1]; rfl
      obtain ⟨front, atFront⟩ := List.getLast?_eq_some_iff.mp atEnd
      rw [pointed, atFront]
      exact ⟨front, by simp⟩

/-- What is kept next is written behind a joint, and is then all that is remembered. -/
theorem Writer.Recalls.keep (recalls : writer.Recalls buffer appended) (kept : piece.gap? = none)
    (whole : piece.Whole) (ahead : Option Char) :
    (writer.keep piece ahead).Recalls buffer
      (appended ++ writer.joint piece.first ahead ++ piece.text) := by
  refine ⟨?_, ?_, Writer.keep_fits kept whole writer ahead, ?_⟩
  · simp [Writer.keep, recalls.out]
  · rw [List.getLast?_append, Lexeme.getLast?_text kept whole]
    rfl
  · cases piece with
    | code c => exact recalls.text_push
    | quoted | regex => exact List.nil_suffix
    | blank | lineBreak | lineComment | blockComment => cases kept

theorem Writer.Recalls.accept (recalls : writer.Recalls buffer appended) (whole : piece.Whole)
    (ahead : Option Char) : ∃ more, (writer.accept piece ahead).Recalls buffer more := by
  cases atGap : piece.gap? with
  | some gap =>
    rw [writer.accept_elided (by simp [atGap])]
    exact ⟨appended, recalls.out, recalls.last, recalls.fits, recalls.text⟩
  | none =>
    rw [writer.accept_kept atGap]
    exact ⟨_, recalls.keep atGap whole ahead⟩

end Recalls

theorem Reached.recalls {buffer source unread : List Char} {writer : Writer}
    (reached : Reached buffer source writer unread) :
    ∃ appended, writer.Recalls buffer appended := by
  induction reached with
  | start => exact ⟨[], Writer.recalls_start buffer⟩
  | turn _ closed ih =>
    obtain ⟨appended, recalls⟩ := ih
    exact recalls.accept (Lexeme.legible_of_read closed).whole _

/-- Only before the first character kept there is no token. -/
theorem Token.Fits.eq_none_iff {token : Token} {last : Option Retained} (fits : token.Fits last) :
    last = none ↔ token = .start := by
  cases token with
  | start => exact ⟨fun _ => rfl, fun _ => fits⟩
  | word | number | literal =>
    obtain ⟨c, rfl, _⟩ := fits
    simp
  | regex =>
    rcases fits with rfl | ⟨c, rfl, _⟩ <;> simp
  | closer | increment =>
    rcases fits with rfl | rfl <;> simp
  | punct c =>
    obtain ⟨rfl, _⟩ := fits
    simp

theorem Token.Fits.eq_regex {token : Token} {last : Retained} (fits : token.Fits (some last))
    (closes : last.closesRegex = true) : token = .regex ∧ last.char = '/' := by
  cases token with
  | start => cases fits
  | word | number | literal =>
    obtain ⟨c, same, _⟩ := fits
    cases same
    cases closes
  | regex =>
    rcases fits with same | ⟨c, same, _⟩
    · cases same
      exact ⟨rfl, rfl⟩
    · cases same
      cases closes
  | closer | increment =>
    rcases fits with same | same <;> cases same <;> cases closes
  | punct c =>
    cases fits.1
    cases closes

/-- Between any two turns of a run, the last character kept, the last token and the end of the output
tell of the same token. -/
theorem memories_agree {buffer source : String} {writer : Writer} {unread : List Char}
    (reached : Reached buffer.toList source.toList writer unread) :
    (∃ seen, scan buffer.toList source.toList = writer.run seen unread) ∧
      ∃ appended, writer.out.reverse = buffer.toList ++ '\n' :: appended ∧
        (writer.last = none ↔ writer.token = .start) ∧
        (writer.last = none ↔ appended = []) ∧
        (∀ last, writer.last = some last → appended.getLast? = some last.char) ∧
        writer.token.Fits writer.last ∧
        (∀ last, writer.last = some last → last.closesRegex = true →
          writer.token = .regex ∧ last.char = '/') ∧
        writer.token.text <:+ appended := by
  obtain ⟨appended, recalls⟩ := reached.recalls
  have atEnd := recalls.last
  refine ⟨reached.scan_eq, appended, recalls.out, recalls.fits.eq_none_iff, ?_, ?_, recalls.fits, ?_,
    recalls.text⟩
  · rw [← List.getLast?_eq_none_iff, atEnd, Option.map_eq_none_iff]
  · intro last atLast
    rw [atEnd, atLast]
    rfl
  · intro last atLast closes
    have fits := recalls.fits
    rw [atLast] at fits
    exact fits.eq_regex closes

/-- A number with its decimal point behind a buffer and before a string that is left open, and a
regular expression without flags at the end. -/
theorem memories_agree_number :
    (scan "y".toList "x = 5. 'open".toList).unread = "'open".toList ∧
      (scan "y".toList "x = 5. 'open".toList).writer.last = some ⟨'.', false⟩ ∧
      (scan "y".toList "x = 5. 'open".toList).writer.token = .number "5.".toList ∧
      (∃ appended, (scan "y".toList "x = 5. 'open".toList).writer.out.reverse =
        "y".toList ++ '\n' :: appended ∧ "5.".toList <:+ appended) ∧
      (scan [] "a = /[/]/ ".toList).writer.last = some ⟨'/', true⟩ ∧
      (scan [] "a = /[/]/ ".toList).writer.token = .regex := by
  have atToken : (scan "y".toList "x = 5. 'open".toList).writer.token = .number "5.".toList := by
    decide +kernel
  have closes : (scan [] "a = /[/]/ ".toList).writer.last = some ⟨'/', true⟩ := by decide +kernel
  obtain ⟨_, appended, atOut, _, _, _, _, _, text⟩ :=
    @memories_agree "y" "x = 5. 'open" _ _ (scan_reached _ _)
  obtain ⟨_, _, _, _, _, _, _, regex, _⟩ := @memories_agree "" "a = /[/]/ " _ _ (scan_reached _ _)
  rw [atToken] at text
  refine ⟨by decide +kernel, by decide +kernel, atToken, ⟨appended, atOut, text⟩, closes, ?_⟩
  exact (regex _ closes rfl).1

end Elision
