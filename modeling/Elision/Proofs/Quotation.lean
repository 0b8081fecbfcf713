import Mathlib.Data.List.Forall2
import Elision.Proofs.Descent
import Elision.Proofs.Reading

namespace Elision

/-- The quote stands at a place of the text with an even number of backslashes right before it. -/
def ClosesAt (quote : Char) (cs : List Char) (i : Nat) : Prop :=
  cs[i]? = some quote ∧ trailingBackslashes (cs.take i) % 2 = 0

section ClosesAt

variable {quote : Char} {cs : List Char} {i : Nat}

/-- Counting backslashes back from a place decides about the escapes read up to it. -/
theorem closesAt_iff :
    ClosesAt quote cs i ↔
      ∃ before after, cs = before ++ quote :: after ∧ before.length = i ∧
        endsEscaped before = false := by
  constructor
  · rintro ⟨atQuote, even⟩
    obtain ⟨inside, rfl⟩ := List.getElem?_eq_some_iff.mp atQuote
    refine ⟨cs.take i, cs.drop (i + 1), ?_, ?_, ?_⟩
    · rw [← List.drop_eq_getElem_cons inside, List.take_append_drop]
    · rw [List.length_take]
      omega
    · rw [endsEscaped, even]
      rfl
  · rintro ⟨before, after, rfl, rfl, unescaped⟩
    rw [endsEscaped, decide_eq_false_iff_not] at unescaped
    refine ⟨by simp, ?_⟩
    rw [List.take_left]
    omega

theorem allEscaped_iff_not_closesAt : AllEscaped quote cs ↔ ¬∃ i, ClosesAt quote cs i := by
  constructor
  · rintro escaped ⟨i, closes⟩
    obtain ⟨before, after, split, _, unescaped⟩ := closesAt_iff.mp closes
    rw [escaped before after split] at unescaped
    cases unescaped
  · intro isOpen before after split
    by_cases escaped : endsEscaped before = true
    · exact escaped
    · rw [Bool.not_eq_true] at escaped
      exact absurd ⟨_, closesAt_iff.mpr ⟨before, after, split, rfl, escaped⟩⟩ isOpen

/-- What a string takes ends with a quote that is not escaped, and every quote before it is. -/
theorem QuotedTail.first {part : List Char} (tail : QuotedTail quote part) (plain : quote ≠ '\\') :
    ∃ body, part = body ++ [quote] ∧ endsEscaped body = false ∧ AllEscaped quote body := by
  induction tail with
  | close _ => exact ⟨[], rfl, rfl, allEscaped_nil⟩
  | @escape c cs _ ih =>
    obtain ⟨body, rfl, unescaped, escaped⟩ := ih
    refine ⟨'\\' :: c :: body, rfl, ?_, (allEscaped_pair_iff plain).mpr escaped⟩
    rw [endsEscaped_pair, unescaped]
  | @plain c cs noEscape other _ ih =>
    obtain ⟨body, rfl, unescaped, escaped⟩ := ih
    refine ⟨c :: body, rfl, ?_, (allEscaped_cons_iff noEscape).mpr ⟨other, escaped⟩⟩
    rw [endsEscaped_cons noEscape, unescaped]

theorem not_closesAt_of_lt {body rest : List Char} (escaped : AllEscaped quote body)
    (before : i < body.length) : ¬ClosesAt quote (body ++ rest) i := by
  rintro ⟨atQuote, even⟩
  refine allEscaped_iff_not_closesAt.mp escaped ⟨i, ?_, ?_⟩
  · rwa [List.getElem?_append_left before] at atQuote
  · rwa [List.take_append_of_le_length (Nat.le_of_lt before)] at even

theorem takeQuoted_eq_none_iff_closesAt (plain : quote ≠ '\\') {taken : List Char} :
    takeQuoted quote taken cs = none ↔ ¬∃ i, ClosesAt quote cs i := by
  rw [takeQuoted_eq_none_iff plain, allEscaped_iff_not_closesAt]

/-- Where a string can be closed, it is, at the first such place. -/
theorem takeQuoted_at_first (plain : quote ≠ '\\') (closes : ∃ i, ClosesAt quote cs i)
    (taken : List Char) :
    ∃ i, ClosesAt quote cs i ∧ (∀ j < i, ¬ClosesAt quote cs j) ∧
      takeQuoted quote taken cs = some ⟨(cs.take (i + 1)).reverse ++ taken, cs.drop (i + 1)⟩ := by
  obtain ⟨cut, closed⟩ : ∃ cut, takeQuoted quote taken cs = some cut := by
    rw [← Option.ne_none_iff_exists', ne_eq, takeQuoted_eq_none_iff_closesAt plain]
    exact not_not_intro closes
  obtain ⟨part, tail, split, atTaken⟩ := takeQuoted_eq_some_iff.mp closed
  obtain ⟨body, rfl, unescaped, escaped⟩ := tail.first plain
  rw [List.append_assoc, List.singleton_append] at split
  have width : (body ++ [quote]).length = body.length + 1 := by simp
  have whole : cs = (body ++ [quote]) ++ cut.rest := by simp [split]
  refine ⟨body.length, closesAt_iff.mpr ⟨body, cut.rest, split, rfl, unescaped⟩, ?_, ?_⟩
  · intro j before
    rw [split]
    exact not_closesAt_of_lt escaped before
  · rw [closed, whole, ← width, List.take_left, List.drop_left, ← atTaken]

/-- There is only one first place. -/
theorem ClosesAt.first_unique {j : Nat} (closes : ClosesAt quote cs i)
    (first : ∀ k < i, ¬ClosesAt quote cs k) (again : ClosesAt quote cs j)
    (alsoFirst : ∀ k < j, ¬ClosesAt quote cs k) : i = j := by
  have notBefore : ¬i < j := fun before => alsoFirst i before closes
  have notBehind : ¬j < i := fun behind => first j behind again
  omega

end ClosesAt

/-- Two texts have their quotes and backslashes at the same places. -/
def SameMarks (quote : Char) (cs ds : List Char) : Prop :=
  List.Forall₂ (fun c d => (c = quote ↔ d = quote) ∧ (c = '\\' ↔ d = '\\')) cs ds

/-- No other character has an influence on where a string ends. -/
theorem SameMarks.rest_length {quote : Char} {cs ds : List Char} (same : SameMarks quote cs ds)
    (taken others : List Char) :
    (takeQuoted quote taken cs).map (·.rest.length) =
      (takeQuoted quote others ds).map (·.rest.length) := by
  fun_induction takeQuoted quote taken cs generalizing ds others with
  | case1 =>
    cases same
    rfl
  | case2 =>
    obtain - | ⟨marks, same⟩ := same
    cases same
    simp [takeQuoted, marks.2.mp rfl]
  | case3 taken escaped cs ih =>
    obtain - | ⟨marks, same⟩ := same
    obtain - | ⟨_, same⟩ := same
    rw [takeQuoted, if_pos (marks.2.mp rfl)]
    exact ih same _
  | case4 taken cs plain =>
    obtain - | ⟨marks, same⟩ := same
    rw [takeQuoted.eq_def, marks.1.mp rfl]
    simpa [plain] using same.length_eq
  | case5 taken c cs plain other ih =>
    obtain - | @⟨_, d, _, ds, marks, same⟩ := same
    have noEscape : d ≠ '\\' := fun escape => plain (marks.2.mpr escape)
    have noQuote : d ≠ quote := fun atQuote => other (marks.1.mpr atQuote)
    rw [takeQuoted.eq_def quote others]
    simpa [noEscape, noQuote] using ih same (d :: others)

/-- A string is read up to a place, in code and in the substitution of a template. -/
structure TakesQuoted (quote : Char) (cs : List Char) (i : Nat) : Prop where
  scanned : ∀ taken, takeQuoted quote taken cs =
    some ⟨(cs.take (i + 1)).reverse ++ taken, cs.drop (i + 1)⟩
  inCode : ∀ opensRegex, Lexeme.read opensRegex quote cs =
    .ok ⟨.quoted quote (cs.take (i + 1)), cs.drop (i + 1)⟩
  inTemplate : ∀ unclosed depth outer operand taken,
    takeTemplate unclosed (.code depth :: outer) operand taken (quote :: cs) =
      takeTemplate unclosed (.code depth :: outer) false
        ((cs.take (i + 1)).reverse ++ quote :: taken) (cs.drop (i + 1))

/-- A string is reported as open, with the place of its quote. -/
structure LeavesQuotedOpen (quote : Char) (cs : List Char) : Prop where
  scanned : ∀ taken, takeQuoted quote taken cs = none
  inCode : ∀ opensRegex, Lexeme.read opensRegex quote cs = .error ⟨.string, quote :: cs⟩
  inTemplate : ∀ unclosed depth outer operand taken,
    takeTemplate unclosed (.code depth :: outer) operand taken (quote :: cs) =
      .error ⟨.string, quote :: cs⟩

section Readers

variable {quote : Char} {cs : List Char} {i : Nat}

theorem takesQuoted_of_first (isQuote : classify quote = .quote) (noTemplate : quote ≠ backtick)
    (closes : ClosesAt quote cs i) (first : ∀ j < i, ¬ClosesAt quote cs j) :
    TakesQuoted quote cs i := by
  have plain : quote ≠ '\\' := by
    rintro rfl
    cases isQuote
  have scanned (taken : List Char) : takeQuoted quote taken cs =
      some ⟨(cs.take (i + 1)).reverse ++ taken, cs.drop (i + 1)⟩ := by
    obtain ⟨j, again, alsoFirst, closed⟩ := takeQuoted_at_first plain ⟨i, closes⟩ taken
    rw [closed, closes.first_unique first again alsoFirst]
  have tail : QuotedTail quote (cs.take (i + 1)) := by simpa using quotedTail_of_take (scanned [])
  have split : cs.take (i + 1) ++ cs.drop (i + 1) = cs := List.take_append_drop ..
  refine ⟨scanned, ?_, ?_⟩
  · intro opensRegex
    have whole : (Lexeme.quoted quote (cs.take (i + 1))).Whole := .inr ⟨noTemplate, isQuote, tail⟩
    exact Lexeme.read_of_legible ⟨whole, trivial, trivial⟩ (congrArg (quote :: ·) split)
  · intro unclosed depth outer operand taken
    have step : TemplateStep (cs.drop (i + 1)).head? (.code depth :: outer) operand
        (quote :: cs.take (i + 1)) (.code depth :: outer) false := .string isQuote noTemplate tail
    simpa using step.take unclosed taken

theorem leavesQuotedOpen_of_none (isQuote : classify quote = .quote) (noTemplate : quote ≠ backtick)
    (isOpen : ¬∃ i, ClosesAt quote cs i) : LeavesQuotedOpen quote cs := by
  have plain : quote ≠ '\\' := by
    rintro rfl
    cases isQuote
  have scanned (taken : List Char) : takeQuoted quote taken cs = none :=
    (takeQuoted_eq_none_iff_closesAt plain).mpr isOpen
  refine ⟨scanned, ?_, ?_⟩
  · intro opensRegex
    unfold Lexeme.read
    simp [isQuote, noTemplate, scanned]
  · intro unclosed depth outer operand taken
    have escaped := allEscaped_iff_not_closesAt.mpr isOpen
    exact (TemplateStop.string isQuote noTemplate escaped).take outer taken

end Readers

/-- A string ends at the first quote of its kind with an even number of backslashes before it, and the
text up to there is taken as it is. Without such a quote the opening one is reported. Characters other
than quotes of this kind and backslashes have no influence. -/
theorem quoted_ends_unescaped (quote : Char) (isQuote : quote ∈ [doubleQuote, singleQuote])
    (cs : List Char) :
    ((∃ i, ClosesAt quote cs i) ↔
        ∃ i, ClosesAt quote cs i ∧ (∀ j < i, ¬ClosesAt quote cs j) ∧ TakesQuoted quote cs i) ∧
      ((¬∃ i, ClosesAt quote cs i) ↔ LeavesQuotedOpen quote cs) ∧
      ∀ ds, SameMarks quote cs ds → ∀ taken,
        (takeQuoted quote taken cs).map (·.rest.length) =
          (takeQuoted quote taken ds).map (·.rest.length) := by
  have quotes : classify quote = .quote ∧ quote ≠ backtick ∧ quote ≠ '\\' := by
    simp only [List.mem_cons, List.not_mem_nil, or_false] at isQuote
    rcases isQuote with rfl | rfl <;> decide
  obtain ⟨isQuote, noTemplate, plain⟩ := quotes
  refine ⟨⟨?_, ?_⟩, ⟨?_, ?_⟩, ?_⟩
  · intro closes
    obtain ⟨i, closes, first, _⟩ := takeQuoted_at_first plain closes []
    exact ⟨i, closes, first, takesQuoted_of_first isQuote noTemplate closes first⟩
  · rintro ⟨i, closes, _⟩
    exact ⟨i, closes⟩
  · intro isOpen
    exact leavesQuotedOpen_of_none isQuote noTemplate isOpen
  · intro leaves
    exact (takeQuoted_eq_none_iff_closesAt plain).mp (leaves.scanned [])
  · intro ds same taken
    exact same.rest_length taken taken

/-- The quote behind two backslashes closes, the one behind a single backslash does not, and neither a
line break nor the other quote matters. A text that ends in a backslash leaves the string open. -/
theorem quoted_ends_unescaped_run :
    doubleQuote ∈ [doubleQuote, singleQuote] ∧ TakesQuoted doubleQuote "a\\\"\n'\\\\\"b\"".toList 7 ∧
      LeavesQuotedOpen doubleQuote "a\\\"\\".toList := by
  have isQuote : doubleQuote ∈ [doubleQuote, singleQuote] := by decide
  refine ⟨isQuote, ?_, ?_⟩
  · have closes : ClosesAt doubleQuote "a\\\"\n'\\\\\"b\"".toList 7 := ⟨rfl, by decide⟩
    have first : ∀ j < 7, ¬ClosesAt doubleQuote "a\\\"\n'\\\\\"b\"".toList j := by
      unfold ClosesAt
      decide
    obtain ⟨i, again, alsoFirst, takes⟩ :=
      (quoted_ends_unescaped doubleQuote isQuote "a\\\"\n'\\\\\"b\"".toList).1.mp ⟨7, closes⟩
    rwa [closes.first_unique first again alsoFirst]
  · refine (quoted_ends_unescaped doubleQuote isQuote "a\\\"\\".toList).2.1.mp ?_
    exact (takeQuoted_eq_none_iff_closesAt (by decide)).mp
      (rfl : takeQuoted doubleQuote [] "a\\\"\\".toList = none)

end Elision
