import Elision.Proofs.Grammar

namespace Elision

/-- The backslashes at the end of a text. -/
def trailingBackslashes (text : List Char) : Nat :=
  (text.reverse.takeWhile (· = '\\')).length

/-- Whether a character behind this text of a literal is escaped: backslashes right before it take
each other in pairs, and one is left for the character. -/
def endsEscaped (text : List Char) : Bool :=
  trailingBackslashes text % 2 = 1

theorem trailingBackslashes_le (text : List Char) : trailingBackslashes text ≤ text.length := by
  have bound : trailingBackslashes text ≤ text.reverse.length :=
    (List.takeWhile_prefix (· = '\\')).length_le
  rwa [List.length_reverse] at bound

/-- A character in front counts only if it is a backslash and nothing else stands behind it. -/
theorem trailingBackslashes_cons (c : Char) (text : List Char) :
    trailingBackslashes (c :: text) =
      if trailingBackslashes text = text.length ∧ c = '\\' then text.length + 1
      else trailingBackslashes text := by
  unfold trailingBackslashes
  rw [List.reverse_cons, List.takeWhile_append, List.length_reverse]
  by_cases all : (text.reverse.takeWhile (· = '\\')).length = text.length
  · by_cases backslash : c = '\\'
    · simp [all, backslash]
    · simp [all, backslash]
  · simp [all]

theorem endsEscaped_cons {c : Char} (plain : c ≠ '\\') (text : List Char) :
    endsEscaped (c :: text) = endsEscaped text := by
  rw [endsEscaped, trailingBackslashes_cons, if_neg (by simp [plain])]
  rfl

/-- A backslash and the character that it takes change nothing for what stands behind them. -/
theorem endsEscaped_pair (c : Char) (text : List Char) :
    endsEscaped ('\\' :: c :: text) = endsEscaped text := by
  have bound := trailingBackslashes_le text
  have inner := trailingBackslashes_cons c text
  have outer := trailingBackslashes_cons '\\' (c :: text)
  simp only [and_true, List.length_cons] at outer
  have parity : trailingBackslashes ('\\' :: c :: text) % 2 = trailingBackslashes text % 2 := by
    by_cases both : trailingBackslashes text = text.length ∧ c = '\\'
    · rw [if_pos both] at inner
      rw [if_pos inner] at outer
      omega
    · rw [if_neg both] at inner
      rw [if_neg (by omega)] at outer
      omega
  unfold endsEscaped
  rw [parity]

/-- Every `c` in the text is escaped. -/
def AllEscaped (c : Char) (text : List Char) : Prop :=
  ∀ before after, text = before ++ c :: after → endsEscaped before = true

section AllEscaped

variable {c d : Char} {text : List Char}

theorem allEscaped_nil : AllEscaped d [] := by
  intro before after split
  simp at split

theorem allEscaped_cons_iff (plain : c ≠ '\\') :
    AllEscaped d (c :: text) ↔ c ≠ d ∧ AllEscaped d text := by
  constructor
  · intro escaped
    refine ⟨?_, ?_⟩
    · rintro rfl
      exact absurd (escaped [] text rfl) (by decide)
    · rintro before after rfl
      rw [← endsEscaped_cons plain]
      exact escaped (c :: before) after rfl
  · rintro ⟨other, escaped⟩ before after split
    rcases List.cons_eq_append_iff.mp split with ⟨rfl, same⟩ | ⟨before, rfl, rfl⟩
    · exact absurd (List.cons.inj same).1.symm other
    · rw [endsEscaped_cons plain]
      exact escaped before after rfl

theorem allEscaped_backslash (plain : d ≠ '\\') : AllEscaped d ['\\'] := by
  intro before after split
  rcases List.cons_eq_append_iff.mp split with ⟨rfl, same⟩ | ⟨before, rfl, same⟩
  · exact absurd (List.cons.inj same).1 plain
  · simp at same

theorem allEscaped_pair_iff (plain : d ≠ '\\') :
    AllEscaped d ('\\' :: c :: text) ↔ AllEscaped d text := by
  constructor
  · rintro escaped before after rfl
    rw [← endsEscaped_pair c]
    exact escaped ('\\' :: c :: before) after rfl
  · intro escaped before after split
    rcases List.cons_eq_append_iff.mp split with ⟨rfl, same⟩ | ⟨before, rfl, later⟩
    · exact absurd (List.cons.inj same).1 plain
    · rcases List.cons_eq_append_iff.mp later with ⟨rfl, same⟩ | ⟨before, rfl, rfl⟩
      · rfl
      · rw [endsEscaped_pair]
        exact escaped before after rfl

end AllEscaped

/-- A string is left open exactly if every later quote of its kind is escaped. -/
theorem takeQuoted_eq_none_iff {quote : Char} {taken cs : List Char} (plain : quote ≠ '\\') :
    takeQuoted quote taken cs = none ↔ AllEscaped quote cs := by
  fun_induction takeQuoted quote taken cs with
  | case1 => simp [allEscaped_nil]
  | case2 => simp [allEscaped_backslash plain]
  | case3 taken escaped cs ih => rw [ih, allEscaped_pair_iff plain]
  | case4 taken cs noEscape => simp [allEscaped_cons_iff noEscape]
  | case5 taken c cs noEscape other ih => rw [ih, allEscaped_cons_iff noEscape, and_iff_right other]

/-- The text ends inside a class in brackets: one was opened, and not closed since. -/
def EndsInClass (text : List Char) : Prop :=
  ∃ before inside, text = before ++ '[' :: inside ∧ endsEscaped before = false ∧ AllEscaped ']' inside

/-- The same for a text that may stand in a class already. -/
def StaysInClass (inClass : Bool) (text : List Char) : Prop :=
  inClass = true ∧ AllEscaped ']' text ∨ EndsInClass text

section StaysInClass

variable {inClass : Bool} {c : Char} {text : List Char}

theorem staysInClass_nil : StaysInClass inClass [] ↔ inClass = true := by
  simp [StaysInClass, EndsInClass, allEscaped_nil]

theorem endsInClass_cons_iff (plain : c ≠ '\\') :
    EndsInClass (c :: text) ↔ c = '[' ∧ AllEscaped ']' text ∨ EndsInClass text := by
  constructor
  · rintro ⟨before, inside, split, unescaped, escaped⟩
    rcases List.cons_eq_append_iff.mp split with ⟨rfl, same⟩ | ⟨before, rfl, rfl⟩
    · obtain ⟨rfl, rfl⟩ := List.cons.inj same
      exact .inl ⟨rfl, escaped⟩
    · rw [endsEscaped_cons plain] at unescaped
      exact .inr ⟨before, inside, rfl, unescaped, escaped⟩
  · rintro (⟨rfl, escaped⟩ | ⟨before, inside, rfl, unescaped, escaped⟩)
    · exact ⟨[], text, rfl, rfl, escaped⟩
    · exact ⟨c :: before, inside, rfl, by rwa [endsEscaped_cons plain], escaped⟩

theorem endsInClass_pair_iff : EndsInClass ('\\' :: c :: text) ↔ EndsInClass text := by
  constructor
  · rintro ⟨before, inside, split, unescaped, escaped⟩
    rcases List.cons_eq_append_iff.mp split with ⟨rfl, same⟩ | ⟨before, rfl, later⟩
    · cases (List.cons.inj same).1
    · rcases List.cons_eq_append_iff.mp later with ⟨rfl, same⟩ | ⟨before, rfl, rfl⟩
      · cases unescaped
      · rw [endsEscaped_pair] at unescaped
        exact ⟨before, inside, rfl, unescaped, escaped⟩
  · rintro ⟨before, inside, rfl, unescaped, escaped⟩
    exact ⟨'\\' :: c :: before, inside, rfl, by rwa [endsEscaped_pair], escaped⟩

theorem staysInClass_pair_iff :
    StaysInClass inClass ('\\' :: c :: text) ↔ StaysInClass inClass text := by
  rw [StaysInClass, endsInClass_pair_iff, allEscaped_pair_iff (by decide)]
  rfl

theorem staysInClass_open_iff : StaysInClass inClass ('[' :: text) ↔ StaysInClass true text := by
  rw [StaysInClass, endsInClass_cons_iff (by decide), allEscaped_cons_iff (by decide)]
  simp only [StaysInClass]
  grind

theorem staysInClass_close_iff : StaysInClass inClass (']' :: text) ↔ StaysInClass false text := by
  rw [StaysInClass, endsInClass_cons_iff (by decide), allEscaped_cons_iff (by decide)]
  simp [StaysInClass]

theorem staysInClass_cons_iff (special : c ∉ ['\\', '[', ']']) :
    StaysInClass inClass (c :: text) ↔ StaysInClass inClass text := by
  simp only [List.mem_cons, List.not_mem_nil, or_false, not_or] at special
  obtain ⟨plain, noOpen, noClose⟩ := special
  rw [StaysInClass, endsInClass_cons_iff plain, allEscaped_cons_iff plain]
  simp [StaysInClass, noOpen, noClose]

end StaysInClass

/-- Every slash on the rest of the line is escaped or inside a class. -/
def SlashesStay (inClass : Bool) (text : List Char) : Prop :=
  ∀ before after, text = before ++ '/' :: after → (∀ c ∈ before, isLineTerminator c = false) →
    endsEscaped before = false → StaysInClass inClass before

section SlashesStay

variable {inClass behind : Bool} {c : Char} {text : List Char}

theorem slashesStay_nil : SlashesStay inClass [] := by
  intro before after split
  simp at split

/-- Nothing behind the end of the line counts. -/
theorem slashesStay_lineEnd (lineEnd : isLineTerminator c = true) : SlashesStay inClass (c :: text) := by
  intro before after split sameLine _
  rcases List.cons_eq_append_iff.mp split with ⟨rfl, same⟩ | ⟨before, rfl, rfl⟩
  · cases (List.cons.inj same).1
    cases lineEnd
  · rw [sameLine c List.mem_cons_self] at lineEnd
    cases lineEnd

theorem slashesStay_cons_iff (plain : c ≠ '\\') (sameLine : isLineTerminator c = false)
    (stays : ∀ before, StaysInClass inClass (c :: before) ↔ StaysInClass behind before) :
    SlashesStay inClass (c :: text) ↔ (c = '/' → inClass = true) ∧ SlashesStay behind text := by
  constructor
  · intro slashes
    refine ⟨?_, ?_⟩
    · rintro rfl
      exact staysInClass_nil.mp (slashes [] text rfl (by simp) rfl)
    · rintro before after rfl noEnd unescaped
      rw [← stays]
      refine slashes (c :: before) after rfl ?_ (by rwa [endsEscaped_cons plain])
      simpa using ⟨sameLine, noEnd⟩
  · rintro ⟨closing, slashes⟩ before after split noEnd unescaped
    rcases List.cons_eq_append_iff.mp split with ⟨rfl, same⟩ | ⟨before, rfl, rfl⟩
    · exact staysInClass_nil.mpr (closing (List.cons.inj same).1.symm)
    · rw [endsEscaped_cons plain] at unescaped
      rw [stays]
      exact slashes before after rfl (fun d member => noEnd d (List.mem_cons_of_mem c member)) unescaped

theorem slashesStay_backslash : SlashesStay inClass ['\\'] := by
  intro before after split
  rcases List.cons_eq_append_iff.mp split with ⟨rfl, same⟩ | ⟨before, rfl, same⟩
  · cases (List.cons.inj same).1
  · simp at same

theorem slashesStay_pair_iff :
    SlashesStay inClass ('\\' :: c :: text) ↔
      (isLineTerminator c = false → SlashesStay inClass text) := by
  constructor
  · rintro slashes sameLine before after rfl noEnd unescaped
    rw [← staysInClass_pair_iff]
    refine slashes ('\\' :: c :: before) after rfl ?_ (by rwa [endsEscaped_pair])
    simpa using ⟨rfl, sameLine, noEnd⟩
  · intro slashes before after split noEnd unescaped
    rcases List.cons_eq_append_iff.mp split with ⟨rfl, same⟩ | ⟨before, rfl, later⟩
    · cases (List.cons.inj same).1
    · rcases List.cons_eq_append_iff.mp later with ⟨rfl, same⟩ | ⟨before, rfl, rfl⟩
      · cases unescaped
      · simp only [List.mem_cons, forall_eq_or_imp] at noEnd
        rw [endsEscaped_pair] at unescaped
        rw [staysInClass_pair_iff]
        exact slashes noEnd.2.1 before after rfl noEnd.2.2 unescaped

end SlashesStay

/-- A regular expression is left open exactly if no slash on its line closes it. -/
theorem takeRegexBody_eq_none_iff {inClass : Bool} {taken cs : List Char} :
    takeRegexBody inClass taken cs = none ↔ SlashesStay inClass cs := by
  fun_induction takeRegexBody inClass taken cs with
  | case1 => simp [slashesStay_nil]
  | case2 inClass taken c cs lineEnd => simp [slashesStay_lineEnd lineEnd]
  | case3 => simp [slashesStay_backslash]
  | case4 inClass taken escaped cs lineEnd _ => simp [slashesStay_pair_iff, lineEnd]
  | case5 inClass taken escaped cs sameLine _ ih =>
    rw [Bool.not_eq_true] at sameLine
    simp [ih, slashesStay_pair_iff, sameLine]
  | case6 inClass taken cs sameLine _ ih =>
    rw [Bool.not_eq_true] at sameLine
    rw [ih, slashesStay_cons_iff (by decide) sameLine fun _ => staysInClass_open_iff]
    simp
  | case7 inClass taken cs sameLine _ _ ih =>
    rw [Bool.not_eq_true] at sameLine
    rw [ih, slashesStay_cons_iff (by decide) sameLine fun _ => staysInClass_close_iff]
    simp
  | case8 inClass taken c cs sameLine noEscape noOpen noClose closing =>
    rw [Bool.not_eq_true] at sameLine
    have special : c ∉ ['\\', '[', ']'] := by simp [noEscape, noOpen, noClose]
    rw [slashesStay_cons_iff noEscape sameLine fun _ => staysInClass_cons_iff special]
    simp_all
  | case9 inClass taken c cs sameLine noEscape noOpen noClose inner ih =>
    rw [Bool.not_eq_true] at sameLine
    have special : c ∉ ['\\', '[', ']'] := by simp [noEscape, noOpen, noClose]
    rw [ih, slashesStay_cons_iff noEscape sameLine fun _ => staysInClass_cons_iff special]
    simp_all

end Elision
