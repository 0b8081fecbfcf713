import Elision.Proofs.Descent
import Elision.Proofs.Reading

namespace Elision

/-- A member of a class in brackets. A slash and an opening bracket are members like any other. -/
inductive ClassMember : List Char → Prop
  | plain {c} : c ∉ ['\\', ']'] → isLineTerminator c = false → ClassMember [c]
  | escape {c} : isLineTerminator c = false → ClassMember ['\\', c]

/-- An item of a regular expression. A closing bracket that closes nothing is one by itself. -/
inductive RegexItem : List Char → Prop
  | plain {c} : c ∉ ['\\', '[', '/'] → isLineTerminator c = false → RegexItem [c]
  | escape {c} : isLineTerminator c = false → RegexItem ['\\', c]
  | bracketed {members : List (List Char)} : (∀ member ∈ members, ClassMember member) →
      RegexItem ('[' :: (members.flatten ++ [']']))

/-- A row of items, and the slash that closes the regular expression. -/
def ClosedRegex (text : List Char) : Prop :=
  ∃ items : List (List Char), (∀ item ∈ items, RegexItem item) ∧ text = items.flatten ++ ['/']

/-- The same from inside a class: more members of it and its closing bracket come first. -/
def ClosedFromClass (text : List Char) : Prop :=
  ∃ (members : List (List Char)) (behind : List Char), (∀ member ∈ members, ClassMember member) ∧
    ClosedRegex behind ∧ text = members.flatten ++ ']' :: behind

section Grammar

variable {item member text : List Char}

theorem ClosedRegex.cons (isItem : RegexItem item) (closed : ClosedRegex text) :
    ClosedRegex (item ++ text) := by
  obtain ⟨items, areItems, rfl⟩ := closed
  exact ⟨item :: items, List.forall_mem_cons.mpr ⟨isItem, areItems⟩, by simp⟩

theorem ClosedFromClass.cons (isMember : ClassMember member) (closed : ClosedFromClass text) :
    ClosedFromClass (member ++ text) := by
  obtain ⟨members, behind, areMembers, closed, rfl⟩ := closed
  exact ⟨member :: members, behind, List.forall_mem_cons.mpr ⟨isMember, areMembers⟩, closed,
    by simp⟩

/-- A class that is opened and closed again is one item. -/
theorem ClosedFromClass.bracketed (closed : ClosedFromClass text) : ClosedRegex ('[' :: text) := by
  obtain ⟨members, behind, areMembers, closed, rfl⟩ := closed
  simpa using closed.cons (.bracketed areMembers)

/-- The flag of the scan says which of the two forms the rest has. -/
theorem RegexTail.closed {inClass : Bool} (tail : RegexTail inClass text) :
    if inClass then ClosedFromClass text else ClosedRegex text := by
  induction tail with
  | close => exact ⟨[], by simp⟩
  | @escape inClass c cs sameLine _ ih =>
    cases inClass with
    | false => exact ClosedRegex.cons (.escape sameLine) ih
    | true => exact ClosedFromClass.cons (.escape sameLine) ih
  | @openClass inClass cs _ ih =>
    cases inClass with
    | false => exact ClosedFromClass.bracketed ih
    | true => exact ClosedFromClass.cons (.plain (by decide) rfl) ih
  | @closeClass inClass cs _ ih =>
    cases inClass with
    | false => exact ClosedRegex.cons (.plain (by decide) rfl) ih
    | true => exact ⟨[], cs, by simp, ih, rfl⟩
  | @plain inClass c cs sameLine special slash _ ih =>
    simp only [List.mem_cons, List.not_mem_nil, or_false, not_or] at special
    cases inClass with
    | false =>
      have noSlash : c ≠ '/' := fun atSlash => Bool.noConfusion (slash atSlash)
      exact ClosedRegex.cons (.plain (by simp [special, noSlash]) sameLine) ih
    | true => exact ClosedFromClass.cons (.plain (by simp [special]) sameLine) ih

theorem ClassMember.tail (isMember : ClassMember member) (tail : RegexTail true text) :
    RegexTail true (member ++ text) := by
  cases isMember with
  | @plain c special sameLine =>
    by_cases opens : c = '['
    · subst opens
      exact .openClass tail
    · exact .plain sameLine (by simp_all) (fun _ => rfl) tail
  | escape sameLine => exact .escape sameLine tail

theorem RegexTail.members {members : List (List Char)}
    (areMembers : ∀ member ∈ members, ClassMember member) (tail : RegexTail true text) :
    RegexTail true (members.flatten ++ text) := by
  induction members with
  | nil => exact tail
  | cons member members ih =>
    obtain ⟨isMember, areMembers⟩ := List.forall_mem_cons.mp areMembers
    rw [List.flatten_cons, List.append_assoc]
    exact isMember.tail (ih areMembers)

theorem RegexItem.tail (isItem : RegexItem item) (tail : RegexTail false text) :
    RegexTail false (item ++ text) := by
  cases isItem with
  | @plain c special sameLine =>
    simp only [List.mem_cons, List.not_mem_nil, or_false, not_or] at special
    by_cases closes : c = ']'
    · subst closes
      exact .closeClass tail
    · exact .plain sameLine (by simp [special, closes]) (fun slash => absurd slash special.2.2) tail
  | escape sameLine => exact .escape sameLine tail
  | bracketed areMembers =>
    rw [List.cons_append, List.append_assoc]
    exact .openClass (RegexTail.members areMembers (.closeClass tail))

theorem ClosedRegex.tail (closed : ClosedRegex text) : RegexTail false text := by
  obtain ⟨items, areItems, rfl⟩ := closed
  induction items with
  | nil => exact .close
  | cons item items ih =>
    obtain ⟨isItem, areItems⟩ := List.forall_mem_cons.mp areItems
    rw [List.flatten_cons, List.append_assoc]
    exact isItem.tail (ih areItems)

/-- The automaton with its flag and the grammar with its classes say the same. -/
theorem closedRegex_iff : ClosedRegex text ↔ RegexTail false text :=
  ⟨ClosedRegex.tail, fun tail => by simpa using tail.closed⟩

end Grammar

/-- A regular expression at the front of a text, behind its opening slash: the shortest part that is
closed, and all letters that follow. -/
structure RegexFront (cs part flags rest : List Char) : Prop where
  split : cs = part ++ (flags ++ rest)
  closed : ClosedRegex part
  shortest : ∀ other, ClosedRegex other → other <+: cs → part.length ≤ other.length
  letters : ∀ c ∈ flags, c.isAlpha = true
  stop : ∀ c ∈ rest.head?, c.isAlpha = false

section Front

variable {cs part flags rest : List Char}

/-- No text begins with two closed regular expressions of different lengths. -/
theorem ClosedRegex.unique {other : List Char} (closed : ClosedRegex part) (atPart : part <+: cs)
    (again : ClosedRegex other) (atOther : other <+: cs) : part = other := by
  obtain ⟨rest, rfl⟩ := atPart
  obtain ⟨later, same⟩ := atOther
  have first : takeRegexBody false [] (part ++ rest) = some ⟨part.reverse, rest⟩ :=
    takeRegexBody_eq_some_iff.mpr ⟨part, closed.tail, rfl, by simp⟩
  have second : takeRegexBody false [] (part ++ rest) = some ⟨other.reverse, later⟩ :=
    takeRegexBody_eq_some_iff.mpr ⟨other, again.tail, same.symm, by simp⟩
  have cuts := Option.some.inj (first.symm.trans second)
  exact List.reverse_inj.mp (congrArg Cut.taken cuts)

theorem takeRegex_eq_some_iff_front {taken : List Char} {cut : Cut} :
    takeRegex taken cs = some cut ↔
      ∃ part flags, RegexFront cs part flags cut.rest ∧
        cut.taken = (part ++ flags).reverse ++ taken := by
  rw [takeRegex_eq_some_iff]
  constructor
  · rintro ⟨part, flags, tail, letters, stop, split, atTaken⟩
    have closed := closedRegex_iff.mpr tail
    have atPart : part <+: cs := ⟨flags ++ cut.rest, split.symm⟩
    refine ⟨part, flags, ⟨split, closed, ?_, letters, stop⟩, by simp [atTaken]⟩
    intro other again atOther
    exact Nat.le_of_eq (congrArg List.length (closed.unique atPart again atOther))
  · rintro ⟨part, flags, front, atTaken⟩
    exact ⟨part, flags, front.closed.tail, front.letters, front.stop, front.split,
      by simp [atTaken]⟩

theorem takeRegex_eq_none_iff_front {taken : List Char} :
    takeRegex taken cs = none ↔ ¬∃ part, ClosedRegex part ∧ part <+: cs := by
  constructor
  · rintro isOpen ⟨part, closed, rest, split⟩
    have found : takeRegexBody false taken cs = some ⟨part.reverse ++ taken, rest⟩ :=
      takeRegexBody_eq_some_iff.mpr ⟨part, closed.tail, split.symm, rfl⟩
    simp [takeRegex, found] at isOpen
  · intro isOpen
    cases result : takeRegex taken cs with
    | none => rfl
    | some cut =>
      obtain ⟨part, flags, front, _⟩ := takeRegex_eq_some_iff_front.mp result
      exact absurd ⟨part, front.closed, flags ++ cut.rest, front.split.symm⟩ isOpen

theorem exists_front_iff :
    (∃ part, ClosedRegex part ∧ part <+: cs) ↔ ∃ part flags rest, RegexFront cs part flags rest := by
  constructor
  · intro closes
    cases result : takeRegex [] cs with
    | none => exact absurd closes (takeRegex_eq_none_iff_front.mp result)
    | some cut =>
      obtain ⟨part, flags, front, _⟩ := takeRegex_eq_some_iff_front.mp result
      exact ⟨part, flags, cut.rest, front⟩
  · rintro ⟨part, flags, rest, front⟩
    exact ⟨part, front.closed, flags ++ rest, front.split.symm⟩

end Front

/-- A regular expression is read to its end, in code and in the substitution of a template: what is
taken, what is left, and the last character. -/
structure TakesRegex (cs part flags rest : List Char) : Prop where
  scanned : ∀ taken, takeRegex taken cs = some ⟨(part ++ flags).reverse ++ taken, rest⟩
  inCode : Lexeme.read true '/' cs = .ok ⟨.regex part flags, rest⟩
  last : (part ++ flags).getLast? = some (Lexeme.regex part flags).last.char
  unflagged : flags = [] ↔ (Lexeme.regex part flags).last = ⟨'/', true⟩
  inTemplate : ∀ unclosed depth outer taken,
    takeTemplate unclosed (.code depth :: outer) true taken ('/' :: cs) =
      takeTemplate unclosed (.code depth :: outer) false ((part ++ flags).reverse ++ '/' :: taken) rest

/-- A regular expression is reported as open, with the place of its slash. -/
structure LeavesRegexOpen (cs : List Char) : Prop where
  scanned : ∀ taken, takeRegex taken cs = none
  inCode : Lexeme.read true '/' cs = .error ⟨.regex, '/' :: cs⟩
  inTemplate : ∀ unclosed depth outer taken,
    takeTemplate unclosed (.code depth :: outer) true taken ('/' :: cs) =
      .error ⟨.regex, '/' :: cs⟩

section Readers

variable {cs part flags rest : List Char}

theorem Lexeme.last_regex (part flags : List Char) (closed : part.getLast? = some '/') :
    (part ++ flags).getLast? = some (Lexeme.regex part flags).last.char := by
  cases atEnd : flags.getLast? with
  | none => simp [List.getLast?_append, Lexeme.last, atEnd, closed]
  | some flag => simp [List.getLast?_append, Lexeme.last, atEnd]

theorem RegexFront.takes (front : RegexFront cs part flags rest) (noLine : cs.head? ≠ some '/')
    (noBlock : cs.head? ≠ some '*') : TakesRegex cs part flags rest := by
  obtain ⟨rfl, closed, _, letters, stop⟩ := id front
  have tail := closed.tail
  have sameHead : part.head? = (part ++ (flags ++ rest)).head? := by
    obtain ⟨e, part, rfl⟩ := List.exists_cons_of_ne_nil tail.ne_nil
    rfl
  rw [← sameHead] at noLine noBlock
  refine ⟨?_, ?_, ?_, ?_, ?_⟩
  · intro taken
    exact takeRegex_eq_some_iff_front.mpr ⟨part, flags, front, rfl⟩
  · have legible : (Lexeme.regex part flags).Legible true rest :=
      ⟨⟨tail, noLine, noBlock, letters⟩, stop, rfl⟩
    exact Lexeme.read_of_legible legible (by simp [Lexeme.text])
  · exact Lexeme.last_regex part flags tail.getLast?_eq
  · cases atEnd : flags.getLast? with
    | none =>
      have unflagged : flags = [] := List.getLast?_eq_none_iff.mp atEnd
      simp [Lexeme.last, unflagged]
    | some flag =>
      have nonempty : flags ≠ [] := List.ne_nil_of_mem (List.mem_of_getLast? atEnd)
      simp [Lexeme.last, atEnd, nonempty]
  · intro unclosed depth outer taken
    have step : TemplateStep rest.head? (.code depth :: outer) true ('/' :: (part ++ flags))
        (.code depth :: outer) false := .regex tail noLine noBlock letters stop
    simpa using step.take unclosed taken

theorem leavesRegexOpen_of_none (isOpen : ¬∃ part, ClosedRegex part ∧ part <+: cs)
    (noLine : cs.head? ≠ some '/') (noBlock : cs.head? ≠ some '*') : LeavesRegexOpen cs := by
  have scanned : ∀ taken, takeRegex taken cs = none :=
    fun taken => takeRegex_eq_none_iff_front.mpr isOpen
  have body : takeRegexBody false [] cs = none := Option.map_eq_none_iff.mp (scanned [])
  refine ⟨scanned, ?_, ?_⟩
  · unfold Lexeme.read
    simp [noLine, noBlock, body]
  · intro unclosed depth outer taken
    have slashes := takeRegexBody_eq_none_iff.mp body
    exact (TemplateStop.regex noLine noBlock slashes).take outer taken

end Readers

/-- Behind a slash that opens no comment, a regular expression is read exactly if the grammar closes
one there. The shortest closed part and all letters behind it are taken; otherwise the slash is
reported. -/
theorem regex_read_by_grammar (cs : List Char) (noLine : cs.head? ≠ some '/')
    (noBlock : cs.head? ≠ some '*') :
    ((∃ part, ClosedRegex part ∧ part <+: cs) ↔
        ∃ part flags rest, RegexFront cs part flags rest ∧ TakesRegex cs part flags rest) ∧
      ((¬∃ part, ClosedRegex part ∧ part <+: cs) ↔ LeavesRegexOpen cs) := by
  refine ⟨?_, ?_⟩
  · rw [exists_front_iff]
    constructor
    · rintro ⟨part, flags, rest, front⟩
      exact ⟨part, flags, rest, front, front.takes noLine noBlock⟩
    · rintro ⟨part, flags, rest, front, _⟩
      exact ⟨part, flags, rest, front⟩
  · constructor
    · intro isOpen
      exact leavesRegexOpen_of_none isOpen noLine noBlock
    · intro leaves
      exact takeRegex_eq_none_iff_front.mp (leaves.scanned [])

/-- A slash in a class and an escaped slash do not close, and a class does not outlive its line. -/
theorem regex_read_by_grammar_class :
    (∃ flags rest, RegexFront "[/\\]]\\//gi;".toList "[/\\]]\\//".toList flags rest ∧
        TakesRegex "[/\\]]\\//gi;".toList "[/\\]]\\//".toList flags rest) ∧
      LeavesRegexOpen "[/\n]/".toList := by
  have members : ∀ member ∈ [['/'], ['\\', ']']], ClassMember member := by
    intro member among
    simp only [List.mem_cons, List.not_mem_nil, or_false] at among
    rcases among with rfl | rfl
    · exact .plain (by decide) rfl
    · exact .escape rfl
  have closed : ClosedRegex "[/\\]]\\//".toList := by
    refine ClosedRegex.cons (.bracketed members) ?_
    exact ClosedRegex.cons (.escape rfl) ⟨[], by simp, rfl⟩
  have atFront : "[/\\]]\\//".toList <+: "[/\\]]\\//gi;".toList := ⟨['g', 'i', ';'], rfl⟩
  refine ⟨?_, ?_⟩
  · obtain ⟨part, flags, rest, front, takes⟩ :=
      (regex_read_by_grammar "[/\\]]\\//gi;".toList (by decide) (by decide)).1.mp
        ⟨_, closed, atFront⟩
    have atPart : part <+: "[/\\]]\\//gi;".toList := ⟨flags ++ rest, front.split.symm⟩
    obtain rfl := front.closed.unique atPart closed atFront
    exact ⟨flags, rest, front, takes⟩
  · refine (regex_read_by_grammar "[/\n]/".toList (by decide) (by decide)).2.mp ?_
    exact takeRegex_eq_none_iff_front.mp (rfl : takeRegex [] "[/\n]/".toList = none)

end Elision
