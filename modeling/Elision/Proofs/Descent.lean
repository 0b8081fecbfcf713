import Elision.Proofs.Steps

namespace Elision

/-- A front part of a text, not empty, and what stands behind it. -/
structure Portion (cs : List Char) where
  part : List Char
  rest : List Char
  split : cs = part ++ rest
  nonempty : part ≠ []

namespace Portion

variable {cs rest : List Char}

theorem shorter (portion : Portion cs) : portion.rest.length < cs.length := by
  have positive : 0 < portion.part.length := List.length_pos_iff.mpr portion.nonempty
  have whole := congrArg List.length portion.split
  rw [List.length_append] at whole
  omega

theorem split_behind {front : List Char} (portion : Portion rest) (same : cs = front ++ rest) :
    cs = front ++ portion.part ++ portion.rest := by
  rw [List.append_assoc, ← portion.split, same]

/-- The portion with more text in front of it. -/
def behind (front : List Char) (portion : Portion rest) (same : cs = front ++ rest) : Portion cs where
  part := front ++ portion.part
  rest := portion.rest
  split := portion.split_behind same
  nonempty := List.append_ne_nil_of_right_ne_nil _ portion.nonempty

end Portion

mutual

/-- Reads the text of a template, up to and with its backtick. A substitution is read by itself, and
the text goes on behind it. -/
def readText (unclosed : Unclosed) (cs : List Char) : Except Unclosed (Portion cs) :=
  match cs with
  | [] => .error unclosed
  | c :: cs =>
    if c = '\\' then
      match cs with
      | [] => .error unclosed
      | escaped :: cs => do
        return (← readText unclosed cs).behind [c, escaped] rfl
    else if c = backtick then .ok ⟨[c], cs, rfl, List.cons_ne_nil _ _⟩
    else if opening : c = '$' ∧ cs.head? = some leftBrace then do
      let code ← readCode unclosed 0 true cs.tail
      have := code.shorter
      return (← readText unclosed code.rest).behind (c :: leftBrace :: code.part) (by
        obtain ⟨cs, rfl⟩ := List.head?_eq_some_iff.mp opening.2
        exact congrArg (c :: leftBrace :: ·) code.split)
    else do
      return (← readText unclosed cs).behind [c] rfl
termination_by cs.length
decreasing_by
  all_goals simp only [List.length_cons, List.length_tail] at *
  all_goals omega

/-- Reads the code of a substitution, up to and with the brace that ends it, when `depth` braces are
open in it. Only this code decides about `operand`: whatever it holds as a whole leaves an operand
behind. -/
def readCode (unclosed : Unclosed) (depth : Nat) (operand : Bool) (cs : List Char) :
    Except Unclosed (Portion cs) :=
  match cs with
  | [] => .error unclosed
  | c :: cs =>
    if c = '\\' then
      match cs with
      | [] => .error unclosed
      | escaped :: cs => do
        return (← readCode unclosed depth operand cs).behind [c, escaped] rfl
    else if classify c = .whitespace ∨ isLineTerminator c then do
      return (← readCode unclosed depth operand cs).behind [c] rfl
    else if c = backtick then do
      let inner ← readText unclosed cs
      have := inner.shorter
      return (← readCode unclosed depth false inner.rest).behind (c :: inner.part)
        (congrArg (c :: ·) inner.split)
    else if classify c = .quote then
      match closed : takeQuoted c [] cs with
      | none => .error ⟨.string, c :: cs⟩
      | some cut => do
        have := takeQuoted_rest_lt closed
        return (← readCode unclosed depth false cut.rest).behind (c :: cut.taken.reverse)
          (congrArg (c :: ·) (takeQuoted_text closed).symm)
    else if c = '/' then
      if opening : cs.head? = some '/' then do
        have := takeLineComment_rest_le [] cs.tail
        return (← readCode unclosed depth operand (takeLineComment [] cs.tail).rest).behind
          (c :: '/' :: (takeLineComment [] cs.tail).taken.reverse) (by
            obtain ⟨cs, rfl⟩ := List.head?_eq_some_iff.mp opening
            exact congrArg (c :: '/' :: ·) (takeLineComment_text [] cs).symm)
      else if opening : cs.head? = some '*' then
        match closed : takeBlockComment [] cs.tail with
        | none => .error unclosed
        | some cut => do
          have := takeBlockComment_rest_lt closed
          return (← readCode unclosed depth operand cut.rest).behind
            (c :: '*' :: cut.taken.reverse) (by
              obtain ⟨cs, rfl⟩ := List.head?_eq_some_iff.mp opening
              exact congrArg (c :: '*' :: ·) (takeBlockComment_text closed).symm)
      else if operand then
        match closed : takeRegex [] cs with
        | none => .error ⟨.regex, c :: cs⟩
        | some cut => do
          have := takeRegex_rest_lt closed
          return (← readCode unclosed depth false cut.rest).behind (c :: cut.taken.reverse)
            (congrArg (c :: ·) (takeRegex_text closed).symm)
      else do
        return (← readCode unclosed depth true cs).behind [c] rfl
    else if c = leftBrace then do
      return (← readCode unclosed (depth + 1) true cs).behind [c] rfl
    else if c = rightBrace then
      match depth with
      | 0 => .ok ⟨[c], cs, rfl, List.cons_ne_nil _ _⟩
      | depth + 1 => do
        return (← readCode unclosed depth false cs).behind [c] rfl
    else do
      return (← readCode unclosed depth (!(isLetterLike c || c = ')' || c = ']')) cs).behind [c] rfl
termination_by cs.length
decreasing_by
  all_goals simp only [List.length_cons, List.length_tail] at *
  all_goals omega

end

/-- The stack of a scan, used as what is still to be done behind a level that was read. -/
def Portion.resume {cs : List Char} (unclosed : Unclosed) (outer : List Frame) (taken : List Char)
    (portion : Portion cs) : Except Unclosed Cut :=
  takeTemplate unclosed outer false (portion.part.reverse ++ taken) portion.rest

/-- Text in front of a level has been taken before the level. -/
theorem bind_resume_behind {cs rest front : List Char} (same : cs = front ++ rest)
    (result : Except Unclosed (Portion rest)) (unclosed : Unclosed) (outer : List Frame)
    (taken : List Char) :
    (result >>= fun portion => pure (portion.behind front same)) >>=
        Portion.resume unclosed outer taken =
      result >>= Portion.resume unclosed outer (front.reverse ++ taken) := by
  cases result with
  | error found => rfl
  | ok portion =>
    change (portion.behind front same).resume unclosed outer taken = portion.resume unclosed outer _
    simp [Portion.resume, Portion.behind]

theorem quotedTail_of_take {quote : Char} {cs : List Char} {cut : Cut}
    (closed : takeQuoted quote [] cs = some cut) : QuotedTail quote cut.taken.reverse := by
  obtain ⟨part, inner, _, atTaken⟩ := takeQuoted_eq_some_iff.mp closed
  simpa [atTaken] using inner

theorem blockTail_of_take {cs : List Char} {cut : Cut} (closed : takeBlockComment [] cs = some cut) :
    BlockTail cut.taken.reverse := by
  obtain ⟨part, inner, _, atTaken⟩ := takeBlockComment_eq_some_iff.mp closed
  simpa [atTaken] using inner

theorem sameLine_of_take (cs : List Char) :
    (∀ c ∈ (takeLineComment [] cs).taken.reverse, isLineTerminator c = false) ∧
      ∀ c ∈ (takeLineComment [] cs).rest.head?, isLineTerminator c = true := by
  obtain ⟨part, sameLine, stop, _, atTaken⟩ :=
    takeRun_eq_iff.mp (rfl : takeLineComment [] cs = _)
  exact ⟨by simpa [atTaken] using sameLine, by simpa using stop⟩

theorem TemplateStep.of_regex {cs : List Char} {cut : Cut} (closed : takeRegex [] cs = some cut)
    (noLine : cs.head? ≠ some '/') (noBlock : cs.head? ≠ some '*') {depth : Nat}
    {outer : List Frame} :
    TemplateStep cut.rest.head? (.code depth :: outer) true ('/' :: cut.taken.reverse)
      (.code depth :: outer) false := by
  obtain ⟨body, flags, inner, letters, stop, rfl, atTaken⟩ := takeRegex_eq_some_iff.mp closed
  obtain ⟨e, body, rfl⟩ := List.exists_cons_of_ne_nil inner.ne_nil
  have whole : cut.taken.reverse = e :: body ++ flags := by simp [atTaken]
  rw [whole]
  exact .regex inner noLine noBlock letters stop

section Descend

variable {unclosed : Unclosed} {frame inner : Frame} {outer : List Frame} {operand behind : Bool}
  {front taken cs rest : List Char} {result : Except Unclosed (Portion rest)}

/-- A step that stays on its level goes on with the rest of the level. -/
theorem TemplateStep.descend
    (step : TemplateStep rest.head? (frame :: outer) operand front (inner :: outer) behind)
    (same : cs = front ++ rest)
    (later : takeTemplate unclosed (inner :: outer) behind (front.reverse ++ taken) rest =
      result >>= Portion.resume unclosed outer (front.reverse ++ taken)) :
    takeTemplate unclosed (frame :: outer) operand taken cs =
      (result >>= fun portion => pure (portion.behind front same)) >>=
        Portion.resume unclosed outer taken := by
  rw [bind_resume_behind, ← later, same, step.take]

/-- A step into a new level goes on with that level, and then with the rest of its own, which finds an
operand behind the new one. -/
theorem TemplateStep.descend_into
    {after : (level : Portion rest) → Except Unclosed (Portion level.rest)}
    (step : TemplateStep rest.head? (frame :: outer) operand front (inner :: frame :: outer) behind)
    (same : cs = front ++ rest)
    (within : takeTemplate unclosed (inner :: frame :: outer) behind (front.reverse ++ taken) rest =
      result >>= Portion.resume unclosed (frame :: outer) (front.reverse ++ taken))
    (later : ∀ level : Portion rest,
      takeTemplate unclosed (frame :: outer) false (level.part.reverse ++ (front.reverse ++ taken))
          level.rest =
        after level >>= Portion.resume unclosed outer
          (level.part.reverse ++ (front.reverse ++ taken))) :
    takeTemplate unclosed (frame :: outer) operand taken cs =
      (result >>= fun level => after level >>= fun portion =>
        pure (portion.behind (front ++ level.part) (level.split_behind same))) >>=
        Portion.resume unclosed outer taken := by
  subst same
  rw [step.take, within]
  -- What `within` leaves to be done behind the new level is the scan that `later` is about.
  cases result with
  | error found => rfl
  | ok level =>
    have atFront : front ++ rest = front ++ level.part ++ level.rest := level.split_behind rfl
    have again := bind_resume_behind atFront (after level) unclosed outer taken
    rw [List.reverse_append, List.append_assoc] at again
    exact (later level).trans again.symm

end Descend

theorem TemplateStop.take {unclosed found : Unclosed} {frame : Frame} {operand : Bool}
    {cs : List Char} (stop : TemplateStop unclosed frame operand cs found) (outer : List Frame)
    (taken : List Char) : takeTemplate unclosed (frame :: outer) operand taken cs = .error found := by
  cases stop with
  | atEnd => rw [takeTemplate]
  | escape =>
    rw [takeTemplate.eq_def]
    simp
  | @comment depth _ cs noEnd =>
    have isOpen : takeBlockComment ('*' :: '/' :: taken) cs = none :=
      takeBlockComment_eq_none_iff.mpr noEnd
    rw [takeTemplate.eq_def]
    simp +decide only [↓reduceIte, List.head?_cons, List.tail_cons]
    split <;> simp_all
  | @string depth _ quote cs isQuote noTemplate escaped =>
    have plain : quote ≠ '\\' := by rintro rfl; exact absurd isQuote (by decide)
    have isOpen : takeQuoted quote (quote :: taken) cs = none :=
      (takeQuoted_eq_none_iff plain).mpr escaped
    have sameLine := isLineTerminator_of_quote isQuote
    rw [takeTemplate.eq_def]
    simp only [plain, noTemplate, isQuote, sameLine, reduceCtorEq, decide_false, Bool.or_self,
      Bool.false_eq_true, ↓reduceIte]
    split <;> simp_all
  | @regex depth cs noLine noBlock slashes =>
    have isOpen : takeRegex ('/' :: taken) cs = none :=
      Option.map_eq_none_iff.mpr (takeRegexBody_eq_none_iff.mpr slashes)
    rw [takeTemplate.eq_def]
    simp +decide only [↓reduceIte, noLine, noBlock]
    split <;> simp_all

mutual

/-- The scan with a stack reads the text of a template as it is read by itself, and then goes on with
the levels around it. The flag that it has on entering does not matter. -/
theorem takeTemplate_eq_readText (unclosed : Unclosed) (outer : List Frame) (operand : Bool)
    (taken cs : List Char) :
    takeTemplate unclosed (.text :: outer) operand taken cs =
      readText unclosed cs >>= Portion.resume unclosed outer taken := by
  -- By the length of the text. The stack below this level is arbitrary, so that the statement also
  -- holds for the levels that are entered and for what stands behind them.
  rw [readText.eq_def]
  split
  · exact TemplateStop.atEnd.take outer taken
  rename_i c cs
  split
  · rename_i escape
    subst escape
    split
    · exact TemplateStop.escape.take outer taken
    · exact TemplateStep.escape.descend rfl (takeTemplate_eq_readText ..)
  rename_i plain
  split
  · rename_i ends
    subst ends
    exact TemplateStep.endText.take unclosed taken
  rename_i noEnd
  split
  · rename_i opening
    obtain ⟨rfl, atBrace⟩ := opening
    obtain ⟨cs, rfl⟩ := List.head?_eq_some_iff.mp atBrace
    refine TemplateStep.openCode.descend_into rfl (takeTemplate_eq_readCode ..) ?_
    intro code
    have := code.shorter
    exact takeTemplate_eq_readText ..
  · rename_i noCode
    exact (TemplateStep.textChar plain noEnd noCode).descend rfl (takeTemplate_eq_readText ..)
termination_by cs.length
decreasing_by
  all_goals subst_vars
  all_goals simp only [List.length_cons]
  all_goals omega

/-- The same for the code of a substitution, whose flag and open braces the scan keeps in its state. -/
theorem takeTemplate_eq_readCode (unclosed : Unclosed) (depth : Nat) (outer : List Frame)
    (operand : Bool) (taken cs : List Char) :
    takeTemplate unclosed (.code depth :: outer) operand taken cs =
      readCode unclosed depth operand cs >>= Portion.resume unclosed outer taken := by
  rw [readCode.eq_def]
  split
  · exact TemplateStop.atEnd.take outer taken
  rename_i c cs
  split
  · rename_i escape
    subst escape
    split
    · exact TemplateStop.escape.take outer taken
    · exact TemplateStep.escape.descend rfl (takeTemplate_eq_readCode ..)
  rename_i plain
  split
  · rename_i blank
    exact (TemplateStep.space plain blank).descend rfl (takeTemplate_eq_readCode ..)
  rename_i visible
  split
  · rename_i opens
    subst opens
    refine TemplateStep.openText.descend_into rfl (takeTemplate_eq_readText ..) ?_
    intro inner
    have := inner.shorter
    exact takeTemplate_eq_readCode ..
  rename_i noTemplate
  split
  · rename_i isQuote
    split
    · rename_i isOpen
      have escaped := (takeQuoted_eq_none_iff plain).mp isOpen
      exact (TemplateStop.string isQuote noTemplate escaped).take outer taken
    · rename_i cut closed
      have := takeQuoted_rest_lt closed
      exact (TemplateStep.string isQuote noTemplate (quotedTail_of_take closed)).descend _
        (takeTemplate_eq_readCode ..)
  rename_i noQuote
  split
  · rename_i slash
    subst slash
    split
    · rename_i opening
      obtain ⟨cs, rfl⟩ := List.head?_eq_some_iff.mp opening
      have := takeLineComment_rest_le [] cs
      obtain ⟨sameLine, stop⟩ := sameLine_of_take cs
      have same : '/' :: '/' :: cs = '/' :: '/' :: (takeLineComment [] cs).taken.reverse ++
          (takeLineComment [] cs).rest := congrArg ('/' :: '/' :: ·) (takeLineComment_text [] cs).symm
      exact (TemplateStep.lineComment sameLine stop).descend same (takeTemplate_eq_readCode ..)
    rename_i noLine
    split
    · rename_i opening
      obtain ⟨cs, rfl⟩ := List.head?_eq_some_iff.mp opening
      split
      · rename_i isOpen
        exact (TemplateStop.comment (takeBlockComment_eq_none_iff.mp isOpen)).take outer taken
      · rename_i cut closed
        have : cut.rest.length < cs.length := takeBlockComment_rest_lt closed
        exact (TemplateStep.blockComment (blockTail_of_take closed)).descend _
          (takeTemplate_eq_readCode ..)
    rename_i noBlock
    split
    · rename_i isOperand
      subst isOperand
      split
      · rename_i isOpen
        have slashes := takeRegexBody_eq_none_iff.mp (Option.map_eq_none_iff.mp isOpen)
        exact (TemplateStop.regex noLine noBlock slashes).take outer taken
      · rename_i cut closed
        have := takeRegex_rest_lt closed
        exact (TemplateStep.of_regex closed noLine noBlock).descend _ (takeTemplate_eq_readCode ..)
    · rename_i divides
      rw [Bool.not_eq_true] at divides
      subst divides
      exact (TemplateStep.division noLine noBlock).descend rfl (takeTemplate_eq_readCode ..)
  rename_i noSlash
  split
  · rename_i opens
    subst opens
    exact TemplateStep.openBrace.descend rfl (takeTemplate_eq_readCode ..)
  rename_i noOpen
  split
  · rename_i closes
    subst closes
    split
    · exact TemplateStep.endCode.take unclosed taken
    · exact TemplateStep.closeBrace.descend rfl (takeTemplate_eq_readCode ..)
  · rename_i noClose
    rw [not_or, Bool.not_eq_true] at visible
    have special : c ∉ ['\\', '/', leftBrace, rightBrace] := by simp [plain, noSlash, noOpen, noClose]
    exact (TemplateStep.codeChar special visible.1 visible.2 noQuote).descend rfl
      (takeTemplate_eq_readCode ..)
termination_by cs.length
decreasing_by
  all_goals subst_vars
  all_goals simp only [List.length_cons]
  all_goals omega

end

/-- A template is scanned with one stack and one flag as it is read level by level: the same characters
are taken, and what is found open is the same. -/
theorem takeTemplate_reads_levels (unclosed : Unclosed) (taken cs : List Char) :
    takeTemplate unclosed [.text] true taken cs =
      (readText unclosed cs).map fun text => ⟨text.part.reverse ++ taken, text.rest⟩ := by
  rw [takeTemplate_eq_readText]
  cases readText unclosed cs with
  | error found => rfl
  | ok text =>
    change takeTemplate unclosed [] false _ _ = _
    rw [takeTemplate]
    rfl

end Elision
