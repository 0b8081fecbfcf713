import Elision.Proofs.Failures
import Elision.Proofs.Squeezing
import Elision.Trace
import Mathlib.Data.List.Forall2

namespace Elision

/-- The bytes before the place that an event speaks of. -/
def Event.offset : Event → Nat
  | .regexLiteral offset | .blockComment offset _ => offset

/-- A lexeme with the text on either side of it. -/
structure Located where
  before : List Char
  lexeme : Lexeme
  after : List Char

/-- The place behind the lexeme, in bytes. -/
def Located.stop (located : Located) : Nat :=
  byteLength (located.before ++ located.lexeme.text)

/-- Whether the lexeme is one of those that are told of. -/
def Located.isTold : Located → Bool
  | ⟨_, .regex _ _, _⟩ | ⟨_, .blockComment _, _⟩ => true
  | _ => false

/-- Lexemes that stand one behind the other between two texts. -/
def locateFrom (before unread : List Char) : List Lexeme → List Located
  | [] => []
  | lexeme :: later =>
    ⟨before, lexeme, textOf later ++ unread⟩ :: locateFrom (before ++ lexeme.text) unread later

/-- The lexemes of a scan at their places in the source. -/
def Scan.located (scan : Scan) (source : List Char) : List Located :=
  locateFrom (markOf source) scan.unread scan.lexemes

/-- An event speaks of a lexeme by its first byte. A comment ends with the first star and slash that
stand behind its opener, which cannot lend them its own star, and it is told whether a line ends in
between. -/
inductive Event.Tells : Event → Located → Prop
  | regexLiteral {before tail flags after} :
      Tells (.regexLiteral (byteLength before)) ⟨before, .regex tail flags, after⟩
  | blockComment {before body after multiline} :
      (∀ other rest, body ++ '*' :: '/' :: after = other ++ '*' :: '/' :: rest →
        body.length ≤ other.length) →
      (multiline = true ↔ ∃ c ∈ body, isLineTerminator c = true) →
      Tells (.blockComment (byteLength before) multiline)
        ⟨before, .blockComment (body ++ ['*', '/']), after⟩

theorem Event.Tells.offset_eq {event : Event} {located : Located} (tells : event.Tells located) :
    event.offset = byteLength located.before := by
  cases tells <;> rfl

/-- The first star and slash end a comment, whatever stands behind them. -/
theorem BlockTail.ends_first {tail : List Char} (closing : BlockTail tail) :
    ∃ body, tail = body ++ ['*', '/'] ∧ ∀ after other rest,
      body ++ '*' :: '/' :: after = other ++ '*' :: '/' :: rest → body.length ≤ other.length := by
  induction closing with
  | close => exact ⟨[], rfl, fun _ _ _ _ => Nat.zero_le _⟩
  | @plain c cs inner _ ih =>
    obtain ⟨body, rfl, first⟩ := ih
    refine ⟨c :: body, rfl, ?_⟩
    intro after other rest same
    cases other with
    | nil =>
      obtain ⟨rfl, atSlash⟩ := List.cons.inj same
      refine absurd ⟨rfl, ?_⟩ inner
      cases body with
      | nil => cases atSlash
      | cons d body => exact congrArg some (List.cons.inj atSlash).1
    | cons d other => exact Nat.succ_le_succ (first after other rest (List.cons.inj same).2)

section Located

variable {before unread : List Char} {lexemes : List Lexeme}

theorem locateFrom_lexemes (before unread : List Char) (lexemes : List Lexeme) :
    (locateFrom before unread lexemes).map Located.lexeme = lexemes := by
  induction lexemes generalizing before with
  | nil => rfl
  | cons lexeme later ih => exact congrArg (lexeme :: ·) (ih _)

theorem locateFrom_text {located : Located} (mem : located ∈ locateFrom before unread lexemes) :
    located.before ++ (located.lexeme.text ++ located.after) = before ++ (textOf lexemes ++ unread) := by
  induction lexemes generalizing before with
  | nil => cases mem
  | cons lexeme later ih =>
    cases mem with
    | head => simp
    | tail _ mem => simpa using ih mem

theorem locateFrom_bounds {located : Located} (mem : located ∈ locateFrom before unread lexemes) :
    byteLength before ≤ byteLength located.before ∧ byteLength located.before < located.stop ∧
      located.stop ≤ byteLength (before ++ textOf lexemes) := by
  induction lexemes generalizing before with
  | nil => cases mem
  | cons lexeme later ih =>
    have bytes := byteLength_pos (List.ne_nil_of_length_pos lexeme.text_length_pos)
    simp only [Located.stop, textOf_cons, byteLength_append] at ih ⊢
    cases mem with
    | head => dsimp only; omega
    | tail _ mem =>
      obtain ⟨start, nonempty, stop⟩ := ih mem
      rw [byteLength_append] at start stop
      omega

/-- Each lexeme ends before the next one begins. -/
theorem locateFrom_ordered (before unread : List Char) (lexemes : List Lexeme) :
    (locateFrom before unread lexemes).Pairwise fun located later =>
      located.stop ≤ byteLength later.before := by
  induction lexemes generalizing before with
  | nil => exact .nil
  | cons lexeme later ih => exact .cons (fun _ mem => (locateFrom_bounds mem).1) (ih _)

/-- No lexeme begins inside another. -/
theorem locateFrom_apart {located other : Located} (mem : located ∈ locateFrom before unread lexemes)
    (otherMem : other ∈ locateFrom before unread lexemes) :
    byteLength other.before ≤ byteLength located.before ∨
      located.stop ≤ byteLength other.before := by
  induction lexemes generalizing before with
  | nil => cases mem
  | cons lexeme later ih =>
    cases mem with
    | head =>
      cases otherMem with
      | head => exact .inl (Nat.le_refl _)
      | tail _ otherMem => exact .inr (locateFrom_bounds otherMem).1
    | tail _ mem =>
      cases otherMem with
      | head =>
        have start := (locateFrom_bounds mem).1
        rw [byteLength_append] at start
        exact .inl (by dsimp only; omega)
      | tail _ otherMem => exact ih mem otherMem

end Located

/-- One more lexeme is told of by one event, or by none. -/
theorem Trace.step_tells {trace : Trace} {before : List Char} {lexeme : Lexeme} (whole : lexeme.Whole)
    (atPlace : trace.offset = byteLength before) (after : List Char) :
    (Located.isTold ⟨before, lexeme, after⟩ = true ∧
        ∃ event, (trace.step lexeme).events = event :: trace.events ∧
          event.Tells ⟨before, lexeme, after⟩) ∨
      Located.isTold ⟨before, lexeme, after⟩ = false ∧ (trace.step lexeme).events = trace.events := by
  cases lexeme with
  | blank | lineBreak | lineComment | code | quoted => exact .inr ⟨rfl, rfl⟩
  | regex tail flags =>
    refine .inl ⟨rfl, _, rfl, ?_⟩
    rw [atPlace]
    exact .regexLiteral
  | blockComment tail =>
    obtain ⟨body, rfl, first⟩ := BlockTail.ends_first whole
    refine .inl ⟨rfl, _, rfl, ?_⟩
    rw [atPlace]
    refine .blockComment (first after) ?_
    simp [isLineTerminator]

/-- A run of lexemes is told of one by one, in the order in which they stand. -/
theorem Trace.run_tells {trace : Trace} {before : List Char} {lexemes : List Lexeme}
    (whole : ∀ lexeme ∈ lexemes, lexeme.Whole) (atPlace : trace.offset = byteLength before)
    (unread : List Char) :
    ∃ told, lexemes.foldl Trace.step trace =
        ⟨byteLength (before ++ textOf lexemes), told.reverse ++ trace.events⟩ ∧
      List.Forall₂ Event.Tells told
        ((locateFrom before unread lexemes).filter Located.isTold) := by
  induction lexemes generalizing trace before with
  | nil =>
    refine ⟨[], ?_, .nil⟩
    rw [textOf_nil, List.append_nil, ← atPlace]
    rfl
  | cons lexeme later ih =>
    have atNext : (trace.step lexeme).offset = byteLength (before ++ lexeme.text) := by
      rw [byteLength_append, ← atPlace]
      rfl
    obtain ⟨wholeFirst, wholeLater⟩ := List.forall_mem_cons.mp whole
    obtain ⟨told, atEnd, tells⟩ := ih wholeLater atNext
    rw [List.append_assoc] at atEnd
    rcases Trace.step_tells wholeFirst atPlace (textOf later ++ unread) with
      ⟨isTold, event, atEvents, tellsFirst⟩ | ⟨notTold, atEvents⟩
    · refine ⟨event :: told, ?_, ?_⟩
      · rw [List.foldl_cons, atEnd, atEvents]
        simp
      · rw [locateFrom, List.filter_cons_of_pos isTold]
        exact .cons tellsFirst tells
    · refine ⟨told, ?_, ?_⟩
      · rw [List.foldl_cons, atEnd, atEvents]
        rfl
      · rw [locateFrom, List.filter_cons_of_neg (by simp [notTold])]
        exact tells

theorem Trace.start_offset (source : List Char) :
    (Trace.start source).offset = byteLength (markOf source) := by
  unfold Trace.start markOf
  split <;> rfl

theorem Event.tells_offsets {told : List Event} {places : List Located}
    (tells : List.Forall₂ Event.Tells told places) :
    told.map Event.offset = places.map (byteLength ·.before) := by
  induction tells with
  | nil => rfl
  | cons tellsFirst _ ih => rw [List.map_cons, List.map_cons, tellsFirst.offset_eq, ih]

/-- A scan reads its lexemes one by one, and stops at the text behind them. -/
theorem scan_reads (buffer source : List Char) :
    source = markOf source ++ textOf (scan buffer source).lexemes ++ (scan buffer source).unread ∧
      Reads (scan buffer source).unread (.start buffer) (scan buffer source).lexemes
        (scan buffer source).writer := by
  obtain ⟨lexemes, atLexemes, atSource, reads⟩ :=
    (Writer.start buffer).run_reads [] (dropMark source)
  rw [← scan] at atLexemes atSource reads
  rw [atLexemes, List.reverse_nil, List.nil_append, List.append_assoc, ← atSource,
    markOf_append_dropMark]
  exact ⟨rfl, reads⟩

/-- Every lexeme that is to be told of is told of once, in order. Only a regular expression without
an end can follow. -/
theorem scan_events_eq (buffer source : List Char) :
    ∃ told, List.Forall₂ Event.Tells told
        (((scan buffer source).located source).filter Located.isTold) ∧
      (scan buffer source).events source = told ++
        if (scan buffer source).failsInRegex then
          [.regexLiteral (byteLength (markOf source ++ textOf (scan buffer source).lexemes))]
        else [] := by
  have whole := (scan_reads buffer source).2.whole
  obtain ⟨told, atEnd, tells⟩ :=
    Trace.run_tells whole (Trace.start_offset source) (scan buffer source).unread
  refine ⟨told, tells, ?_⟩
  have atStart : (Trace.start source).events = [] := rfl
  rw [Scan.events, atEnd, atStart, List.append_nil]
  split <;> simp

/-- A regular expression without an end was met by the scan itself if it opens where the scan stops.
Otherwise it stands inside a template. -/
theorem scan_failsInRegex_iff {buffer source : List Char} {unclosed : Unclosed}
    (failed : (scan buffer source).unclosed = some unclosed) :
    (scan buffer source).failsInRegex = true ↔
      (unclosed.locate source).construct = .regex ∧ (unclosed.locate source).start.offset =
        byteLength (markOf source ++ textOf (scan buffer source).lexemes) := by
  have split := (scan_reads buffer source).1
  obtain ⟨c, cs, atUnread, reading⟩ := Writer.run_stops failed
  rw [← scan] at atUnread reading
  obtain ⟨isOpen, inside⟩ := Lexeme.isOpen_of_read reading
  have told : (scan buffer source).failsInRegex = true ↔ c = '/' ∧ unclosed.construct = .regex := by
    simp [Scan.failsInRegex, failed, atUnread]
  rw [told]
  rw [atUnread] at split
  constructor
  · rintro ⟨rfl, isRegex⟩
    refine ⟨isRegex, Unclosed.locate_offset ?_⟩
    -- A template begins with a backtick, so the slash at the stop is the opener itself.
    cases Lexeme.stop_of_read reading with
    | comment => cases isRegex
    | regex => exact split
    | string isQuote => cases isQuote
  · rintro ⟨isRegex, atPlace⟩
    obtain ⟨front, atOpener⟩ := inside
    rw [← atOpener, ← List.append_assoc] at split
    -- Text between the stop and the opener would have taken bytes.
    have atStop : front = [] := by
      by_contra nonempty
      have pos := byteLength_pos nonempty
      rw [Unclosed.locate_offset split, byteLength_append] at atPlace
      omega
    obtain ⟨construct, opener⟩ := unclosed
    cases isRegex
    obtain ⟨tail, rfl, _⟩ := isOpen
    rw [atStop] at atOpener
    exact ⟨(List.cons.inj atOpener).1.symm, rfl⟩

theorem scan_events_increase (buffer source : List Char) :
    (((scan buffer source).events source).map Event.offset).Pairwise (· < ·) := by
  obtain ⟨told, tells, atEvents⟩ := scan_events_eq buffer source
  have ordered : (((scan buffer source).located source).filter Located.isTold).Pairwise
      fun located later => byteLength located.before < byteLength later.before := by
    refine List.Pairwise.filter _ ?_
    refine (locateFrom_ordered _ _ _).imp_of_mem ?_
    intro located later mem _ apart
    exact Nat.lt_of_lt_of_le (locateFrom_bounds mem).2.1 apart
  rw [atEvents, List.map_append, Event.tells_offsets tells, List.pairwise_append, List.pairwise_map]
  refine ⟨ordered, ?_, ?_⟩
  · split <;> simp
  · intro offset atOffset last atLast
    obtain ⟨located, mem, rfl⟩ := List.mem_map.mp atOffset
    have bounds := locateFrom_bounds (List.mem_filter.mp mem).1
    split at atLast
    · cases List.mem_singleton.mp atLast
      exact Nat.lt_of_lt_of_le bounds.2.1 bounds.2.2
    · cases atLast

/-- What a lexeme holds is not told of by itself. -/
theorem scan_event_apart {buffer source : List Char} {event : Event} {located : Located}
    (told : event ∈ (scan buffer source).events source)
    (mem : located ∈ (scan buffer source).located source) :
    event.offset ≤ byteLength located.before ∨ located.stop ≤ event.offset := by
  obtain ⟨events, tells, atEvents⟩ := scan_events_eq buffer source
  rw [atEvents, List.mem_append] at told
  rcases told with told | isLast
  · have atOffset : event.offset ∈ events.map Event.offset := List.mem_map_of_mem told
    rw [Event.tells_offsets tells] at atOffset
    obtain ⟨other, otherMem, same⟩ := List.mem_map.mp atOffset
    rw [← same]
    exact locateFrom_apart mem (List.mem_filter.mp otherMem).1
  · split at isLast
    · cases List.mem_singleton.mp isLast
      exact .inr (locateFrom_bounds mem).2.2
    · cases isLast

theorem scan_closed_of_append {buffer source out : String} (done : append buffer source = .ok out) :
    (scan buffer.toList source.toList).unclosed = none := by
  unfold append Scan.result at done
  split at done
  · cases done
  · assumption

theorem scan_unclosed_of_append {buffer source : String} {failure : Failure}
    (failed : append buffer source = .error failure) :
    ∃ unclosed, (scan buffer.toList source.toList).unclosed = some unclosed ∧
      failure = unclosed.locate source.toList := by
  unfold append Scan.result at failed
  split at failed
  · rename_i unclosed atUnclosed
    cases failed
    exact ⟨unclosed, atUnclosed, rfl⟩
  · cases failed

/-- The events of a run tell of the regular expressions and block comments that it meets between
other lexemes, each once and in order, and of nothing that stands inside a lexeme. If the run fails,
the same holds up to the place where it stops, and a regular expression without an end is told of
last if it opens there. -/
theorem events_describe_lexing (buffer source : List Char) :
    (source = markOf source ++ textOf (scan buffer source).lexemes ++ (scan buffer source).unread ∧
        Reads (scan buffer source).unread (.start buffer) (scan buffer source).lexemes
          (scan buffer source).writer) ∧
      ((scan buffer source).located source).map Located.lexeme = (scan buffer source).lexemes ∧
      (∀ located ∈ (scan buffer source).located source,
        located.before ++ (located.lexeme.text ++ located.after) = source) ∧
      (((scan buffer source).events source).map Event.offset).Pairwise (· < ·) ∧
      (∀ event ∈ (scan buffer source).events source,
        ∀ located ∈ (scan buffer source).located source,
          event.offset ≤ byteLength located.before ∨ located.stop ≤ event.offset) ∧
      (∀ out, append (String.ofList buffer) (String.ofList source) = .ok out →
        (scan buffer source).unread = [] ∧
          List.Forall₂ Event.Tells ((scan buffer source).events source)
            (((scan buffer source).located source).filter Located.isTold)) ∧
      (∀ failure, append (String.ofList buffer) (String.ofList source) = .error failure →
        ∃ told, List.Forall₂ Event.Tells told
            (((scan buffer source).located source).filter Located.isTold) ∧
          (scan buffer source).events source = told ++
            if failure.construct = .regex ∧ failure.start.offset =
                byteLength (markOf source ++ textOf (scan buffer source).lexemes) then
              [.regexLiteral failure.start.offset]
            else []) := by
  obtain ⟨told, tells, atEvents⟩ := scan_events_eq buffer source
  have split := (scan_reads buffer source).1
  refine ⟨scan_reads buffer source, locateFrom_lexemes _ _ _, ?_, scan_events_increase buffer source,
    fun _ told _ mem => scan_event_apart told mem, ?_, ?_⟩
  · intro located mem
    rw [locateFrom_text mem, ← List.append_assoc, ← split]
  · intro out done
    have closed := scan_closed_of_append done
    rw [String.toList_ofList, String.toList_ofList] at closed
    refine ⟨Writer.run_unread_of_closed closed, ?_⟩
    rw [atEvents, Scan.failsInRegex, closed]
    simpa using tells
  · intro failure failed
    obtain ⟨unclosed, atUnclosed, rfl⟩ := scan_unclosed_of_append failed
    rw [String.toList_ofList, String.toList_ofList] at atUnclosed
    rw [String.toList_ofList, atEvents]
    refine ⟨told, tells, ?_⟩
    by_cases opens : (scan buffer source).failsInRegex = true
    · have atStop := (scan_failsInRegex_iff atUnclosed).mp opens
      rw [if_pos opens, if_pos atStop, atStop.2]
    · rw [if_neg opens, if_neg (mt (scan_failsInRegex_iff atUnclosed).mpr opens)]

/-- The first comment does not end with its own star, the second ends with its third, and a line ends
in the last. A slash in brackets and the opener of a comment in a template are passed over. Of a
regular expression without an end it is told even though the run fails. -/
theorem events_describe_lexing_stars :
    (scan [] "/*/ */x=/[/]//***/\x60/*\x60/*\n*/".toList).events
          "/*/ */x=/[/]//***/\x60/*\x60/*\n*/".toList =
        [.blockComment 0 false, .regexLiteral 8, .blockComment 13 false, .blockComment 22 true] ∧
      List.Forall₂ Event.Tells
        [.blockComment 0 false, .regexLiteral 8, .blockComment 13 false, .blockComment 22 true]
        (((scan [] "/*/ */x=/[/]//***/\x60/*\x60/*\n*/".toList).located
          "/*/ */x=/[/]//***/\x60/*\x60/*\n*/".toList).filter Located.isTold) ∧
      append "" "x = /a" = .error ⟨.regex, ⟨4, 1, 5⟩⟩ ∧
      ∃ told, (scan [] "x = /a".toList).events "x = /a".toList = told ++ [.regexLiteral 4] := by
  have events : (scan [] "/*/ */x=/[/]//***/\x60/*\x60/*\n*/".toList).events
      "/*/ */x=/[/]//***/\x60/*\x60/*\n*/".toList =
        [.blockComment 0 false, .regexLiteral 8, .blockComment 13 false, .blockComment 22 true] := by
    decide +kernel
  have done : append (String.ofList [])
      (String.ofList "/*/ */x=/[/]//***/\x60/*\x60/*\n*/".toList) =
        .ok "\nx=/[/]/\x60/*\x60" :=
    minify_eq_ok_iff.mpr (by decide +kernel)
  have failed : append "" "x = /a" = .error ⟨.regex, ⟨4, 1, 5⟩⟩ :=
    minify_eq_error_iff.mpr ⟨⟨.regex, "/a".toList⟩, by decide +kernel, by decide +kernel⟩
  have stops : byteLength (markOf "x = /a".toList ++ textOf (scan [] "x = /a".toList).lexemes) = 4 := by
    decide +kernel
  obtain ⟨_, _, _, _, _, closed, _⟩ :=
    events_describe_lexing [] "/*/ */x=/[/]//***/\x60/*\x60/*\n*/".toList
  obtain ⟨_, _, _, _, _, _, opened⟩ := events_describe_lexing [] "x = /a".toList
  have tells := (closed _ done).2
  rw [events] at tells
  obtain ⟨told, _, last⟩ := opened _ failed
  rw [if_pos ⟨rfl, stops.symm⟩] at last
  exact ⟨events, tells, failed, told, last⟩

end Elision
