import Elision.Proofs.Positions

namespace Elision

/-- Whether a carriage return stands at this place of the source, with no line feed right behind it. -/
def isLoneReturn (source : List Char) (i : Nat) : Bool :=
  source[i]? = some '\r' && source[i + 1]? ≠ some '\n'

/-- Whether a line ends at this place: with a line feed, or with a carriage return that has none. -/
def breaksLine (source : List Char) (i : Nat) : Bool :=
  source[i]? = some '\n' || isLoneReturn source i

/-- The place behind `consumed` when `rest` follows, from the whole text at once: its bytes, the line
feeds and lone returns in it, and the characters behind the last of these. -/
def Position.behind (consumed rest : List Char) : Position where
  offset := byteLength consumed
  line := 1 + consumed.count '\n' +
    (List.range consumed.length).countP (isLoneReturn (consumed ++ rest))
  column := 1 +
    ((List.range consumed.length).reverse.takeWhile (!breaksLine (consumed ++ rest) ·)).length

theorem endsLineAt_eq (source : List Char) (i : Nat) :
    endsLineAt source i = breaksLine source i := by
  unfold endsLineAt breaksLine isLoneReturn
  cases source[i]? with
  | none => simp
  | some c => simp [endsLine]

/-- The lines that end among the first characters, counted by the character that ends them. -/
theorem countP_endsLineAt (source : List Char) (count : Nat) :
    (List.range count).countP (endsLineAt source) =
      (source.take count).count '\n' + (List.range count).countP (isLoneReturn source) := by
  induction count with
  | zero => rfl
  | succ count ih =>
    rw [List.range_succ, List.countP_append, List.countP_append, ih, List.take_add_one,
      List.count_append, List.countP_singleton, List.countP_singleton, endsLineAt_eq]
    have here : (if breaksLine source count then 1 else 0) =
        source[count]?.toList.count '\n' + if isLoneReturn source count then 1 else 0 := by
      unfold breaksLine isLoneReturn
      cases source[count]? with
      | none => simp
      | some c => by_cases feed : c = '\n' <;> simp [feed]
    omega

/-- The characters since the last break are those from the start of the line on. -/
theorem length_takeWhile_unbroken {breaks : Nat → Bool} {lineStart : Nat} (width : Nat)
    (broken : ∀ i, i + 1 = lineStart → breaks i = true)
    (unbroken : ∀ i, lineStart ≤ i → i < lineStart + width → breaks i = false) :
    ((List.range (lineStart + width)).reverse.takeWhile (!breaks ·)).length = width := by
  induction width with
  | zero =>
    cases lineStart with
    | zero => rfl
    | succ i => simp [List.range_succ, broken i rfl]
  | succ width ih =>
    have here := unbroken (lineStart + width) (by omega) (by omega)
    have earlier := ih fun i behind within => unbroken i behind (by omega)
    rw [← Nat.add_assoc, List.range_succ, List.reverse_append, List.reverse_singleton,
      List.singleton_append, List.takeWhile_cons, here]
    simpa using earlier

/-- The place behind a text is settled by the text. -/
theorem Position.IsBehind.eq_behind {consumed rest : List Char} {position : Position}
    (isBehind : position.IsBehind (consumed ++ rest) consumed.length) :
    position = .behind consumed rest := by
  have offset : position.offset = byteLength consumed := by rw [isBehind.offset, List.take_left]
  have line : position.line = (Position.behind consumed rest).line := by
    rw [isBehind.line, countP_endsLineAt, List.take_left, Position.behind, Nat.add_assoc]
  have column : position.column = (Position.behind consumed rest).column := by
    obtain ⟨lineStart, before, broken, unbroken, column⟩ := isBehind.column
    simp only [endsLineAt_eq] at broken unbroken
    have width : lineStart + (consumed.length - lineStart) = consumed.length := by omega
    have since := length_takeWhile_unbroken (consumed.length - lineStart) broken (by rwa [width])
    rw [width] at since
    rw [column, Position.behind, since]
  obtain ⟨_, _, _⟩ := position
  cases offset
  cases line
  cases column
  rfl

/-- Reads exactly these characters, one by one. -/
inductive Cursor.Passes : Cursor → List Char → Cursor → Prop
  | done {cursor} : Passes cursor [] cursor
  | next {cursor behind final c text} : cursor.next? = some (c, behind) →
      Passes behind text final → Passes cursor (c :: text) final

theorem Cursor.next?_eq_some_iff {cursor behind : Cursor} {c : Char} :
    cursor.next? = some (c, behind) ↔
      cursor.rest = c :: behind.rest ∧ behind.position = cursor.position.after c behind.rest.head? := by
  obtain ⟨rest, position⟩ := cursor
  obtain ⟨later, place⟩ := behind
  cases rest with
  | nil => simp [Cursor.next?]
  | cons d rest =>
    simp only [Cursor.next?, Option.some.injEq, Prod.mk.injEq, Cursor.mk.injEq, List.cons.injEq]
    constructor
    · rintro ⟨rfl, rfl, rfl⟩
      exact ⟨⟨rfl, rfl⟩, rfl⟩
    · rintro ⟨⟨rfl, rfl⟩, rfl⟩
      exact ⟨rfl, rfl, rfl⟩

/-- Characters can be read one by one exactly if they are at the head of the text, and in one way. -/
theorem Cursor.passes_iff {cursor final : Cursor} {text : List Char} :
    cursor.Passes text final ↔ cursor.rest = text ++ final.rest ∧ final = cursor.skip text.length := by
  constructor
  · intro passes
    induction passes with
    | done => exact ⟨rfl, rfl⟩
    | next atNext _ ih =>
      obtain ⟨atRest, _⟩ := Cursor.next?_eq_some_iff.mp atNext
      refine ⟨by rw [atRest, ih.1]; rfl, ?_⟩
      rw [List.length_cons, Cursor.skip, atNext]
      exact ih.2
  · rintro ⟨atRest, atEnd⟩
    induction text generalizing cursor with
    | nil =>
      cases atEnd
      exact .done
    | cons c text ih =>
      have atNext : cursor.next? = some (c, ⟨text ++ final.rest,
          cursor.position.after c (text ++ final.rest).head?⟩) :=
        Cursor.next?_eq_some_iff.mpr ⟨atRest, rfl⟩
      rw [List.length_cons, Cursor.skip, atNext] at atEnd
      exact .next atNext (ih rfl atEnd)

/-- Step by step a reader comes to the place that the text settles as a whole. -/
theorem Cursor.passes_start_iff {consumed rest : List Char} {cursor : Cursor} :
    (Cursor.start (consumed ++ rest)).Passes consumed cursor ↔
      cursor = ⟨rest, .behind consumed rest⟩ := by
  have reading : (Cursor.start (consumed ++ rest)).rest = (consumed ++ rest).drop 0 := rfl
  have read := Cursor.skip_isBehind consumed.length reading
    (Position.isBehind_start (consumed ++ rest)) (by simp)
  rw [Nat.zero_add, List.drop_left] at read
  have skipped : (Cursor.start (consumed ++ rest)).skip consumed.length =
      ⟨rest, .behind consumed rest⟩ := by
    have place := read.2.eq_behind
    generalize (Cursor.start (consumed ++ rest)).skip consumed.length = skipped at read place
    obtain ⟨left, position⟩ := skipped
    have atRest : left = rest := read.1
    have atPlace : position = .behind consumed rest := place
    rw [atRest, atPlace]
  rw [Cursor.passes_iff, skipped]
  constructor
  · exact fun passed => passed.2
  · rintro rfl
    exact ⟨rfl, rfl⟩

/-- Each character adds at most one to line and column together, since a new line begins with the
first column. -/
theorem Position.after_counters {position : Position} (positive : 0 < position.column) (c : Char)
    (ahead : Option Char) :
    0 < (position.after c ahead).column ∧ position.line ≤ (position.after c ahead).line ∧
      (position.after c ahead).line + (position.after c ahead).column ≤
        position.line + position.column + 1 := by
  unfold Position.after
  dsimp only
  split <;> omega

theorem Cursor.Passes.counters {cursor final : Cursor} {text : List Char}
    (passes : cursor.Passes text final) (positive : 0 < cursor.position.column) :
    final.position.line + final.position.column ≤
      cursor.position.line + cursor.position.column + text.length := by
  induction passes with
  | done => exact Nat.le_refl _
  | @next cursor behind final c text atNext _ ih =>
    obtain ⟨_, atPlace⟩ := Cursor.next?_eq_some_iff.mp atNext
    have step := Position.after_counters positive c behind.rest.head?
    rw [← atPlace] at step
    have later := ih step.1
    rw [List.length_cons]
    omega

theorem Position.behind_counters (consumed rest : List Char) :
    (Position.behind consumed rest).line + (Position.behind consumed rest).column ≤
      consumed.length + 2 := by
  have passes : (Cursor.start (consumed ++ rest)).Passes consumed ⟨rest, .behind consumed rest⟩ :=
    Cursor.passes_start_iff.mpr rfl
  have counters := passes.counters Nat.one_pos
  rwa [Nat.add_comm consumed.length]

/-- A counter of 32 bits with one added, unless it is full. -/
def increment? (counter : UInt32) : Option UInt32 :=
  if counter.toNat + 1 < UInt32.size then some (counter + 1) else none

theorem increment?_eq {counter : UInt32} (room : counter.toNat + 1 < UInt32.size) :
    ∃ next, increment? counter = some next ∧ next.toNat = counter.toNat + 1 := by
  refine ⟨counter + 1, if_pos room, ?_⟩
  rw [UInt32.toNat_add, UInt32.toNat_one, Nat.mod_eq_of_lt room]

/-- A place with its line and column in 32 bits. -/
structure NarrowPosition where
  offset : Nat
  line : UInt32
  column : UInt32
  deriving DecidableEq

namespace NarrowPosition

def start : NarrowPosition := ⟨0, 1, 1⟩

def wide (position : NarrowPosition) : Position :=
  ⟨position.offset, position.line.toNat, position.column.toNat⟩

/-- The place behind a character when `ahead` follows it, or `none` if a counter overflows. -/
def after? (position : NarrowPosition) (c : Char) (ahead : Option Char) : Option NarrowPosition :=
  if endsLine c ahead then
    (increment? position.line).map fun line => ⟨position.offset + c.utf8Size, line, 1⟩
  else
    (increment? position.column).map fun column =>
      ⟨position.offset + c.utf8Size, position.line, column⟩

/-- The place behind a text when `rest` follows it. -/
def afterText? (position : NarrowPosition) (rest : List Char) : List Char → Option NarrowPosition
  | [] => some position
  | c :: text =>
    (position.after? c (text ++ rest).head?).bind fun behind => behind.afterText? rest text

theorem after?_eq (position : NarrowPosition) (c : Char) (ahead : Option Char)
    (line : position.line.toNat + 1 < UInt32.size)
    (column : position.column.toNat + 1 < UInt32.size) :
    ∃ behind, position.after? c ahead = some behind ∧ behind.wide = position.wide.after c ahead := by
  obtain ⟨nextLine, atLine, lineEq⟩ := increment?_eq line
  obtain ⟨nextColumn, atColumn, columnEq⟩ := increment?_eq column
  by_cases ends : endsLine c ahead = true
  · refine ⟨_, by rw [after?, if_pos ends, atLine]; rfl, ?_⟩
    simp [wide, Position.after, ends, lineEq]
  · refine ⟨_, by rw [after?, if_neg ends, atColumn]; rfl, ?_⟩
    simp [wide, Position.after, ends, columnEq]

/-- As long as the counters together have room for the text, none of them overflows, and they count
what counters without a bound do. -/
theorem afterText?_eq (position : NarrowPosition) (text rest : List Char)
    (line : 0 < position.line.toNat) (column : 0 < position.column.toNat)
    (room : position.line.toNat + position.column.toNat + text.length ≤ UInt32.size) :
    ∃ final, position.afterText? rest text = some final ∧
      final.wide = ((Cursor.mk (text ++ rest) position.wide).skip text.length).position := by
  induction text generalizing position with
  | nil => exact ⟨position, rfl, rfl⟩
  | cons c text ih =>
    rw [List.length_cons] at room
    obtain ⟨behind, atBehind, same⟩ :=
      position.after?_eq c (text ++ rest).head? (by omega) (by omega)
    have step := Position.after_counters (show 0 < position.wide.column from column) c
      (text ++ rest).head?
    rw [← same] at step
    simp only [wide] at step
    obtain ⟨final, atFinal, place⟩ := ih behind (by omega) step.1 (by omega)
    refine ⟨final, by rw [afterText?, atBehind]; exact atFinal, ?_⟩
    rw [place, same]
    rfl

/-- Counters of 32 bits do not overflow on fewer characters than the largest number they hold. -/
theorem afterText?_start {consumed : List Char} (rest : List Char)
    (few : consumed.length < UInt32.size - 1) :
    ∃ narrow, start.afterText? rest consumed = some narrow ∧
      narrow.wide = .behind consumed rest := by
  have room : 1 + 1 + consumed.length ≤ UInt32.size := by omega
  have passes : (Cursor.start (consumed ++ rest)).Passes consumed ⟨rest, .behind consumed rest⟩ :=
    Cursor.passes_start_iff.mpr rfl
  obtain ⟨narrow, atNarrow, same⟩ := start.afterText?_eq consumed rest Nat.one_pos Nat.one_pos room
  refine ⟨narrow, atNarrow, same.trans ?_⟩
  exact congrArg Cursor.position (Cursor.passes_iff.mp passes).2.symm

end NarrowPosition

/-- The bytes of a text lead to what stands behind it. -/
theorem dropBytes?_append (before after : List Char) :
    dropBytes? (byteLength before) (before ++ after) = some after := by
  induction before with
  | nil => cases after <;> rfl
  | cons c before ih =>
    obtain ⟨fewer, atFewer⟩ :=
      Nat.exists_eq_add_one.mpr (byteLength_pos (List.cons_ne_nil c before))
    have bytes := byteLength_cons c before
    rw [atFewer, List.cons_append, dropBytes?, ← atFewer, if_pos (by omega), bytes,
      Nat.add_sub_cancel_left, ih]

/-- So many bytes as a text has are the text itself, whatever stands behind it. -/
theorem takeBytes?_append (before after : List Char) :
    takeBytes? (byteLength before) (before ++ after) = some before := by
  induction before with
  | nil => cases after <;> rfl
  | cons c before ih =>
    obtain ⟨fewer, atFewer⟩ :=
      Nat.exists_eq_add_one.mpr (byteLength_pos (List.cons_ne_nil c before))
    have bytes := byteLength_cons c before
    rw [atFewer, List.cons_append, takeBytes?, ← atFewer, if_pos (by omega), bytes,
      Nat.add_sub_cancel_left, ih]
    rfl

/-- A text that was only added to is cut back to what it was. -/
theorem truncate?_append (before after : List Char) :
    truncate? (before ++ after) (byteLength before) = some before := by
  cases after with
  | nil => rw [List.append_nil, truncate?, if_pos (Nat.le_refl _)]
  | cons c after =>
    have added := byteLength_pos (List.cons_ne_nil c after)
    rw [truncate?, if_neg (by rw [byteLength_append]; omega), takeBytes?_append]

/-- A reader between the two parts of a source, of which it has read the first. -/
structure Cursor.IsBetween (consumed rest : String) (cursor : Cursor) : Prop where
  offset : cursor.position.offset = consumed.utf8ByteSize
  boundary : String.Pos.Raw.IsValid (consumed ++ rest) ⟨cursor.position.offset⟩
  within : cursor.position.offset ≤ (consumed ++ rest).utf8ByteSize
  line : cursor.position.line = 1 + consumed.toList.count '\n' +
    (List.range consumed.length).countP (isLoneReturn (consumed ++ rest).toList)
  column : cursor.position.column = 1 + ((List.range consumed.length).reverse.takeWhile
    (!breaksLine (consumed ++ rest).toList ·)).length
  /-- What is left to read stands behind the bytes that were read. -/
  slice : dropBytes? cursor.position.offset (consumed ++ rest).toList = some rest.toList
  peek : cursor.peek = rest.toList.head?
  /-- Looking ahead has read nothing: the same character comes next. -/
  next : cursor.next?.map Prod.fst = cursor.peek
  isEof : cursor.isEof = true ↔ rest = ""
  atEnd : cursor.isEof = true ↔ (consumed ++ rest).utf8ByteSize ≤ cursor.position.offset
  counters : cursor.position.line + cursor.position.column ≤ consumed.length + 2
  /-- Counters of 32 bits do not overflow on fewer characters than the largest number they hold. -/
  narrow : consumed.length < UInt32.size - 1 →
    ∃ narrow, NarrowPosition.start.afterText? rest.toList consumed.toList = some narrow ∧
      narrow.wide = cursor.position

/-- Wherever a source is split, a reader that has read the first part character by character is at the
place that follows from the text alone, and the second part is still to come. -/
theorem cursor_between_parts (consumed rest : String) :
    ∃ cursor : Cursor, cursor.IsBetween consumed rest ∧
      ∀ other, (Cursor.start (consumed ++ rest).toList).Passes consumed.toList other ↔
        other = cursor := by
  have whole : (consumed ++ rest).toList = consumed.toList ++ rest.toList := String.toList_append
  have bytes : (Position.behind consumed.toList rest.toList).offset = consumed.utf8ByteSize := by
    rw [Position.behind, byteLength_eq, String.ofList_toList]
  have isEof : rest.toList.isEmpty = true ↔ rest = "" := by simp
  have noBytes : rest = "" ↔ rest.utf8ByteSize = 0 := String.utf8ByteSize_eq_zero_iff.symm
  have all : (consumed ++ rest).utf8ByteSize = consumed.utf8ByteSize + rest.utf8ByteSize :=
    String.utf8ByteSize_append
  refine ⟨⟨rest.toList, .behind consumed.toList rest.toList⟩, ?_, ?_⟩
  · refine ⟨bytes, ?_, ?_, ?_, ?_, ?_, rfl, ?_, isEof, ?_, ?_, ?_⟩
    · rw [bytes, String.Pos.Raw.isValid_iff_exists_append]
      exact ⟨consumed, rest, rfl, rfl⟩
    · rw [bytes, all]
      exact Nat.le_add_right _ _
    · rw [whole]
      rfl
    · rw [whole]
      rfl
    · rw [whole]
      exact dropBytes?_append consumed.toList rest.toList
    · cases rest.toList <;> rfl
    · rw [bytes, all]
      exact (isEof.trans noBytes).trans (by omega)
    · rw [← String.length_toList]
      exact Position.behind_counters consumed.toList rest.toList
    · rw [← String.length_toList]
      exact NarrowPosition.afterText?_start rest.toList
  · intro other
    rw [whole]
    exact Cursor.passes_start_iff

/-- Between a carriage return and its line feed the line has not ended yet, while a lone return before
has ended one. -/
theorem cursor_between_parts_return :
    "é\r\n\rab\r".length < UInt32.size - 1 ∧
      ∃ cursor, (Cursor.start ("é\r\n\rab\r" ++ "\nc").toList).Passes "é\r\n\rab\r".toList cursor ∧
        cursor.position.offset = 8 ∧ cursor.position.line = 3 ∧ cursor.position.column = 4 ∧
        cursor.peek = some '\n' ∧
        ∃ narrow, NarrowPosition.start.afterText? "\nc".toList "é\r\n\rab\r".toList = some narrow ∧
          narrow.wide = cursor.position := by
  have few : "é\r\n\rab\r".length < UInt32.size - 1 := by decide
  obtain ⟨cursor, between, passes⟩ := cursor_between_parts "é\r\n\rab\r" "\nc"
  refine ⟨few, cursor, (passes cursor).mpr rfl, ?_, ?_, ?_, ?_, between.narrow few⟩
  · exact between.offset.trans (by decide +kernel)
  · exact between.line.trans (by decide +kernel)
  · exact between.column.trans (by decide +kernel)
  · exact between.peek.trans (by decide +kernel)

end Elision
