import Elision.Text.Bytes
import Elision.Unclosed

namespace Elision

theorem byteLength_foldl (text : List Char) (bytes : Nat) :
    text.foldl (fun bytes c => bytes + c.utf8Size) bytes = bytes + byteLength text := by
  unfold byteLength
  induction text generalizing bytes with
  | nil => rfl
  | cons c text ih =>
    have here := ih (bytes + c.utf8Size)
    have alone := ih (0 + c.utf8Size)
    simp only [List.foldl_cons]
    omega

theorem byteLength_append (before after : List Char) :
    byteLength (before ++ after) = byteLength before + byteLength after := by
  rw [byteLength, List.foldl_append]
  exact byteLength_foldl after (byteLength before)

theorem byteLength_cons (c : Char) (text : List Char) :
    byteLength (c :: text) = c.utf8Size + byteLength text := by
  have here : byteLength [c] = c.utf8Size := Nat.zero_add _
  rw [← List.singleton_append, byteLength_append, here]

theorem byteLength_eq (text : List Char) : byteLength text = (String.ofList text).utf8ByteSize := by
  induction text with
  | nil => rfl
  | cons c text ih =>
    rw [byteLength_cons, ih, ← List.singleton_append, String.ofList_append,
      String.utf8ByteSize_append, ← String.singleton_eq_ofList, String.utf8ByteSize_singleton]

theorem byteLength_pos {text : List Char} (nonempty : text ≠ []) : 0 < byteLength text := by
  obtain ⟨c, text, rfl⟩ := List.exists_cons_of_ne_nil nonempty
  have bytes := c.utf8Size_pos
  rw [byteLength_cons]
  omega

/-- Whether a line is counted as ended by the character at a place of the source. -/
def endsLineAt (source : List Char) (i : Nat) : Bool :=
  source[i]?.any fun c => endsLine c source[i + 1]?

/-- The place behind the first `count` characters of a source: the bytes they take, one more than
the lines that end in them, and one more than the characters since the last of these. -/
structure Position.IsBehind (source : List Char) (count : Nat) (position : Position) : Prop where
  offset : position.offset = byteLength (source.take count)
  line : position.line = 1 + (List.range count).countP (endsLineAt source)
  column : ∃ lineStart, lineStart ≤ count ∧ (∀ i, i + 1 = lineStart → endsLineAt source i = true) ∧
    (∀ i, lineStart ≤ i → i < count → endsLineAt source i = false) ∧
    position.column = 1 + (count - lineStart)

theorem Position.isBehind_start (source : List Char) : Position.start.IsBehind source 0 :=
  ⟨rfl, rfl, 0, Nat.le_refl 0, by omega, by omega, rfl⟩

theorem Position.IsBehind.after {source : List Char} {count : Nat} {position : Position} {c : Char}
    (isBehind : position.IsBehind source count) (atPlace : source[count]? = some c) :
    (position.after c source[count + 1]?).IsBehind source (count + 1) := by
  have same : endsLineAt source count = endsLine c source[count + 1]? := by
    simp [endsLineAt, atPlace]
  refine ⟨?_, ?_, ?_⟩
  · have here : byteLength [c] = c.utf8Size := Nat.zero_add _
    rw [List.take_add_one, atPlace, byteLength_append, Option.toList_some, here, ← isBehind.offset]
    rfl
  · rw [List.range_succ, List.countP_append, List.countP_singleton, same, Position.after,
      isBehind.line]
    dsimp only
    split <;> omega
  · obtain ⟨lineStart, before, broken, unbroken, column⟩ := isBehind.column
    by_cases ends : endsLine c source[count + 1]? = true
    · refine ⟨count + 1, Nat.le_refl _, ?_, by omega, by simp [Position.after, ends]⟩
      intro i atBreak
      cases Nat.succ.inj atBreak
      rw [same, ends]
    · refine ⟨lineStart, by omega, broken, ?_, ?_⟩
      · intro i behind within
        rcases Nat.lt_succ_iff_lt_or_eq.mp within with earlier | rfl
        · exact unbroken i behind earlier
        · rw [same]
          simpa using ends
      · have same : (position.after c source[count + 1]?).column = position.column + 1 := if_neg ends
        omega

section Boundary

variable {source : String} {before after : List Char} {position : Position}

theorem Position.IsBehind.offset_eq (isBehind : position.IsBehind source.toList before.length)
    (split : source.toList = before ++ after) : position.offset = byteLength before := by
  rw [isBehind.offset, split, List.take_left]

theorem Position.IsBehind.offset_lt (isBehind : position.IsBehind source.toList before.length)
    (split : source.toList = before ++ after) (more : after ≠ []) :
    position.offset < source.utf8ByteSize := by
  have bytes := byteLength_pos more
  have whole : source.utf8ByteSize = byteLength before + byteLength after := by
    rw [← byteLength_append, ← split, byteLength_eq, String.ofList_toList]
  have offset := isBehind.offset_eq split
  omega

/-- The bytes before a place end with a character. -/
theorem Position.IsBehind.isValid (isBehind : position.IsBehind source.toList before.length)
    (split : source.toList = before ++ after) : String.Pos.Raw.IsValid source ⟨position.offset⟩ := by
  rw [String.Pos.Raw.isValid_iff_exists_append]
  refine ⟨String.ofList before, String.ofList after, ?_, ?_⟩
  · rw [← String.ofList_append, ← split, String.ofList_toList]
  · rw [isBehind.offset_eq split, byteLength_eq]
    rfl

end Boundary

/-- Reading on keeps the place behind what was read. -/
theorem Cursor.skip_isBehind {source : List Char} {cursor : Cursor} {read : Nat} (count : Nat)
    (atRest : cursor.rest = source.drop read) (isBehind : cursor.position.IsBehind source read)
    (within : read + count ≤ source.length) :
    (cursor.skip count).rest = source.drop (read + count) ∧
      (cursor.skip count).position.IsBehind source (read + count) := by
  induction count generalizing cursor read with
  | zero => exact ⟨atRest, isBehind⟩
  | succ count ih =>
    cases atCons : cursor.rest with
    | nil =>
      have unread := congrArg List.length (atRest.symm.trans atCons)
      simp only [List.length_drop, List.length_nil] at unread
      omega
    | cons c rest =>
      have split := atRest.symm.trans atCons
      have atPlace : source[read]? = some c := by
        rw [← List.head?_drop, split]
        rfl
      have atNext : rest = source.drop (read + 1) := by
        rw [← List.tail_drop, split]
        rfl
      have next : cursor.next? = some (c, ⟨rest, cursor.position.after c source[read + 1]?⟩) := by
        rw [Cursor.next?, atCons, ← List.head?_drop, ← atNext]
      have behind : read + (count + 1) = read + 1 + count := by omega
      rw [Cursor.skip, next, behind]
      exact ih atNext (isBehind.after atPlace) (by omega)

theorem Unclosed.locate_isBehind {unclosed : Unclosed} {source before : List Char}
    (atOpener : source = before ++ unclosed.opener) :
    (unclosed.locate source).start.IsBehind source before.length := by
  have count : source.length - unclosed.opener.length = before.length := by
    rw [atOpener, List.length_append]
    omega
  have within : before.length ≤ source.length := by
    rw [atOpener, List.length_append]
    omega
  have reading : (Cursor.start source).rest = source.drop 0 := rfl
  have located := Cursor.skip_isBehind before.length reading (Position.isBehind_start source)
    (by omega)
  rw [Nat.zero_add] at located
  rw [Unclosed.locate, count]
  exact located.2

theorem Unclosed.locate_offset {unclosed : Unclosed} {source before : List Char}
    (atOpener : source = before ++ unclosed.opener) :
    (unclosed.locate source).start.offset = byteLength before := by
  rw [(Unclosed.locate_isBehind atOpener).offset, atOpener, List.take_left]

/-- With another text before it, a construct begins as many bytes later as that text is longer. -/
theorem Unclosed.locate_shifted {unclosed : Unclosed} {behind : List Char}
    (inside : unclosed.opener <:+ behind) (front first second : List Char) :
    byteLength (front ++ first) ≤ (unclosed.locate (front ++ (first ++ behind))).start.offset ∧
      (unclosed.locate (front ++ (second ++ behind))).start.offset + byteLength first =
        (unclosed.locate (front ++ (first ++ behind))).start.offset + byteLength second := by
  obtain ⟨more, rfl⟩ := inside
  have atOpener (text : List Char) :
      front ++ (text ++ (more ++ unclosed.opener)) = (front ++ text ++ more) ++ unclosed.opener := by
    simp
  have offset := Unclosed.locate_offset (atOpener first)
  have shifted := Unclosed.locate_offset (atOpener second)
  simp only [byteLength_append] at offset shifted ⊢
  omega

end Elision
