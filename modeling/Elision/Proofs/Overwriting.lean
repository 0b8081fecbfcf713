import Elision.Cli.FileMap

namespace Elision.Cli

/-- A directory on the way to a place, other than the place itself. -/
def Place.IsAbove (upper place : Place) : Prop := upper.holds place = true ∧ upper ≠ place

theorem Place.holds_iff {upper place : Place} :
    upper.holds place = true ↔ upper.names <+: place.names := by
  simp [Place.holds]

theorem Place.not_isAbove_root {upper : Place} : ¬upper.IsAbove .root := by
  rintro ⟨holds, apart⟩
  obtain ⟨names⟩ := upper
  have nothing : names = [] := List.prefix_nil.mp (Place.holds_iff.mp holds)
  exact apart (congrArg Place.mk nothing)

/-- A name leads one directory down, one up or nowhere, so the way to the new place adds at most the
old place to the way there. -/
theorem Place.isAbove_enter {upper place : Place} {name : String}
    (isAbove : upper.IsAbove (place.enter name)) : upper = place ∨ upper.IsAbove place := by
  by_cases here : upper = place
  · exact .inl here
  unfold Place.enter at isAbove
  split at isAbove
  · exact .inr isAbove
  obtain ⟨holds, apart⟩ := isAbove
  have front := Place.holds_iff.mp holds
  refine .inr ⟨Place.holds_iff.mpr ?_, here⟩
  split at front
  · exact front.trans (List.dropLast_prefix _)
  · rename_i _ up
    rw [if_neg up] at apart
    rcases List.prefix_concat_iff.mp front with whole | shorter
    · exact absurd (congrArg Place.mk whole) apart
    · exact shorter

namespace FileMap

variable {files other : FileMap} {place final : Place} {steps : List String} {path : String}

/-- Every directory above a place that was walked to has been looked at on the way. -/
theorem walk_above (walks : files.walk place steps = .ok final)
    (open_ : ∀ upper, upper.IsAbove place → files.lookup upper = some .directory) :
    ∀ upper, upper.IsAbove final → files.lookup upper = some .directory := by
  induction steps generalizing place with
  | nil =>
    cases walks
    exact open_
  | cons name steps ih =>
    rw [walk] at walks
    split at walks
    · cases walks
    · cases walks
    · rename_i isDirectory
      refine ih walks ?_
      intro upper isAbove
      rcases Place.isAbove_enter isAbove with rfl | onTheWay
      · exact isDirectory
      · exact open_ upper onTheWay

theorem walk_of_directories (walks : files.walk place steps = .ok final)
    (kept : ∀ place, files.lookup place = some .directory → other.lookup place = some .directory) :
    other.walk place steps = .ok final := by
  induction steps generalizing place with
  | nil => exact walks
  | cons name steps ih =>
    rw [walk] at walks
    split at walks
    · cases walks
    · cases walks
    · rename_i isDirectory
      rw [walk, kept place isDirectory]
      exact ih walks

/-- The tree lists the new file at its place, and nothing else anew. -/
theorem find?_put (files : FileMap) (place elsewhere : Place) (content : ByteArray) :
    (files.put place content).entries.find? (·.1 = elsewhere) =
      if elsewhere = place then some (place, .file content)
      else files.entries.find? (·.1 = elsewhere) := by
  rw [put, List.find?_append]
  split
  · rename_i here
    subst here
    have dropped : (files.entries.filter (·.1 ≠ elsewhere)).find? (·.1 = elsewhere) = none := by
      rw [List.find?_eq_none]
      intro entry member
      simpa using (List.mem_filter.mp member).2
    rw [dropped]
    simp
  · rename_i apart
    have kept : (files.entries.filter (·.1 ≠ place)).find? (·.1 = elsewhere) =
        files.entries.find? (·.1 = elsewhere) := by
      rw [List.find?_filter]
      congr 1
      funext entry
      by_cases here : entry.1 = elsewhere
      · simp [here, apart]
      · simp [here]
    rw [kept]
    simp [Ne.symm apart]

/-- The way to the working directory consists of directories, whatever is listed. -/
theorem lookup_of_holds (holds : place.holds files.workingDirectory = true) :
    files.lookup place = some .directory := by
  rw [lookup, if_pos holds]

theorem lookup_put_self (free : files.lookup place ≠ some .directory) (content : ByteArray) :
    (files.put place content).lookup place = some (.file content) := by
  have aside : ¬place.holds (files.put place content).workingDirectory = true :=
    fun holds => free (lookup_of_holds holds)
  rw [lookup, if_neg aside, find?_put, if_pos rfl]

/-- A file put into a directory is seen at its own place only. -/
theorem lookup_put_of_ne {place elsewhere : Place}
    (above : ∀ upper, upper.IsAbove place → files.lookup upper = some .directory)
    (content : ByteArray) (apart : elsewhere ≠ place) :
    (files.put place content).lookup elsewhere = files.lookup elsewhere := by
  by_cases home : elsewhere.holds files.workingDirectory = true
  · rw [lookup_of_holds home]
    exact lookup_of_holds home
  have alsoAside : ¬elsewhere.holds (files.put place content).workingDirectory = true := home
  cases found : files.entries.find? (·.1 = elsewhere) with
  | some entry => rw [lookup, lookup, if_neg home, if_neg alsoAside, find?_put, if_neg apart, found]
  | none =>
    by_cases onTheWay : elsewhere.holds place = true
    · -- The directory was there before, or the walk to the file would have failed.
      have holds : (files.put place content).entries.any (elsewhere.holds ·.1) = true := by
        simp [put, onTheWay]
      rw [above elsewhere ⟨onTheWay, apart⟩, lookup, if_neg alsoAside, find?_put, if_neg apart,
        found, holds]
      rfl
    · have same : (files.put place content).entries.any (elsewhere.holds ·.1) =
          files.entries.any (elsewhere.holds ·.1) := by
        rw [Bool.eq_iff_iff]
        simp only [put, List.any_append, List.any_filter, List.any_cons, List.any_nil, onTheWay]
        simp only [Bool.or_false, List.any_eq_true, Bool.and_eq_true, decide_eq_true_eq]
        constructor
        · rintro ⟨entry, member, _, holds⟩
          exact ⟨entry, member, holds⟩
        · rintro ⟨entry, member, holds⟩
          refine ⟨entry, member, ?_, holds⟩
          rintro rfl
          exact onTheWay holds
      rw [lookup, lookup, if_neg home, if_neg alsoAside, find?_put, if_neg apart, found, same]

/-- The last name of a path is dropped only if it is empty. -/
theorem dropTrailing_eq {names : List String} (last : names.getLast? ≠ some "") :
    (names.reverse.dropWhile (· = "")).reverse = names := by
  rw [List.getLast?_eq_head?_reverse] at last
  cases atEnd : names.reverse with
  | nil => rw [List.reverse_eq_nil_iff.mp atEnd]; rfl
  | cons name names' =>
    rw [atEnd] at last
    have stays : name ≠ "" := by simpa using last
    rw [List.dropWhile_cons_of_neg (by simpa using stays), ← atEnd, List.reverse_reverse]

theorem write_eq_ok {content : ByteArray} {written : FileMap}
    (done : files.write path content = .ok written) :
    ∃ place, files.walk (files.start path) (names path) = .ok place ∧
      files.lookup place ≠ some .directory ∧ written = files.put place content := by
  unfold write at done
  dsimp only at done
  split at done
  · cases done
  · rename_i place walks
    split at done
    · cases done
    · rename_i free
      simp only [Bool.or_eq_true, decide_eq_true_eq, not_or] at free
      rw [dropTrailing_eq free.1] at walks
      cases done
      exact ⟨place, walks, free.2, rfl⟩

/-- The file tree after a write: the path leads to the new content, and at every place but the one
that it leads to there stands what stood there before. -/
structure Overwritten (before : FileMap) (path : String) (content : ByteArray) (after : FileMap) :
    Prop where
  workingDirectory : after.workingDirectory = before.workingDirectory
  read : after.read path = .ok content
  elsewhere : ∃ place, before.walk (before.start path) (names path) = .ok place ∧
    ∀ other, other ≠ place → after.lookup other = before.lookup other

theorem lookup_above_start {upper : Place} (isAbove : upper.IsAbove (files.start path)) :
    files.lookup upper = some .directory := by
  unfold start at isAbove
  split at isAbove
  · exact absurd isAbove Place.not_isAbove_root
  · exact lookup_of_holds isAbove.1

theorem overwritten_of_write {content : ByteArray} {written : FileMap}
    (done : files.write path content = .ok written) : files.Overwritten path content written := by
  obtain ⟨place, walks, free, rfl⟩ := write_eq_ok done
  have above : ∀ upper, upper.IsAbove place → files.lookup upper = some .directory :=
    walk_above walks fun _ isAbove => lookup_above_start isAbove
  have kept : ∀ upper, files.lookup upper = some .directory →
      (files.put place content).lookup upper = some .directory := by
    intro upper isDirectory
    have apart : upper ≠ place := by
      rintro rfl
      exact free isDirectory
    rw [lookup_put_of_ne above content apart, isDirectory]
  have again : (files.put place content).walk ((files.put place content).start path) (names path) =
      .ok place := walk_of_directories walks kept
  refine ⟨rfl, ?_, place, walks, fun other apart => lookup_put_of_ne above content apart⟩
  rw [read, again]
  dsimp only
  rw [lookup_put_self free]

/-- Whether a path leads to a place where a file is or can be. -/
def Writable (files : FileMap) (path : String) : Prop :=
  ∃ place, files.walk (files.start path) (names path) = .ok place ∧
    files.lookup place ≠ some .directory

theorem walk_concat {name : String} (walks : files.walk place (steps ++ [name]) = .ok final) :
    ∃ upper, files.lookup upper = some .directory ∧ final = upper.enter name := by
  induction steps generalizing place with
  | nil =>
    rw [List.nil_append, walk] at walks
    split at walks
    · cases walks
    · cases walks
    · rename_i isDirectory
      cases walks
      exact ⟨place, isDirectory, rfl⟩
  | cons step steps ih =>
    rw [List.cons_append, walk] at walks
    split at walks
    · cases walks
    · cases walks
    · exact ih walks

/-- A file can be written exactly where a path does not lead into nothing or to a directory. -/
theorem exists_write_iff (content : ByteArray) :
    (∃ written, files.write path content = .ok written) ↔ files.Writable path := by
  constructor
  · rintro ⟨written, done⟩
    obtain ⟨place, walks, free, _⟩ := write_eq_ok done
    exact ⟨place, walks, free⟩
  · rintro ⟨place, walks, free⟩
    have last : (names path).getLast? ≠ some "" := by
      intro last
      obtain ⟨front, split⟩ := List.getLast?_eq_some_iff.mp last
      rw [split] at walks
      obtain ⟨upper, isDirectory, atUpper⟩ := walk_concat walks
      have stays : place = upper := atUpper
      exact free (stays ▸ isDirectory)
    refine ⟨files.put place content, ?_⟩
    unfold write
    dsimp only
    rw [dropTrailing_eq last, walks]
    dsimp only
    rw [if_neg (by simp [last, free])]

end FileMap

end Elision.Cli
