import Mathlib.Algebra.GroupWithZero.Nat
import Elision.Proofs.Delivery
import Elision.Proofs.Overwriting

namespace Elision.Cli

/-- The members of two rows in one, each row in its order. -/
inductive Interleaved {α : Type} : List α → List α → List α → Prop
  | nil : Interleaved [] [] []
  | left {a left right both} : Interleaved left right both → Interleaved (a :: left) right (a :: both)
  | right {a left right both} : Interleaved left right both → Interleaved left (a :: right) (a :: both)

theorem Interleaved.append {α : Type} {left right both left' right' both' : List α}
    (first : Interleaved left right both) (second : Interleaved left' right' both') :
    Interleaved (left ++ left') (right ++ right') (both ++ both') := by
  induction first with
  | nil => exact second
  | left _ ih => exact .left ih
  | right _ ih => exact .right ih

theorem Interleaved.of_left {α : Type} (row : List α) : Interleaved row [] row := by
  induction row with
  | nil => exact .nil
  | cons a row ih => exact .left ih

theorem Interleaved.of_right {α : Type} (row : List α) : Interleaved [] row row := by
  induction row with
  | nil => exact .nil
  | cons a row ih => exact .right ih

/-- The lines that a log shows of a run. -/
def Log.lines (log : Log) (notes : List Note) : List String :=
  notes.flatMap fun note => log.line note.span? note.message

/-- The size lines come between the lines of the log, and neither changes the other. -/
theorem interleaved_lines (log : Log) (stats : Bool) (notes : List Note) :
    Interleaved (log.lines notes) (if stats then notes.flatMap Note.statsLine else [])
      (notes.flatMap (Note.lines log stats)) := by
  induction notes with
  | nil => cases stats <;> exact .nil
  | cons note notes ih =>
    have told : Interleaved (log.line note.span? note.message) [] _ := .of_left _
    cases stats with
    | false => simpa [Log.lines, Note.lines] using told.append ih
    | true =>
      have here := told.append (Interleaved.of_right note.statsLine)
      simpa [Log.lines, Note.lines] using here.append ih

/-- The inputs that are finished before the first that fails. -/
def finishedFirst : List (Except Trouble Finished) → List Finished
  | .ok finished :: results => finished :: finishedFirst results
  | _ => []

theorem finishedFirst_append (results : List (Except Trouble Finished)) :
    results = (finishedFirst results).map Except.ok ∨
      ∃ trouble rest, results = (finishedFirst results).map Except.ok ++ .error trouble :: rest := by
  fun_induction finishedFirst results with
  | case1 finished results ih =>
    rcases ih with all | ⟨trouble, rest, split⟩
    · exact .inl (by rw [List.map_cons, ← all])
    · exact .inr ⟨trouble, rest, by rw [List.map_cons, List.cons_append, ← split]⟩
  | case2 results notOk =>
    cases results with
    | nil => exact .inl rfl
    | cons result results =>
      cases result with
      | error trouble => exact .inr ⟨trouble, results, rfl⟩
      | ok finished => exact absurd rfl (notOk finished results)

section Session

variable (files : FileMap) (stdin : ByteArray) (inputs : List Input)

theorem Session.run_notes (output : Option String) :
    (Session.run files stdin inputs output).notes = notesOf files stdin inputs := by
  unfold Session.run
  dsimp only
  split
  · rfl
  · rfl
  · split <;> rfl

/-- One size line is noted for each input that is finished. -/
theorem statsLines_notesOf :
    (notesOf files stdin inputs).flatMap Note.statsLine =
      (finishedFirst (Input.results files stdin inputs)).map Finished.statsLine := by
  have first : Note.statsLine (.collected inputs.length) = [] := rfl
  rw [notesOf, List.flatMap_cons, first, List.nil_append]
  rcases finishedFirst_append (Input.results files stdin inputs) with all | ⟨trouble, rest, split⟩
  · rw [← List.append_nil (List.map Except.ok _)] at all
    obtain ⟨notes, sources, stats, atRest, bundle⟩ := Bundle.ofInputs_append all
    obtain rfl : sources = [] := by simpa using atRest
    rw [bundle, Bundle.ofSources, List.append_nil, stats]
  · obtain ⟨notes, sources, stats, atRest, bundle⟩ := Bundle.ofInputs_append split
    obtain ⟨source, later, rfl, failed, _⟩ := List.map_eq_cons_iff.mp atRest
    obtain ⟨lastNotes, lastStats, stopped⟩ := Bundle.ofSources_trouble failed (joinOuts _) later
    rw [bundle, stopped, List.flatMap_append, stats, lastStats, List.append_nil]

end Session

theorem utf8ByteSize_joinOuts (done : List Finished) :
    (joinOuts done).utf8ByteSize = (done.map (·.out.utf8ByteSize)).sum := by
  induction done with
  | nil => rfl
  | cons finished done ih =>
    rw [joinOuts, List.map_cons, String.join_cons, String.utf8ByteSize_append]
    rw [joinOuts] at ih
    rw [ih, List.map_cons, List.sum_cons]

/-- The report at the end of what a run prints for the user: none if all went well. -/
inductive Outcome.Reports (outcome : Outcome) : List String → Prop
  | nothing : outcome.code = 0 → outcome.Reports []
  | trouble {trouble : Trouble} : outcome.code = 1 → outcome.Reports trouble.report

/-- What a run prints for the user: the lines of its log with the size lines between them, and a
report at the end. -/
def Outcome.Prints (outcome : Outcome) (log stats report : List String) : Prop :=
  ∃ shown, Interleaved log stats shown ∧ outcome.stderr = shown ++ report

/-- Where the whole result of a run is found. -/
def Outcome.Delivers (outcome : Outcome) (text : String) : Option String → Prop
  | none => outcome.stdout = text
  | some path => outcome.files.read path = .ok text.toUTF8

def Session.report (session : Session) : List String :=
  (session.trouble.map Trouble.report).getD []

theorem Session.outcome_reports (session : Session) (log : Log) (stats : Bool) :
    (session.outcome log stats).Reports session.report := by
  cases trouble : session.trouble with
  | none =>
    rw [Session.report, trouble]
    exact .nothing (by simp [Session.outcome, trouble])
  | some trouble_ =>
    rw [Session.report, trouble]
    exact .trouble (by simp [Session.outcome, trouble])

theorem Session.run_prints (files : FileMap) (stdin : ByteArray) (inputs : List Input)
    (output : Option String) (log : Log) (stats : Bool) :
    ((Session.run files stdin inputs output).outcome log stats).Prints
      (log.lines (notesOf files stdin inputs))
      (if stats then (finishedFirst (Input.results files stdin inputs)).map Finished.statsLine else [])
      (Session.run files stdin inputs output).report := by
  rw [← statsLines_notesOf, ← Session.run_notes files stdin inputs output]
  exact ⟨_, interleaved_lines log stats _, rfl⟩

/-- A run without trouble has finished all inputs, and delivers what they came to. -/
theorem Session.run_delivers {files : FileMap} {stdin : ByteArray} {inputs : List Input}
    {output : Option String} {log : Log} {stats : Bool}
    (success : ((Session.run files stdin inputs output).outcome log stats).code = 0) :
    ((Session.run files stdin inputs output).outcome log stats).Delivers
      (joinOuts (finishedFirst (Input.results files stdin inputs))) output := by
  rcases finishedFirst_append (Input.results files stdin inputs) with all | ⟨trouble, rest, split⟩
  · have result := Bundle.result_of_done all
    cases output with
    | none =>
      rw [Session.run_print result]
      rfl
    | some path =>
      rw [Session.run_write result] at success ⊢
      cases writes : files.write path
          (joinOuts (finishedFirst (Input.results files stdin inputs))).toUTF8 with
      | error cause =>
        rw [writes] at success
        cases success
      | ok written => exact (FileMap.overwritten_of_write writes).read
  · rw [Session.run_refuse (Bundle.result_of_trouble split)] at success
    cases success

/-- Watching a run does not change it. Two commands that ask for the same inputs and output, but for
other size lines and another log, have the same exit code, output, files and report. The size lines are
one for each input finished before the first that fails, and tell its bytes and those of its result,
which add up to the bytes delivered. -/
theorem execute_unchanged_by_watching {arguments others : List String} {options watched : Options}
    (accepted : Options.ofArguments arguments = .ok options)
    (alsoAccepted : Options.ofArguments others = .ok watched)
    (sameFiles : watched.files = options.files) (sameOutput : watched.output = options.output)
    (logFor otherLogFor : Nat → Log) (files : FileMap) (stdin : ByteArray) :
    (executeUnder logFor files stdin arguments).code =
        (executeUnder otherLogFor files stdin others).code ∧
      (executeUnder logFor files stdin arguments).stdout =
        (executeUnder otherLogFor files stdin others).stdout ∧
      (executeUnder logFor files stdin arguments).files =
        (executeUnder otherLogFor files stdin others).files ∧
      ∃ inputs report done, Input.Asked options.files inputs ∧
        done = finishedFirst (Input.results files stdin inputs) ∧
        (executeUnder logFor files stdin arguments).Reports report ∧
        (executeUnder logFor files stdin arguments).Prints
          ((logFor options.verbosity).lines (notesOf files stdin inputs))
          (if options.stats then done.map Finished.statsLine else []) report ∧
        (executeUnder otherLogFor files stdin others).Prints
          ((otherLogFor watched.verbosity).lines (notesOf files stdin inputs))
          (if watched.stats then done.map Finished.statsLine else []) report ∧
        ((executeUnder logFor files stdin arguments).code = 0 →
          ∃ text : String, (executeUnder logFor files stdin arguments).Delivers text options.output ∧
            (done.map (·.out.utf8ByteSize)).sum = text.utf8ByteSize) := by
  rw [executeUnder_eq accepted, executeUnder_eq alsoAccepted, sameFiles, sameOutput]
  refine ⟨rfl, rfl, rfl, _, _, _, Input.asked_iff.mpr rfl, rfl, Session.outcome_reports _ _ _,
    Session.run_prints .., Session.run_prints .., ?_⟩
  intro success
  exact ⟨_, Session.run_delivers success, (utf8ByteSize_joinOuts _).symm⟩

/-- The second input is missing. One command asks for sizes, the other for a log of all messages. -/
theorem execute_unchanged_by_watching_missing :
    Options.ofArguments ["a.js", "b.js", "--stats"] = .ok ⟨["a.js", "b.js"], none, true, 0⟩ ∧
      Options.ofArguments ["-vvv", "a.js", "b.js"] = .ok ⟨["a.js", "b.js"], none, false, 3⟩ ∧
      (executeUnder (fun _ => ⟨fun _ _ => []⟩) (.ofList [("a.js", .file "x = 1".toUTF8)]) .empty
          ["a.js", "b.js", "--stats"]).code =
        (executeUnder (fun _ => ⟨fun _ message => [message.text]⟩)
          (.ofList [("a.js", .file "x = 1".toUTF8)]) .empty ["-vvv", "a.js", "b.js"]).code ∧
      ∃ log longer report,
        (executeUnder (fun _ => ⟨fun _ _ => []⟩) (.ofList [("a.js", .file "x = 1".toUTF8)]) .empty
          ["a.js", "b.js", "--stats"]).Prints log ["a.js: 5 -> 4 bytes"] report ∧
        (executeUnder (fun _ => ⟨fun _ message => [message.text]⟩)
          (.ofList [("a.js", .file "x = 1".toUTF8)]) .empty ["-vvv", "a.js", "b.js"]).Prints longer [] report := by
  have accepted : Options.ofArguments ["a.js", "b.js", "--stats"] =
      .ok ⟨["a.js", "b.js"], none, true, 0⟩ := rfl
  have alsoAccepted : Options.ofArguments ["-vvv", "a.js", "b.js"] =
      .ok ⟨["a.js", "b.js"], none, false, 3⟩ := rfl
  have minified : minify "x = 1" = .ok "\nx=1" := minify_eq_ok_iff.mpr (by decide +kernel)
  have results : Input.results (.ofList [("a.js", .file "x = 1".toUTF8)]) .empty
      (Input.ofPaths ["a.js", "b.js"]) =
        [.ok ⟨.file "a.js", _, _, minified⟩, .error (.read (.file "b.js") .notFound)] := by
    rw [← Source.finish_of_ok minified (.file "a.js")]
    rfl
  obtain ⟨code, _, _, inputs, report, done, asked, atDone, _, sizes, plain, _⟩ :=
    execute_unchanged_by_watching accepted alsoAccepted rfl rfl (fun _ => ⟨fun _ _ => []⟩)
      (fun _ => ⟨fun _ message => [message.text]⟩) (.ofList [("a.js", .file "x = 1".toUTF8)]) .empty
  have line : Finished.statsLine ⟨.file "a.js", _, _, minified⟩ = "a.js: 5 -> 4 bytes" := by
    dsimp only [Finished.statsLine]
    decide +kernel
  rw [Input.asked_iff.mp asked, results, finishedFirst, finishedFirst.eq_def] at atDone
  rw [atDone, List.map_cons, List.map_nil, line] at sizes
  exact ⟨accepted, alsoAccepted, code, _, _, report, sizes, plain⟩

end Elision.Cli
