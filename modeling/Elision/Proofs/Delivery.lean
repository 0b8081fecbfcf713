import Elision.Cli.Outcome
import Elision.Proofs.Appending
import Mathlib.Data.List.Forall2

namespace Elision.Cli

/-- What an argument stands for: a single dash for the standard input, anything else for a file. -/
inductive Input.Named : String → Input → Prop
  | dash : Named "-" .stdin
  | path {path} : path ≠ "-" → Named path (.file path)

/-- The inputs that a command asks for: the standard input if it names none. -/
def Input.Asked (paths : List String) (inputs : List Input) : Prop :=
  paths = [] ∧ inputs = [.stdin] ∨ paths ≠ [] ∧ List.Forall₂ Input.Named paths inputs

theorem Input.named_iff {path : String} {input : Input} :
    Input.Named path input ↔ input = if path = "-" then .stdin else .file path := by
  constructor
  · rintro (_ | apart)
    · rfl
    · rw [if_neg apart]
  · rintro rfl
    split
    · rename_i dash
      exact dash ▸ .dash
    · rename_i apart
      exact .path apart

theorem Input.forall₂_named_iff {paths : List String} {inputs : List Input} :
    List.Forall₂ Input.Named paths inputs ↔
      inputs = paths.map fun path => if path = "-" then .stdin else .file path := by
  induction paths generalizing inputs with
  | nil => simp
  | cons path paths ih => simp [List.forall₂_cons_left_iff, Input.named_iff, ih]

theorem Input.asked_iff {paths : List String} {inputs : List Input} :
    Input.Asked paths inputs ↔ inputs = Input.ofPaths paths := by
  rw [Input.Asked, Input.forall₂_named_iff]
  cases paths with
  | nil => simp [Input.ofPaths]
  | cons path paths => simp [Input.ofPaths]

/-- Bytes are decoded to the text that they encode. -/
theorem decodeText_eq_ok_iff {content : ByteArray} {text : String} :
    decodeText content = .ok text ↔ content = text.toUTF8 := by
  unfold decodeText String.fromUTF8?
  by_cases valid : content.IsValidUTF8
  · rw [dif_pos valid]
    constructor
    · intro same
      cases same
      rfl
    · rintro rfl
      rfl
  · rw [dif_neg valid]
    constructor
    · nofun
    · rintro rfl
      exact absurd text.isValidUTF8 valid

theorem decodeText_eq_error {content : ByteArray} (noText : ∀ text : String, text.toUTF8 ≠ content) :
    decodeText content = .error .notText := by
  cases decoded : decodeText content with
  | ok text => exact absurd (decodeText_eq_ok_iff.mp decoded).symm (noText text)
  | error cause =>
    unfold decodeText at decoded
    split at decoded
    · cases decoded
    · exact decoded.symm

/-- An input that was read and minified. -/
structure Finished where
  input : Input
  source : String
  out : String
  minified : minify source = .ok out

/-- The text of an input that stands behind the inputs `before`. All of the standard input goes to the
first that asks for it. -/
def Input.text (files : FileMap) (stdin : ByteArray) (before : List Input) :
    Input → Except FileError String
  | .stdin => decodeText (if .stdin ∈ before then .empty else stdin)
  | .file path => (files.read path).bind decodeText

/-- What becomes of a source by itself. -/
def Source.finish : Source → Except Trouble Finished
  | ⟨input, .error cause⟩ => .error (.read input cause)
  | ⟨input, .ok source⟩ =>
    match minified : minify source with
    | .error failure => .error (.minify input failure)
    | .ok out => .ok ⟨input, source, out, minified⟩

/-- What becomes of each input by itself, in order. -/
def Input.results (files : FileMap) (stdin : ByteArray) (inputs : List Input) :
    List (Except Trouble Finished) :=
  (inputs.mapIdx fun i input => Source.mk input (input.text files stdin (inputs.take i))).map
    Source.finish

/-- The results one behind the other. -/
def joinOuts (done : List Finished) : String := String.join (done.map Finished.out)

theorem Source.ofInputs_eq (files : FileMap) (stdin : ByteArray) (before inputs : List Input) :
    Source.ofInputs files (if .stdin ∈ before then .empty else stdin) inputs =
      inputs.mapIdx fun i input => ⟨input, input.text files stdin (before ++ inputs.take i)⟩ := by
  induction inputs generalizing before with
  | nil => rfl
  | cons input inputs ih =>
    have later := ih (before ++ [input])
    simp only [List.append_assoc, List.singleton_append] at later
    rw [List.mapIdx_cons]
    simp only [List.take_succ_cons, List.take_zero, List.append_nil, ← later]
    cases input with
    | stdin => simp [Source.ofInputs, Input.text]
    | file path => simp [Source.ofInputs, Input.text]

theorem Input.results_eq (files : FileMap) (stdin : ByteArray) (inputs : List Input) :
    Input.results files stdin inputs = (Source.ofInputs files stdin inputs).map Source.finish := by
  have sources := Source.ofInputs_eq files stdin [] inputs
  rw [if_neg List.not_mem_nil] at sources
  rw [sources]
  rfl

theorem Source.eq_of_finish {source : Source} {finished : Finished}
    (done : source.finish = .ok finished) : source = ⟨finished.input, .ok finished.source⟩ := by
  obtain ⟨input, text⟩ := source
  cases text with
  | error cause => cases done
  | ok text =>
    rw [Source.finish] at done
    split at done
    · cases done
    · cases done
      rfl

theorem Source.finish_of_ok {source out : String} (done : minify source = .ok out) (input : Input) :
    Source.finish ⟨input, .ok source⟩ = .ok ⟨input, source, out, done⟩ := by
  rw [Source.finish]
  split
  · rename_i failure failed
    rw [done] at failed
    cases failed
  · rename_i other again
    rw [done] at again
    cases again
    rfl

theorem Source.finish_of_error {source : String} {failure : Failure}
    (failed : minify source = .error failure) (input : Input) :
    Source.finish ⟨input, .ok source⟩ = .error (.minify input failure) := by
  rw [Source.finish]
  split
  · rename_i other again
    rw [failed] at again
    cases again
    rfl
  · rename_i out done
    rw [failed] at done
    cases done

/-- Behind any buffer a source leads to the buffer and its own result. -/
theorem scan_result_of_ok {source out : String} (done : minify source = .ok out) (buffer : String) :
    ∃ text, (scan buffer.toList source.toList).result source.toList = .ok text ∧
      String.ofList text = buffer ++ out := by
  have appended := append_eq buffer source
  rw [done, append] at appended
  cases result : (scan buffer.toList source.toList).result source.toList with
  | error failure =>
    rw [result] at appended
    cases appended
  | ok text =>
    rw [result] at appended
    exact ⟨text, rfl, Except.ok.inj appended⟩

theorem scan_result_of_error {source : String} {failure : Failure}
    (failed : minify source = .error failure) (buffer : String) :
    (scan buffer.toList source.toList).result source.toList = .error failure := by
  have appended := append_eq buffer source
  rw [failed, append] at appended
  cases result : (scan buffer.toList source.toList).result source.toList with
  | ok text =>
    rw [result] at appended
    cases appended
  | error found =>
    rw [result] at appended
    cases appended
    rfl

/-- How much smaller an input became, in bytes. -/
def Finished.statsLine (finished : Finished) : String :=
  finished.input.name ++ ": " ++ toString finished.source.utf8ByteSize ++ " -> " ++
    toString finished.out.utf8ByteSize ++ " bytes"

theorem statsLines_scanned (size : Nat) (events : List Event) :
    (events.map (Note.scanned size)).flatMap Note.statsLine = [] := by
  rw [List.flatMap_map]
  simp [Note.statsLine]

/-- A source that can be minified adds its result to the buffer, and makes the others wait behind
it. -/
theorem Bundle.ofSources_finished (buffer : String) (finished : Finished) (sources : List Source) :
    ∃ notes, notes.flatMap Note.statsLine = [finished.statsLine] ∧
      Bundle.ofSources buffer (⟨finished.input, .ok finished.source⟩ :: sources) =
        ⟨notes ++ (Bundle.ofSources (buffer ++ finished.out) sources).notes,
          (Bundle.ofSources (buffer ++ finished.out) sources).result⟩ := by
  obtain ⟨text, result, atText⟩ := scan_result_of_ok finished.minified buffer
  have written : (buffer ++ finished.out).utf8ByteSize - buffer.utf8ByteSize =
      finished.out.utf8ByteSize := by
    rw [String.utf8ByteSize_append]
    omega
  rw [Bundle.ofSources]
  dsimp only
  rw [result]
  dsimp only
  rw [atText, written]
  refine ⟨_, ?_, rfl⟩
  rw [List.flatMap_append, statsLines_scanned]
  simp [Note.statsLine, Finished.statsLine]

/-- A source that cannot be read or minified ends the bundle. -/
theorem Bundle.ofSources_trouble {source : Source} {trouble : Trouble}
    (failed : source.finish = .error trouble) (buffer : String) (sources : List Source) :
    ∃ notes, notes.flatMap Note.statsLine = [] ∧
      Bundle.ofSources buffer (source :: sources) = ⟨notes, .error trouble⟩ := by
  obtain ⟨input, text⟩ := source
  cases text with
  | error cause =>
    cases failed
    exact ⟨[], rfl, rfl⟩
  | ok text =>
    rw [Source.finish] at failed
    split at failed
    · rename_i failure minifying
      cases failed
      rw [Bundle.ofSources]
      dsimp only
      rw [scan_result_of_error minifying buffer]
      refine ⟨_, ?_, rfl⟩
      rw [List.flatMap_append, statsLines_scanned]
      rfl
    · cases failed

/-- The sources at the front that can all be minified leave their results in the buffer. -/
theorem Bundle.ofSources_append {front : List Source} {done : List Finished}
    (finish : front.map Source.finish = done.map .ok) (buffer : String) (sources : List Source) :
    ∃ notes, notes.flatMap Note.statsLine = done.map Finished.statsLine ∧
      Bundle.ofSources buffer (front ++ sources) =
        ⟨notes ++ (Bundle.ofSources (buffer ++ joinOuts done) sources).notes,
          (Bundle.ofSources (buffer ++ joinOuts done) sources).result⟩ := by
  induction front generalizing done buffer with
  | nil =>
    obtain rfl : done = [] := by simpa using finish.symm
    exact ⟨[], rfl, by simp [joinOuts]⟩
  | cons source front ih =>
    cases done with
    | nil => cases finish
    | cons finished done =>
      obtain ⟨first, later⟩ := List.cons.inj finish
      obtain ⟨laterNotes, laterStats, atLater⟩ := ih later (buffer ++ finished.out)
      obtain ⟨notes, stats, atFirst⟩ :=
        Bundle.ofSources_finished buffer finished (front ++ sources)
      have joined : buffer ++ finished.out ++ joinOuts done = buffer ++ joinOuts (finished :: done) := by
        simp [joinOuts, String.append_assoc]
      rw [joined] at atLater
      refine ⟨notes ++ laterNotes, by simp [stats, laterStats], ?_⟩
      rw [List.cons_append, Source.eq_of_finish first, atFirst, atLater, List.append_assoc]

/-- What a bundle comes to, told from what becomes of each source by itself. -/
theorem Bundle.ofInputs_append {files : FileMap} {stdin : ByteArray} {inputs : List Input}
    {done : List Finished} {rest : List (Except Trouble Finished)}
    (results : Input.results files stdin inputs = done.map .ok ++ rest) :
    ∃ notes sources, notes.flatMap Note.statsLine = done.map Finished.statsLine ∧
      sources.map Source.finish = rest ∧
      Bundle.ofSources "" (Source.ofInputs files stdin inputs) =
        ⟨notes ++ (Bundle.ofSources (joinOuts done) sources).notes,
          (Bundle.ofSources (joinOuts done) sources).result⟩ := by
  rw [Input.results_eq] at results
  obtain ⟨front, sources, split, atFront, atRest⟩ := List.map_eq_append_iff.mp results
  obtain ⟨notes, stats, bundle⟩ := Bundle.ofSources_append atFront "" sources
  rw [String.empty_append] at bundle
  exact ⟨notes, sources, stats, atRest, by rw [split, bundle]⟩

theorem Bundle.result_of_done {files : FileMap} {stdin : ByteArray} {inputs : List Input}
    {done : List Finished} (results : Input.results files stdin inputs = done.map .ok) :
    (Bundle.ofSources "" (Source.ofInputs files stdin inputs)).result = .ok (joinOuts done) := by
  rw [← List.append_nil (done.map Except.ok)] at results
  obtain ⟨notes, sources, _, atRest, bundle⟩ := Bundle.ofInputs_append results
  obtain rfl : sources = [] := by simpa using atRest
  rw [bundle, Bundle.ofSources]

theorem Bundle.result_of_trouble {files : FileMap} {stdin : ByteArray} {inputs : List Input}
    {done : List Finished} {trouble : Trouble} {rest : List (Except Trouble Finished)}
    (results : Input.results files stdin inputs = done.map .ok ++ .error trouble :: rest) :
    (Bundle.ofSources "" (Source.ofInputs files stdin inputs)).result = .error trouble := by
  obtain ⟨notes, sources, _, atRest, bundle⟩ := Bundle.ofInputs_append results
  obtain ⟨source, later, rfl, failed, _⟩ := List.map_eq_cons_iff.mp atRest
  obtain ⟨_, _, stopped⟩ := Bundle.ofSources_trouble failed (joinOuts done) later
  rw [bundle, stopped]

section Session

variable {files : FileMap} {stdin : ByteArray} {inputs : List Input}

/-- The notes of a run do not depend on what is done with its result. -/
def notesOf (files : FileMap) (stdin : ByteArray) (inputs : List Input) : List Note :=
  .collected inputs.length :: (Bundle.ofSources "" (Source.ofInputs files stdin inputs)).notes

theorem Session.run_refuse {trouble : Trouble}
    (failed : (Bundle.ofSources "" (Source.ofInputs files stdin inputs)).result = .error trouble)
    (output : Option String) :
    Session.run files stdin inputs output =
      ⟨notesOf files stdin inputs, some trouble, "", files⟩ := by
  unfold Session.run Bundle.delivery
  dsimp only
  rw [failed]
  rfl

theorem Session.run_print {text : String}
    (done : (Bundle.ofSources "" (Source.ofInputs files stdin inputs)).result = .ok text) :
    Session.run files stdin inputs none = ⟨notesOf files stdin inputs, none, text, files⟩ := by
  unfold Session.run Bundle.delivery
  dsimp only
  rw [done]
  rfl

theorem Session.run_write {text : String}
    (done : (Bundle.ofSources "" (Source.ofInputs files stdin inputs)).result = .ok text)
    (path : String) :
    Session.run files stdin inputs (some path) =
      match files.write path text.toUTF8 with
      | .error cause => ⟨notesOf files stdin inputs, some (.write path cause), "", files⟩
      | .ok written => ⟨notesOf files stdin inputs, none, "", written⟩ := by
  unfold Session.run Bundle.delivery
  dsimp only
  rw [done]
  rfl

end Session

theorem executeUnder_eq {arguments : List String} {options : Options}
    (accepted : Options.ofArguments arguments = .ok options) (logFor : Nat → Log) (files : FileMap)
    (stdin : ByteArray) :
    executeUnder logFor files stdin arguments =
      (Session.run files stdin (Input.ofPaths options.files) options.output).outcome
        (logFor options.verbosity) options.stats := by
  rw [executeUnder, accepted]

end Elision.Cli
