import Elision.Proofs.Delivery
import Elision.Proofs.Overwriting

namespace Elision.Cli

/-- Inputs that can all be read and minified, one after the other, with their results. The first that
asks for the standard input gets all that is there, and `left` is what is there in the end. -/
inductive Input.Minified (files : FileMap) :
    ByteArray → List Input → List String → ByteArray → Prop
  | nil {stdin} : Minified files stdin [] [] stdin
  | stdin {source out inputs outs left} : minify source = .ok out →
      Minified files .empty inputs outs left →
      Minified files source.toUTF8 (.stdin :: inputs) (out :: outs) left
  | file {stdin path source out inputs outs left} : files.read path = .ok source.toUTF8 →
      minify source = .ok out → Minified files stdin inputs outs left →
      Minified files stdin (.file path :: inputs) (out :: outs) left

/-- What a construct is called in a message. -/
inductive Called : Construct → String → Prop
  | comment : Called .comment "comment"
  | string : Called .string "string literal"
  | regex : Called .regex "regular expression literal"

/-- How a failure is told: its line and column, and a message. -/
def ToldAs (failure : Failure) (place message : String) : Prop :=
  place = toString failure.start.line ++ ":" ++ toString failure.start.column ∧
    ∃ what, Called failure.construct what ∧
      message = "unterminated " ++ what ++ " starting at " ++ place

/-- Why an input comes to nothing: what could not be done, and what went wrong there. -/
inductive Input.Fails (files : FileMap) (stdin : ByteArray) : Input → String → String → Prop
  | unreadable {path cause} : files.read path = .error cause →
      Fails files stdin (.file path) ("failed to read " ++ path) cause.message
  | notText {path content} : files.read path = .ok content →
      (∀ text : String, text.toUTF8 ≠ content) →
      Fails files stdin (.file path) ("failed to read " ++ path) "stream did not contain valid UTF-8"
  | stdinNotText : (∀ text : String, text.toUTF8 ≠ stdin) →
      Fails files stdin .stdin "failed to read stdin" "stream did not contain valid UTF-8"
  | unclosed {path source failure place message} : files.read path = .ok source.toUTF8 →
      minify source = .error failure → ToldAs failure place message →
      Fails files stdin (.file path) ("failed to minify " ++ path ++ ":" ++ place) message
  | stdinUnclosed {source failure place message} : stdin = source.toUTF8 →
      minify source = .error failure → ToldAs failure place message →
      Fails files stdin .stdin ("failed to minify <stdin>:" ++ place) message

/-- The first of the inputs that comes to nothing, behind others that can be minified. -/
def Input.FirstFails (files : FileMap) (stdin : ByteArray) (inputs : List Input)
    (context cause : String) : Prop :=
  ∃ before input after outs left, inputs = before ++ input :: after ∧
    Input.Minified files stdin before outs left ∧ Input.Fails files left input context cause

/-- A run that leaves nothing but the report of an error. -/
structure Outcome.Fails (outcome : Outcome) (files : FileMap) (context cause : String) : Prop where
  code : outcome.code = 1
  stdout : outcome.stdout = ""
  files : outcome.files = files
  report : ["Error: " ++ context, "", "Caused by:", "    " ++ cause] <:+ outcome.stderr

theorem toldAs_iff {failure : Failure} {place message : String} :
    ToldAs failure place message ↔ place = failure.start.text ∧ message = failure.message := by
  obtain ⟨construct, start⟩ := failure
  constructor
  · rintro ⟨rfl, what, called, rfl⟩
    cases called <;> exact ⟨rfl, rfl⟩
  · rintro ⟨rfl, rfl⟩
    refine ⟨rfl, construct.text, ?_, rfl⟩
    cases construct with
    | comment => exact .comment
    | string => exact .string
    | regex => exact .regex

section OfInputs

variable {files : FileMap} {stdin : ByteArray}

theorem Source.ofInputs_stdin (source : String) (later : List Input) :
    Source.ofInputs files source.toUTF8 (.stdin :: later) =
      ⟨.stdin, .ok source⟩ :: Source.ofInputs files .empty later := by
  rw [Source.ofInputs, decodeText_eq_ok_iff.mpr rfl]

theorem Source.ofInputs_file {path source : String} (reads : files.read path = .ok source.toUTF8)
    (later : List Input) :
    Source.ofInputs files stdin (.file path :: later) =
      ⟨.file path, .ok source⟩ :: Source.ofInputs files stdin later := by
  rw [Source.ofInputs, reads, Except.bind, decodeText_eq_ok_iff.mpr rfl]

/-- Inputs that can be minified are finished by themselves, and the others find what they leave of the
standard input. -/
theorem Input.Minified.finish {left : ByteArray} {inputs : List Input} {outs : List String}
    (minified : Input.Minified files stdin inputs outs left) (later : List Input) :
    ∃ done : List Finished, done.map Finished.out = outs ∧
      (Source.ofInputs files stdin (inputs ++ later)).map Source.finish =
        done.map .ok ++ (Source.ofInputs files left later).map Source.finish := by
  induction minified with
  | nil => exact ⟨[], rfl, rfl⟩
  | @stdin source out inputs outs left result minified ih =>
    obtain ⟨done, atOuts, finish⟩ := ih
    refine ⟨⟨.stdin, source, out, result⟩ :: done, by rw [List.map_cons, atOuts], ?_⟩
    rw [List.cons_append, Source.ofInputs_stdin, List.map_cons, finish, Source.finish_of_ok result]
    rfl
  | @file stdin path source out inputs outs left reads result minified ih =>
    obtain ⟨done, atOuts, finish⟩ := ih
    refine ⟨⟨.file path, source, out, result⟩ :: done, by rw [List.map_cons, atOuts], ?_⟩
    rw [List.cons_append, Source.ofInputs_file reads, List.map_cons, finish,
      Source.finish_of_ok result]
    rfl

/-- An input that comes to nothing ends the results with the trouble that is told of it. -/
theorem Input.Fails.finish {input : Input} {context cause : String}
    (fails : Input.Fails files stdin input context cause) (later : List Input) :
    ∃ trouble rest, trouble.context = context ∧ trouble.cause = cause ∧
      (Source.ofInputs files stdin (input :: later)).map Source.finish = .error trouble :: rest := by
  cases fails with
  | @unreadable path cause reads =>
    refine ⟨.read (.file path) cause, (Source.ofInputs files stdin later).map Source.finish,
      rfl, rfl, ?_⟩
    rw [Source.ofInputs, reads]
    rfl
  | @notText path content reads noText =>
    refine ⟨.read (.file path) .notText, (Source.ofInputs files stdin later).map Source.finish,
      rfl, rfl, ?_⟩
    rw [Source.ofInputs, reads, Except.bind, decodeText_eq_error noText]
    rfl
  | stdinNotText noText =>
    refine ⟨.read .stdin .notText, (Source.ofInputs files .empty later).map Source.finish,
      rfl, rfl, ?_⟩
    rw [Source.ofInputs, decodeText_eq_error noText]
    rfl
  | @unclosed path source failure place message reads failed told =>
    obtain ⟨rfl, rfl⟩ := toldAs_iff.mp told
    refine ⟨.minify (.file path) failure, (Source.ofInputs files stdin later).map Source.finish,
      rfl, rfl, ?_⟩
    rw [Source.ofInputs_file reads, List.map_cons, Source.finish_of_error failed]
  | @stdinUnclosed source failure place message spelled failed told =>
    obtain ⟨rfl, rfl⟩ := toldAs_iff.mp told
    subst spelled
    have named : "failed to minify <stdin>:" = "failed to minify " ++ "<stdin>" ++ ":" := by decide
    refine ⟨.minify .stdin failure, (Source.ofInputs files .empty later).map Source.finish, ?_, rfl, ?_⟩
    · rw [named]
      rfl
    · rw [Source.ofInputs_stdin, List.map_cons, Source.finish_of_error failed]

end OfInputs

/-- Each input comes to nothing or to a result, and then the inputs behind it have their turn. -/
theorem Input.fails_or_minified (files : FileMap) (stdin : ByteArray) (input : Input) :
    (∃ context cause, Input.Fails files stdin input context cause) ∨
      ∃ out left, ∀ inputs outs last, Input.Minified files left inputs outs last →
        Input.Minified files stdin (input :: inputs) (out :: outs) last := by
  have told (failure : Failure) : ToldAs failure failure.start.text failure.message :=
    toldAs_iff.mpr ⟨rfl, rfl⟩
  cases input with
  | stdin =>
    by_cases spelled : ∃ source : String, source.toUTF8 = stdin
    · obtain ⟨source, rfl⟩ := spelled
      cases result : minify source with
      | error failure => exact .inl ⟨_, _, .stdinUnclosed rfl result (told failure)⟩
      | ok out => exact .inr ⟨out, .empty, fun _ _ _ later => .stdin result later⟩
    · exact .inl ⟨_, _, .stdinNotText fun source same => spelled ⟨source, same⟩⟩
  | file path =>
    cases reads : files.read path with
    | error cause => exact .inl ⟨_, _, .unreadable reads⟩
    | ok content =>
      by_cases spelled : ∃ source : String, source.toUTF8 = content
      · obtain ⟨source, rfl⟩ := spelled
        cases result : minify source with
        | error failure => exact .inl ⟨_, _, .unclosed reads result (told failure)⟩
        | ok out => exact .inr ⟨out, stdin, fun _ _ _ later => .file reads result later⟩
      · exact .inl ⟨_, _, .notText reads fun source same => spelled ⟨source, same⟩⟩

/-- There is a first input that comes to nothing, unless all can be minified. -/
theorem Input.minified_or_first_fails (files : FileMap) (stdin : ByteArray) (inputs : List Input) :
    (∃ outs left, Input.Minified files stdin inputs outs left) ∨
      ∃ context cause, Input.FirstFails files stdin inputs context cause := by
  induction inputs generalizing stdin with
  | nil => exact .inl ⟨_, _, .nil⟩
  | cons input inputs ih =>
    rcases Input.fails_or_minified files stdin input with ⟨context, cause, fails⟩ | ⟨out, left, goesOn⟩
    · exact .inr ⟨context, cause, [], input, inputs, [], stdin, rfl, .nil, fails⟩
    · rcases ih left with ⟨outs, last, all⟩ |
        ⟨context, cause, before, other, after, outs, last, rfl, front, fails⟩
      · exact .inl ⟨_, _, goesOn _ _ _ all⟩
      · exact .inr ⟨context, cause, input :: before, other, after, out :: outs, last, rfl,
          goesOn _ _ _ front, fails⟩

theorem Session.outcome_fails (notes : List Note) (trouble : Trouble) (files : FileMap) (log : Log)
    (stats : Bool) :
    (Session.outcome ⟨notes, some trouble, "", files⟩ log stats).Fails files trouble.context
      trouble.cause :=
  ⟨rfl, rfl, rfl, List.suffix_append _ _⟩

/-- A command either does all that it is asked for or nothing. If every input can be read and minified,
the results are delivered together, in order, and a file takes them whole, even one that is an input
itself. Otherwise the first input that fails is reported, or the output that cannot be written, and
nothing else is left behind. -/
theorem execute_all_or_nothing {arguments : List String} {options : Options}
    (accepted : Options.ofArguments arguments = .ok options) (logFor : Nat → Log) (files : FileMap)
    (stdin : ByteArray) {outcome : Outcome}
    (ran : executeUnder logFor files stdin arguments = outcome) :
    ∃ inputs, Input.Asked options.files inputs ∧
      (∀ outs left, Input.Minified files stdin inputs outs left →
        (options.output = none →
          outcome.code = 0 ∧ outcome.stdout = String.join outs ∧ outcome.files = files) ∧
        (∀ path, options.output = some path →
          (files.Writable path →
            outcome.code = 0 ∧ outcome.stdout = "" ∧
              files.Overwritten path (String.join outs).toUTF8 outcome.files) ∧
          (¬files.Writable path → ∃ cause, files.write path (String.join outs).toUTF8 = .error cause ∧
            outcome.Fails files ("failed to write " ++ path) cause.message))) ∧
      (∀ context cause, Input.FirstFails files stdin inputs context cause →
        outcome.Fails files context cause) ∧
      ((∃ outs left, Input.Minified files stdin inputs outs left) ∨
        ∃ context cause, Input.FirstFails files stdin inputs context cause) := by
  rw [executeUnder_eq accepted] at ran
  subst ran
  refine ⟨Input.ofPaths options.files, Input.asked_iff.mpr rfl, ?_, ?_,
    Input.minified_or_first_fails files stdin _⟩
  · intro outs left minified
    obtain ⟨done, rfl, finish⟩ := minified.finish []
    rw [List.append_nil, Source.ofInputs, List.map_nil, List.append_nil, ← Input.results_eq] at finish
    have result := Bundle.result_of_done finish
    refine ⟨?_, ?_⟩
    · intro noOutput
      rw [noOutput, Session.run_print result]
      exact ⟨rfl, rfl, rfl⟩
    · intro path atOutput
      rw [atOutput, Session.run_write result]
      refine ⟨?_, ?_⟩
      · intro writable
        obtain ⟨written, writes⟩ := (FileMap.exists_write_iff (joinOuts done).toUTF8).mpr writable
        rw [writes]
        exact ⟨rfl, rfl, FileMap.overwritten_of_write writes⟩
      · intro notWritable
        cases writes : files.write path (joinOuts done).toUTF8 with
        | ok written => exact absurd ((FileMap.exists_write_iff _).mp ⟨written, writes⟩) notWritable
        | error cause => exact ⟨cause, writes, Session.outcome_fails _ (.write path cause) ..⟩
  · rintro context cause ⟨before, input, after, outs, left, split, minified, fails⟩
    obtain ⟨done, _, finish⟩ := minified.finish (input :: after)
    obtain ⟨trouble, rest, rfl, rfl, failed⟩ := fails.finish after
    rw [failed, ← split, ← Input.results_eq] at finish
    rw [Session.run_refuse (Bundle.result_of_trouble finish)]
    exact Session.outcome_fails ..

/-- The output is one of the inputs, and the standard input is asked for twice. -/
theorem execute_all_or_nothing_own_input :
    Options.ofArguments ["a.js", "-", "-", "-o", "a.js"] =
        .ok ⟨["a.js", "-", "-"], some "a.js", false, 0⟩ ∧
      (executeUnder (fun _ => ⟨fun _ _ => []⟩) (.ofList [("a.js", .file "x = 1".toUTF8)])
        "y ;".toUTF8 ["a.js", "-", "-", "-o", "a.js"]).code = 0 ∧
      (executeUnder (fun _ => ⟨fun _ _ => []⟩) (.ofList [("a.js", .file "x = 1".toUTF8)])
        "y ;".toUTF8 ["a.js", "-", "-", "-o", "a.js"]).files.read "a.js" =
          .ok "\nx=1\ny;\n".toUTF8 := by
  have accepted : Options.ofArguments ["a.js", "-", "-", "-o", "a.js"] =
      .ok ⟨["a.js", "-", "-"], some "a.js", false, 0⟩ := rfl
  have first : minify "x = 1" = .ok "\nx=1" := minify_eq_ok_iff.mpr (by decide +kernel)
  have second : minify "y ;" = .ok "\ny;" := minify_eq_ok_iff.mpr (by decide +kernel)
  have third : minify "" = .ok "\n" := minify_eq_ok_iff.mpr (by decide +kernel)
  have minified : Input.Minified (.ofList [("a.js", .file "x = 1".toUTF8)]) "y ;".toUTF8
      [.file "a.js", .stdin, .stdin] ["\nx=1", "\ny;", "\n"] .empty :=
    .file rfl first (.stdin second (@Input.Minified.stdin _ "" _ _ _ _ third .nil))
  have writable : FileMap.Writable (.ofList [("a.js", .file "x = 1".toUTF8)]) "a.js" :=
    ⟨_, rfl, by decide +kernel⟩
  obtain ⟨inputs, asked, finishes, _, _⟩ := execute_all_or_nothing accepted
    (fun _ => ⟨fun _ _ => []⟩) (.ofList [("a.js", .file "x = 1".toUTF8)]) "y ;".toUTF8 rfl
  rw [Input.asked_iff.mp asked] at finishes
  obtain ⟨code, _, overwritten⟩ := ((finishes _ _ minified).2 "a.js" rfl).1 writable
  exact ⟨accepted, code, overwritten.read⟩

end Elision.Cli
