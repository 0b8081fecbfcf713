import Elision.Cli.FileMap
import Elision.Trace

namespace Elision.Cli

/-- Where a source comes from. -/
inductive Input
  | stdin
  | file (path : String)
  deriving DecidableEq

namespace Input

/-- How an input is named to the user. -/
def name : Input → String
  | .stdin => "<stdin>"
  | .file path => path

/-- The inputs that the paths stand for. A single dash stands for the standard input, and so does no
path at all. -/
def ofPaths : List String → List Input
  | [] => [.stdin]
  | paths => paths.map fun path => if path = "-" then .stdin else .file path

end Input

/-- An input with its source text, or with the reason why there is none. -/
structure Source where
  input : Input
  text : Except FileError String

/-- Reads the inputs in order. The first that asks for the standard input gets all of it. -/
def Source.ofInputs (files : FileMap) (stdin : ByteArray) : List Input → List Source
  | [] => []
  | .stdin :: inputs => ⟨.stdin, decodeText stdin⟩ :: ofInputs files .empty inputs
  | .file path :: inputs =>
    ⟨.file path, (files.read path).bind decodeText⟩ :: ofInputs files stdin inputs

/-- Why a run fails. -/
inductive Trouble
  | read (input : Input) (cause : FileError)
  | minify (input : Input) (failure : Failure)
  | write (path : String) (cause : FileError)
  deriving DecidableEq

namespace Trouble

/-- What the run was about to do. -/
def context : Trouble → String
  | .read .stdin _ => "failed to read stdin"
  | .read (.file path) _ => "failed to read " ++ path
  | .minify input failure => "failed to minify " ++ input.name ++ ":" ++ failure.start.text
  | .write path _ => "failed to write " ++ path

/-- What went wrong there. -/
def cause : Trouble → String
  | .read _ cause | .write _ cause => cause.message
  | .minify _ failure => failure.message

/-- The lines that tell the user about it. -/
def report (trouble : Trouble) : List String :=
  ["Error: " ++ trouble.context, "", "Caused by:", "    " ++ trouble.cause]

end Trouble

/-- What can be told of a run, in the order in which it happens. The sizes are in bytes, and `size`
is always that of the source. -/
inductive Note
  | collected (count : Nat)
  | scanned (size : Nat) (event : Event)
  | minified (size written : Nat)
  | failed (size : Nat) (failure : Failure)
  | finished (input : Input) (size written : Nat)
  deriving DecidableEq

/-- The text of all sources together, or the first trouble, and the notes up to there. -/
structure Bundle where
  notes : List Note
  result : Except Trouble String

/-- Minifies the sources one behind the other. -/
def Bundle.ofSources (buffer : String) : List Source → Bundle
  | [] => ⟨[], .ok buffer⟩
  | ⟨input, .error cause⟩ :: _ => ⟨[], .error (.read input cause)⟩
  | ⟨input, .ok source⟩ :: sources =>
    let size := source.utf8ByteSize
    let scan := scan buffer.toList source.toList
    let seen := (scan.events source.toList).map (Note.scanned size)
    match scan.result source.toList with
    | .error failure => ⟨seen ++ [.failed size failure], .error (.minify input failure)⟩
    | .ok out =>
      let out := String.ofList out
      let written := out.utf8ByteSize - buffer.utf8ByteSize
      let later := ofSources out sources
      ⟨seen ++ [.minified size written, .finished input size written] ++ later.notes, later.result⟩

/-- What is left to do with a bundle. -/
inductive Delivery
  | print (text : String)
  | write (path : String) (text : String)
  | refuse (trouble : Trouble)
  deriving DecidableEq

/-- The result goes to the output path if there is one. Nothing is delivered after a trouble. -/
def Bundle.delivery (bundle : Bundle) (output : Option String) : Delivery :=
  match bundle.result, output with
  | .error trouble, _ => .refuse trouble
  | .ok text, none => .print text
  | .ok text, some path => .write path text

/-- All that a run does: what it can tell, what goes wrong, what it prints and the files it leaves. -/
structure Session where
  notes : List Note
  trouble : Option Trouble
  stdout : String
  files : FileMap

/-- Runs on the given inputs. -/
def Session.run (files : FileMap) (stdin : ByteArray) (inputs : List Input)
    (output : Option String) : Session :=
  let bundle := Bundle.ofSources "" (Source.ofInputs files stdin inputs)
  let notes := .collected inputs.length :: bundle.notes
  match bundle.delivery output with
  | .refuse trouble => ⟨notes, some trouble, "", files⟩
  | .print text => ⟨notes, none, text, files⟩
  | .write path text =>
    match files.write path text.toUTF8 with
    | .error cause => ⟨notes, some (.write path cause), "", files⟩
    | .ok written => ⟨notes, none, "", written⟩

end Elision.Cli
