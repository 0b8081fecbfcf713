import Elision.Cli.Message
import Elision.Cli.Options
import Elision.Cli.Session

namespace Elision.Cli

/-- The target of messages about the run as a whole. -/
def runTarget : String := "jsm"

/-- The target of messages about one source text. -/
def textTarget : String := "jsmin_core::minify::engine"

/-- The span of the work on one source text. -/
def textSpan (size : Nat) : Span := ⟨textTarget, "minify_into", [("len", size)]⟩

def Event.message : Event → Message
  | .regexLiteral offset => ⟨textTarget, .trace, "regex literal", [("offset", toString offset)]⟩
  | .blockComment offset multiline =>
    ⟨textTarget, .trace, "elided block comment",
      [("offset", toString offset), ("multiline", toString multiline)]⟩

/-- What is shown of the messages of a run: the lines of each, told in a span or outside of any. -/
structure Log where
  line : Option Span → Message → List String

namespace Note

def message : Note → Message
  | .collected count => ⟨runTarget, .debug, "collected inputs", [("count", toString count)]⟩
  | .scanned _ event => Event.message event
  | .minified size written =>
    ⟨textTarget, .debug, "minified source",
      [("input", toString size), ("output", toString written)]⟩
  | .failed _ failure => ⟨textTarget, .debug, "minification failed", [("err", failure.message)]⟩
  | .finished input size written =>
    ⟨runTarget, .info, "minified",
      [("file", input.name), ("input_bytes", toString size), ("output_bytes", toString written)]⟩

/-- The span in which a note is made. -/
def span? : Note → Option Span
  | .scanned size _ | .minified size _ | .failed size _ => some (textSpan size)
  | .collected _ | .finished _ _ _ => none

/-- The line that tells how much smaller an input became. It is no message, so the log has no say. -/
def statsLine : Note → List String
  | .finished input size written =>
    [input.name ++ ": " ++ toString size ++ " -> " ++ toString written ++ " bytes"]
  | _ => []

/-- The lines that are shown for a note. -/
def lines (log : Log) (stats : Bool) (note : Note) : List String :=
  log.line note.span? note.message ++ if stats then note.statsLine else []

end Note

/-- What is left of a run for those who started it. -/
structure Outcome where
  code : Nat
  stdout : String
  stderr : List String
  files : FileMap

/-- Shows a session. -/
def Session.outcome (session : Session) (log : Log) (stats : Bool) : Outcome where
  code := if session.trouble.isSome then 1 else 0
  stdout := session.stdout
  stderr := session.notes.flatMap (Note.lines log stats) ++
    (session.trouble.map Trouble.report).getD []
  files := session.files

def versionText : String := "jsm 0.1.0\n"

def helpText : String :=
  String.join <| [
    "Strip comments and insignificant whitespace from JavaScript",
    "",
    "Usage: jsm [OPTIONS] [FILES]...",
    "",
    "Arguments:",
    "  [FILES]...  Input files, minified and concatenated in order (`-` or none: stdin)",
    "",
    "Options:",
    "  -o, --output <PATH>  Write the result to this file instead of stdout",
    "      --stats          Print input and output sizes for every file to stderr",
    "  -v, --verbose...     Increase log verbosity (-v info, -vv debug, -vvv trace)",
    "  -h, --help           Print help",
    "  -V, --version        Print version"].map (· ++ "\n")

/-- Answers a command line that asks for no run. -/
def Stop.outcome (stop : Stop) (files : FileMap) : Outcome :=
  match stop with
  | .help => ⟨0, helpText, [], files⟩
  | .version => ⟨0, versionText, [], files⟩
  | .usage error => ⟨2, "", ["error: " ++ error.message], files⟩

/-- Runs the command over a file tree. The log may depend on the number of verbose flags. -/
def executeUnder (logFor : Nat → Log) (files : FileMap) (stdin : ByteArray)
    (arguments : List String) : Outcome :=
  match Options.ofArguments arguments with
  | .error stop => stop.outcome files
  | .ok options =>
    (Session.run files stdin (Input.ofPaths options.files) options.output).outcome
      (logFor options.verbosity) options.stats

end Elision.Cli
