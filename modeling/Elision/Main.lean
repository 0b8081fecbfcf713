import Elision.Cli.Command

namespace Elision.Cli

/-- Turns the failures that a run can report into its own words. Others end the program. -/
def catchFileError {α : Type} (action : IO α) : IO (Except FileError α) := do
  try
    return .ok (← action)
  catch
    | .noFileOrDirectory .. => return .error .notFound
    | .inappropriateType _ code _ =>
      return .error (if code = 20 || code + 20 = 0 then .notDirectory else .isDirectory)
    | other => throw other

/-- Reads a stream to its end. -/
partial def readToEnd (stream : IO.FS.Stream) (content : ByteArray) : IO ByteArray := do
  let chunk ← stream.read 65536
  if chunk.isEmpty then return content else readToEnd stream (content ++ chunk)

def readInput (input : Input) : IO Source := do
  let content ← match input with
    | .stdin => catchFileError (do readToEnd (← IO.getStdin) .empty)
    | .file path => catchFileError (IO.FS.readBinFile path)
  return ⟨input, content.bind decodeText⟩

/-- Prints what is left of a run. -/
def present (outcome : Outcome) : IO UInt32 := do
  let stderr ← IO.getStderr
  for line in outcome.stderr do
    stderr.putStrLn line
  let stdout ← IO.getStdout
  stdout.putStr outcome.stdout
  stdout.flush
  return UInt32.ofNat outcome.code

/-- Runs on the files of the machine. -/
def runOptions (options : Options) (log : Log) : IO UInt32 := do
  let inputs := Input.ofPaths options.files
  let bundle := Bundle.ofSources "" (← inputs.mapM readInput)
  let notes := .collected inputs.length :: bundle.notes
  let session (trouble : Option Trouble) (stdout : String) : Session :=
    ⟨notes, trouble, stdout, .ofList []⟩
  let finished ← match bundle.delivery options.output with
    | .refuse trouble => pure (session (some trouble) "")
    | .print text => pure (session none text)
    | .write path text => do
      match ← catchFileError (IO.FS.writeBinFile path text.toUTF8) with
      | .ok () => pure (session none "")
      | .error cause => pure (session (some (.write path cause)) "")
  present (finished.outcome log options.stats)

/-- Runs the command line of the minifier. -/
def command (arguments : List String) : IO UInt32 := do
  match Options.ofArguments arguments with
  | .error stop => present (stop.outcome (.ofList []))
  | .ok options => runOptions options (LogFilter.logFor (← IO.getEnv "JSM_LOG") options.verbosity)

end Elision.Cli

def main (arguments : List String) : IO UInt32 :=
  Elision.Cli.command arguments
