namespace Elision.Cli

/-- What the command line asks for, once it is understood. -/
structure Options where
  files : List String
  output : Option String
  stats : Bool
  verbosity : Nat
  deriving DecidableEq

/-- Nothing asked for: read the standard input and write to the standard output. -/
def Options.empty : Options := ⟨[], none, false, 0⟩

/-- The settings that take no value. -/
inductive Flag
  | stats
  | verbose
  | help
  | version
  deriving DecidableEq

/-- The things that an argument can set. -/
inductive Setting
  | files
  | output
  | flag (flag : Flag)
  deriving DecidableEq

/-- How a setting is named to the user. -/
def Setting.usage : Setting → String
  | .files => "[FILES]..."
  | .output => "--output <PATH>"
  | .flag .stats => "--stats"
  | .flag .verbose => "--verbose..."
  | .flag .help => "--help"
  | .flag .version => "--version"

/-- Why a command line is refused. -/
inductive UsageError
  | unexpectedArgument (argument : String)
  | missingValue (setting : Setting)
  | repeated (setting : Setting)
  | unexpectedValue (value : String) (setting : Setting)
  deriving DecidableEq

def UsageError.message : UsageError → String
  | .unexpectedArgument argument => "unexpected argument '" ++ argument ++ "' found"
  | .missingValue setting =>
    "a value is required for '" ++ setting.usage ++ "' but none was supplied"
  | .repeated setting => "the argument '" ++ setting.usage ++ "' cannot be used multiple times"
  | .unexpectedValue value setting =>
    "unexpected value '" ++ value ++ "' for '" ++ setting.usage ++ "' found; no more were expected"

/-- Why the reading of a command line stops before its end. -/
inductive Stop
  | help
  | version
  | usage (error : UsageError)
  deriving DecidableEq

/-- A value or a run of files that is read but not yet checked. Checking waits for the next known
setting, so an unknown one is reported before it. -/
inductive Pending
  | nothing
  | files (paths : List String)
  | output (path : Option String)
  deriving DecidableEq

/-- The state between two arguments. -/
structure Reading where
  options : Options
  pending : Pending
  deriving DecidableEq

/-- Sets the output path, which can be given once and must not be empty. -/
def Options.setOutput (options : Options) (path : String) : Except Stop Options :=
  if options.output ≠ none then .error (.usage (.repeated .output))
  else if path = "" then .error (.usage (.missingValue .output))
  else .ok { options with output := some path }

/-- Raises a flag. Only the verbose flag can be raised again. -/
def Options.raise (options : Options) : Flag → Except Stop Options
  | .stats =>
    if options.stats then .error (.usage (.repeated (.flag .stats)))
    else .ok { options with stats := true }
  | .verbose => .ok { options with verbosity := options.verbosity + 1 }
  | .help => .error .help
  | .version => .error .version

namespace Reading

def start : Reading := ⟨.empty, .nothing⟩

/-- Checks what is pending. -/
def settle (reading : Reading) : Except Stop Options :=
  match reading.pending with
  | .nothing => .ok reading.options
  | .files paths =>
    if "" ∈ paths then .error (.usage (.missingValue .files))
    else .ok { reading.options with files := reading.options.files ++ paths }
  | .output none => .error (.usage (.missingValue .output))
  | .output (some path) => reading.options.setOutput path

/-- Reads a flag. -/
def flag (reading : Reading) (flag : Flag) : Except Stop Reading := do
  return ⟨← (← reading.settle).raise flag, .nothing⟩

/-- Reads the output setting with its value, or without one: then the next argument is its value. -/
def output (reading : Reading) : Option String → Except Stop Reading
  | none => do return ⟨← reading.settle, .output none⟩
  | some path => do return ⟨← (← reading.settle).setOutput path, .nothing⟩

/-- Reads the letters behind one dash. What follows the letter of the output setting is its value,
which may stand behind an equals sign. -/
def shorts (reading : Reading) : List Char → Except Stop Reading
  | [] => .ok reading
  | c :: cs =>
    if c = 'o' then
      match cs with
      | [] => reading.output none
      | '=' :: path => reading.output (some (String.ofList path))
      | path => reading.output (some (String.ofList path))
    else
      match c with
      | 'v' => do (← reading.flag .verbose).shorts cs
      | 'h' => do (← reading.flag .help).shorts cs
      | 'V' => do (← reading.flag .version).shorts cs
      | _ => .error (.usage (.unexpectedArgument (String.ofList ['-', c])))

/-- The setting of a long name. -/
def longSetting : String → Option Setting
  | "output" => some .output
  | "stats" => some (.flag .stats)
  | "verbose" => some (.flag .verbose)
  | "help" => some (.flag .help)
  | "version" => some (.flag .version)
  | _ => none

/-- Reads a name behind two dashes, with the value behind its equals sign if there is one. -/
def long (reading : Reading) (name : String) (value : Option String) : Except Stop Reading :=
  match longSetting name with
  | some .output => reading.output value
  | some (.flag flag) =>
    match value with
    | none => reading.flag flag
    | some value => .error (.usage (.unexpectedValue value (.flag flag)))
  | _ => .error (.usage (.unexpectedArgument ("--" ++ name)))

/-- Reads the path of an input. -/
def file (reading : Reading) (path : String) : Except Stop Reading :=
  match reading.pending with
  | .files paths => .ok { reading with pending := .files (paths ++ [path]) }
  | _ => do return ⟨← reading.settle, .files [path]⟩

/-- Reads an argument that is not an option: the value that the output setting waits for, or the
path of an input. A single dash is such an argument. -/
def value (reading : Reading) (text : String) : Except Stop Reading :=
  match reading.pending with
  | .output none => .ok { reading with pending := .output (some text) }
  | _ => reading.file text

/-- Reads one argument. -/
def argument (reading : Reading) (text : String) : Except Stop Reading :=
  match text.toList with
  | '-' :: '-' :: long =>
    let name := String.ofList (long.takeWhile (· ≠ '='))
    match long.dropWhile (· ≠ '=') with
    | [] => reading.long name none
    | _ :: value => reading.long name (some (String.ofList value))
  | '-' :: c :: cs => reading.shorts (c :: cs)
  | _ => reading.value text

/-- Reads the arguments to their end. Behind two dashes every argument is the path of an input. -/
def arguments (reading : Reading) : List String → Except Stop Options
  | [] => reading.settle
  | text :: rest =>
    if text = "--" then do (← rest.foldlM file reading).settle
    else do (← reading.argument text).arguments rest

end Reading

/-- Understands a command line. The first request for help or for the version, or the first mistake,
decides. -/
def Options.ofArguments (arguments : List String) : Except Stop Options :=
  Reading.start.arguments arguments

end Elision.Cli
