namespace Elision.Cli

/-- How much is told, from nothing to everything. -/
inductive Level
  | off
  | error
  | warn
  | info
  | debug
  | trace
  deriving DecidableEq

namespace Level

def rank : Level → Nat
  | .off => 0
  | .error => 1
  | .warn => 2
  | .info => 3
  | .debug => 4
  | .trace => 5

/-- Whether a message of the level `other` is told at this level. -/
def includes (level other : Level) : Bool :=
  other.rank ≤ level.rank

/-- How a level is named at the head of a line. -/
def label : Level → String
  | .off => "OFF"
  | .error => "ERROR"
  | .warn => "WARN"
  | .info => "INFO"
  | .debug => "DEBUG"
  | .trace => "TRACE"

/-- The level that the number of verbose flags stands for. -/
def ofVerbosity : Nat → Level
  | 0 => .warn
  | 1 => .info
  | 2 => .debug
  | _ => .trace

end Level

/-- Something to tell. The target names the part of the program that tells it. -/
structure Message where
  target : String
  level : Level
  label : String
  fields : List (String × String)
  deriving DecidableEq

namespace Message

/-- The label and the fields in one line. -/
def text (message : Message) : String :=
  message.label ++ String.join (message.fields.map fun (name, value) => " " ++ name ++ "=" ++ value)

/-- The names that a filter can ask for. The label is a field of its own. -/
def fieldNames (message : Message) : List String :=
  "message" :: message.fields.map (·.1)

end Message

/-- A stretch of work during which messages are told. All spans are of the finest level. -/
structure Span where
  target : String
  name : String
  fields : List (String × Nat)
  deriving DecidableEq

/-- The span as it stands before the messages told in it. -/
def Span.text (span : Span) : String :=
  span.name ++ "\x7b" ++
    " ".intercalate (span.fields.map fun (name, value) => name ++ "=" ++ toString value) ++ "\x7d: "

end Elision.Cli
