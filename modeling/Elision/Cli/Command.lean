import Elision.Cli.LogFilter
import Elision.Cli.Outcome

namespace Elision.Cli

/-- The log of a run. The environment may hold the text of a filter for it. -/
def LogFilter.logFor (environment : Option String) (verbosity : Nat) : Log :=
  ⟨(LogFilter.choose environment verbosity).line⟩

/-- Runs the command over a file tree with the log that is asked for. -/
def execute (files : FileMap) (stdin : ByteArray) (arguments : List String)
    (environment : Option String) : Outcome :=
  executeUnder (LogFilter.logFor environment) files stdin arguments

end Elision.Cli
