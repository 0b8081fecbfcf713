import Elision.Cli.Directive

namespace Elision.Cli

/-- Which messages are told. -/
structure LogFilter where
  directives : List Directive
  deriving DecidableEq

namespace LogFilter

/-- Directives stand between commas. One that cannot be understood spoils the whole text. -/
def ofText? (text : String) : Option LogFilter :=
  (((text.splitOn ",").filter (· ≠ "")).mapM fun part => Directive.ofText? part.toList).map (⟨·⟩)

/-- The directives that no later one replaces. -/
def latest : List Directive → List Directive
  | [] => []
  | directive :: later =>
    if later.any directive.speaksAs then latest later else directive :: latest later

def current (filter : LogFilter) : List Directive :=
  latest filter.directives

/-- The sharper of two directives. -/
def sharper (best : Option Directive) (directive : Directive) : Option Directive :=
  match best with
  | none => some directive
  | some other => if directive.isSharp other then some directive else some other

/-- The level that the sharpest static directive sets for what it `covers`. What no directive speaks
of is not told. -/
def staticLevel (filter : LogFilter) (covers : Directive → Bool) : Level :=
  match (filter.current.filter fun directive => directive.isStatic && covers directive).foldl
      sharper none with
  | some directive => directive.level
  | none => .off

/-- Whether spans are looked at. They are when everything is told of something, also of what a later
directive speaks of again, or when a directive asks for a value. -/
def looksAtSpans (filter : LogFilter) : Bool :=
  filter.directives.any fun directive => directive.level = .trace || directive.testsValue

/-- Whether a span is noticed. A static directive that asks for a field speaks of every span. -/
def opens (filter : LogFilter) (span : Span) : Bool :=
  filter.looksAtSpans &&
    ((filter.current.any fun directive => directive.isDynamic && directive.coversSpan span) ||
      (filter.staticLevel (·.coversTarget span.target)).includes .trace)

/-- Whether a dynamic directive asks for messages of a level in a span. -/
def asksIn (filter : LogFilter) (span : Span) (level : Level) : Bool :=
  filter.opens span && filter.current.any fun directive =>
    directive.isDynamic && directive.fitsSpan span && directive.level.includes level

/-- Whether a message is told, in a span or outside of any. -/
def shows (filter : LogFilter) (span : Option Span) (message : Message) : Bool :=
  (span.any fun span => filter.asksIn span message.level) ||
    (filter.staticLevel (·.coversMessage message)).includes message.level

/-- The line of a message, if it is told. It names the span if that is noticed. -/
def line (filter : LogFilter) (span : Option Span) (message : Message) : List String :=
  if filter.shows span message then
    let place := ((span.filter filter.opens).map Span.text).getD ""
    [message.level.label ++ " " ++ place ++ message.text]
  else []

/-- The filter of a run. The environment's text wins over the number of verbose flags if it can be
understood. -/
def choose (environment : Option String) (verbosity : Nat) : LogFilter :=
  (environment.bind ofText?).getD ⟨[⟨none, none, none, .ofVerbosity verbosity⟩]⟩

end LogFilter

end Elision.Cli
