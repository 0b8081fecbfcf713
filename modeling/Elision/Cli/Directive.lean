import Elision.Cli.Message
import Elision.Text.Alphanumeric
import Elision.Text.Blank
import Elision.Text.Bytes
import Elision.Text.Pattern

namespace Elision.Cli

/-- The number that a text spells in decimal digits, perhaps behind a plus sign. -/
def decimal? (text : List Char) : Option Nat :=
  let digits := if text.head? = some '+' then text.tail else text
  if digits ≠ [] && digits.all Char.isDigit then
    some (digits.foldl (fun number c => 10 * number + (c.toNat - '0'.toNat)) 0)
  else none

/-- A level is written as its name in any case, or as its rank. -/
def Level.ofText? (text : List Char) : Option Level :=
  match decimal? text with
  | some 0 => some .off
  | some 1 => some .error
  | some 2 => some .warn
  | some 3 => some .info
  | some 4 => some .debug
  | some 5 => some .trace
  | some _ => none
  | none =>
    match String.ofList (text.map Char.toLower) with
    | "off" => some .off
    | "error" => some .error
    | "warn" => some .warn
    | "info" => some .info
    | "debug" => some .debug
    | "trace" => some .trace
    | _ => none

/-- What is asked of a field: that it is there, that it is this number, or that it fits a pattern.
Patterns are for text, and no number fits one. -/
inductive FieldTest
  | present
  | number (value : Nat)
  | pattern
  deriving DecidableEq

/-- A field that a directive asks for. -/
structure FieldFilter where
  name : String
  test : FieldTest
  deriving DecidableEq

/-- A name, perhaps with a value behind an equals sign. What follows a second equals sign is
ignored. -/
def FieldFilter.ofText? (text : List Char) : Option FieldFilter :=
  let name := String.ofList (text.takeWhile (· ≠ '='))
  match text.dropWhile (· ≠ '=') with
  | [] => some ⟨name, .present⟩
  | _ :: behind =>
    let value := behind.takeWhile (· ≠ '=')
    match decimal? value with
    | some number => some ⟨name, .number number⟩
    | none => if isPattern value then some ⟨name, .pattern⟩ else none

/-- Sets a level for what comes from a target whose name starts so, is told in the span of that name
or has that field. -/
structure Directive where
  target : Option String
  span : Option String
  field : Option FieldFilter
  level : Level
  deriving DecidableEq

/-- The parts of a directive by the bytes at which they begin and end. -/
structure DirectiveParts where
  target : Option (Nat × Nat)
  span : Option (Nat × Nat)
  field : Option (Nat × Nat)
  /-- Where the level begins. It goes on to the end. -/
  level : Option Nat
  deriving DecidableEq

namespace DirectiveParts

/-- Reads what may follow a bracket that was closed before `start`: nothing, or a level. -/
def afterBracket? (parts : DirectiveParts) (start : Nat) : List Char → Option DirectiveParts
  | [] => some parts
  | c :: _ => if c = '=' then some { parts with level := some (start + 1) } else none

/-- Reads what follows an opening bracket that ends at `start`: the name of a span, and in braces a
field. -/
def inBracket? (target : Option (Nat × Nat)) (start : Nat) (text : List Char) :
    Option DirectiveParts :=
  let name := text.takeWhile fun c => c ≠ ']' && c ≠ leftBrace
  let stop := start + byteLength name
  match text.drop name.length with
  | [] => none
  | c :: behind =>
    if c = ']' then afterBracket? ⟨target, some (start, stop), none, none⟩ (stop + 1) behind
    else
      let field := behind.takeWhile (· ≠ rightBrace)
      let last := stop + 1 + byteLength field
      let span := if name = [] then none else some (start, stop)
      match field, behind.drop field.length with
      | _ :: _, _ :: ']' :: behind =>
        afterBracket? ⟨target, span, some (stop + 1, last), none⟩ (last + 2) behind
      | _, _ => none

/-- Takes a directive apart. It begins with a bracket or with a letter, a number or one of three
marks. `none` if it is no directive. -/
def ofText? (text : List Char) : Option DirectiveParts :=
  match text with
  | [] => none
  | c :: behind =>
    if c = '[' then inBracket? none 1 behind
    else if !(isAlphanumeric c || c ∈ ['-', ':', '_']) then none
    else
      let word := text.takeWhile fun c => c ≠ '=' && c ≠ '['
      let stop := byteLength word
      match text.drop word.length with
      | [] => some ⟨none, none, none, none⟩
      | c :: behind =>
        if c = '[' then inBracket? (some (0, stop)) (stop + 1) behind
        else some ⟨some (0, stop), none, none, some (stop + 1)⟩

end DirectiveParts

namespace Directive

/-- The part of a text between two bytes. -/
def cut? (text : List Char) (ends : Nat × Nat) : Option (List Char) :=
  (dropBytes? ends.1 text).bind (takeBytes? (ends.2 - ends.1))

/-- A part of a text that may be missing, where `none` stands for a part that cannot be cut out. -/
def part? {α : Type} (text : List Char) (read : List Char → Option α) :
    Option (Nat × Nat) → Option (Option α)
  | none => some none
  | some ends => ((cut? text ends).bind read).map some

/-- The level at the end of a text. No level asks for everything. -/
def levelFrom? (text : List Char) (start : Nat) : Option Level :=
  match dropBytes? start text with
  | none => none
  | some [] => some .trace
  | some level => Level.ofText? level

/-- Reads a directive. Blanks around it count for little: its parts are told by their places in the
text without blanks, but cut out of the text with them. A word by itself is a level if it can be
one, and otherwise a target of which everything is told. -/
def ofText? (text : List Char) : Option Directive := do
  let parts ← DirectiveParts.ofText? (trimBlanks text)
  let target ← part? text (fun name => some (String.ofList name)) parts.target
  let span ← part? text (fun name => some (String.ofList name)) parts.span
  let field ← part? text FieldFilter.ofText? parts.field
  match target, span, field, parts.level with
  | none, none, none, none =>
    match Level.ofText? text with
    | some level => return ⟨none, none, none, level⟩
    | none => return ⟨some (String.ofList text), none, none, .trace⟩
  | target, span, field, none => return ⟨target, span, field, .trace⟩
  | target, span, field, some start => return ⟨target, span, field, ← levelFrom? text start⟩

/-- Whether two directives speak of the same, so that the later replaces the earlier. -/
def speaksAs (directive other : Directive) : Bool :=
  directive.target = other.target && directive.span = other.span && directive.field = other.field

/-- Whether the directive speaks of messages by themselves, wherever they are told. -/
def isStatic (directive : Directive) : Bool :=
  directive.span = none && directive.field.all (·.test = .present)

/-- Whether the directive speaks of what is told in certain spans. -/
def isDynamic (directive : Directive) : Bool :=
  directive.span.isSome || directive.field.isSome

/-- Whether the directive asks for the value of a field. -/
def testsValue (directive : Directive) : Bool :=
  directive.field.any (·.test ≠ .present)

/-- Whether the directive speaks of a target. -/
def coversTarget (directive : Directive) (target : String) : Bool :=
  directive.target.all fun scope => target.startsWith scope

/-- Whether the directive speaks of a message. -/
def coversMessage (directive : Directive) (message : Message) : Bool :=
  directive.coversTarget message.target &&
    directive.field.all fun field => field.name ∈ message.fieldNames

/-- Whether the directive speaks of what is told in a span, whatever the values of its fields. -/
def coversSpan (directive : Directive) (span : Span) : Bool :=
  directive.coversTarget span.target && directive.span.all (· = span.name) &&
    directive.field.all fun field => span.fields.any (·.1 = field.name)

/-- Whether a span has the value that the directive asks for. -/
def fitsSpan (directive : Directive) (span : Span) : Bool :=
  directive.coversSpan span &&
    directive.field.all fun field =>
      match field.test with
      | .present => true
      | .number value => (field.name, value) ∈ span.fields
      | .pattern => false

/-- Whether the directive is at least as sharp as another one: it has the longer target or, with
equally long ones, asks for a field, and for one that comes later in the alphabet. -/
def isSharp (directive other : Directive) : Bool :=
  let size := (directive.target.map String.utf8ByteSize).getD 0
  let otherSize := (other.target.map String.utf8ByteSize).getD 0
  otherSize < size ||
    (otherSize = size &&
      (other.field.map (·.name)).getD "" ≤ (directive.field.map (·.name)).getD "")

end Directive

end Elision.Cli
