namespace Elision.Cli

/-- Why a file cannot be read or written. -/
inductive FileError
  | notFound
  | isDirectory
  | notDirectory
  | notText
  deriving DecidableEq

def FileError.message : FileError → String
  | .notFound => "No such file or directory (os error 2)"
  | .isDirectory => "Is a directory (os error 21)"
  | .notDirectory => "Not a directory (os error 20)"
  | .notText => "stream did not contain valid UTF-8"

/-- The text that bytes spell. -/
def decodeText (content : ByteArray) : Except FileError String :=
  match String.fromUTF8? content with
  | some text => .ok text
  | none => .error .notText

/-- What stands at a place of the file tree. -/
inductive Entry
  | file (content : ByteArray)
  | directory

instance : DecidableEq Entry
  | .file content, .file other =>
    match ByteArray.decEq content other with
    | .isTrue same => .isTrue (congrArg Entry.file same)
    | .isFalse apart => .isFalse (fun same => apart (Entry.file.inj same))
  | .directory, .directory => .isTrue rfl
  | .file _, .directory | .directory, .file _ => .isFalse nofun

/-- A place below some directory, by the names that lead to it from there. -/
structure Place where
  names : List String
  deriving DecidableEq

namespace Place

def root : Place := ⟨[]⟩

/-- The place that a name leads to from a directory. Nothing is above the root. -/
def enter (place : Place) (name : String) : Place :=
  if name = "" || name = "." then place
  else if name = ".." then ⟨place.names.dropLast⟩
  else ⟨place.names ++ [name]⟩

/-- A directory holds itself and all that is reached through it by names. -/
def holds (directory place : Place) : Bool :=
  directory.names.isPrefixOf place.names

end Place

/-- The files and directories that are known, with their places below the root. A directory that holds
something need not be listed, and neither need the working directory. -/
structure FileMap where
  workingDirectory : Place
  entries : List (Place × Entry)
  deriving DecidableEq

namespace FileMap

/-- The names between the slashes of a path. -/
def names (path : String) : List String :=
  (path.toList.splitOn '/').map String.ofList

/-- Where a path starts: at the root if it begins with a slash. -/
def start (files : FileMap) (path : String) : Place :=
  if path.toList.head? = some '/' then .root else files.workingDirectory

/-- What stands at a place, if anything does. The way to the working directory is there in any case. -/
def lookup (files : FileMap) (place : Place) : Option Entry :=
  if place.holds files.workingDirectory then some .directory
  else
    match files.entries.find? (·.1 = place) with
    | some (_, entry) => some entry
    | none => if files.entries.any (place.holds ·.1) then some .directory else none

/-- The tree with the given entries, each under its path. The working directory is not the root, so that
a path can lead out of it. -/
def ofList (entries : List (String × Entry)) : FileMap :=
  let empty : FileMap := ⟨⟨["work"]⟩, []⟩
  { empty with entries := entries.map fun (path, entry) =>
      ((names path).foldl Place.enter (empty.start path), entry) }

/-- Follows names from a place. Each of them asks for a directory to look it up in, but the last may
lead nowhere. -/
def walk (files : FileMap) (place : Place) : List String → Except FileError Place
  | [] => .ok place
  | name :: names =>
    match files.lookup place with
    | none => .error .notFound
    | some (.file _) => .error .notDirectory
    | some .directory => files.walk (place.enter name) names

/-- The content of the file at a path. -/
def read (files : FileMap) (path : String) : Except FileError ByteArray :=
  match files.walk (files.start path) (names path) with
  | .error cause => .error cause
  | .ok place =>
    match files.lookup place with
    | none => .error .notFound
    | some .directory => .error .isDirectory
    | some (.file content) => .ok content

/-- The tree with a file at a place. -/
def put (files : FileMap) (place : Place) (content : ByteArray) : FileMap :=
  { files with entries := files.entries.filter (·.1 ≠ place) ++ [(place, .file content)] }

/-- Writes a file. A path that ends with a slash can only name a directory. -/
def write (files : FileMap) (path : String) (content : ByteArray) : Except FileError FileMap :=
  let steps := (names path).reverse.dropWhile (· = "") |>.reverse
  match files.walk (files.start path) steps with
  | .error cause => .error cause
  | .ok place =>
    if (names path).getLast? = some "" || files.lookup place = some .directory then
      .error .isDirectory
    else .ok (files.put place content)

/-- The files below the working directory that are new since `before` or hold something else than
then, with their places as seen from there. -/
def changesSince (after before : FileMap) : List (Place × ByteArray) :=
  after.entries.filterMap fun (place, entry) =>
    match entry with
    | .directory => none
    | .file content =>
      if !after.workingDirectory.holds place || before.lookup place = some (.file content) then none
      else some (⟨place.names.drop after.workingDirectory.names.length⟩, content)

end FileMap

end Elision.Cli
