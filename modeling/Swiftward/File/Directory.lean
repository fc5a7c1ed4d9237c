import Swiftward.File.FileSystem
import Swiftward.Text.Lines

/-!
# Directory trees

A file system held in memory. It is a table from locations to files and directories, where a
location is the list of names that lead to it from the working directory. A path is followed name
by name, and everything it passes through has to be a directory. Above the working directory there
are only directories, of which nothing else is known.

Links, permissions and absolute paths are left out: two locations never hold the same file, every
file can be read and written, and a path that begins with a slash is followed from the working
directory like any other.
-/

namespace Swiftward

/-- What is found at a location. -/
inductive Entry where
  | file (content : ByteArray)
  | directory

/-- Whether a directory is found. -/
def Entry.isDirectory : Entry → Bool
  | file _ => false
  | directory => true

/-- The names that lead from the working directory to a place. -/
abbrev Location := List Text

/-- Whether a location is the working directory or above it. -/
def Location.isAbove (place : Location) : Bool := place.all (· = ['.', '.'])

/-- A directory tree. -/
structure Directory where
  table : List (Location × Entry)

namespace Directory

/-- The tree without files. -/
def empty : Directory := ⟨[]⟩

/-- What is found at a location. -/
def find? (d : Directory) (place : Location) : Option Entry :=
  if place.isAbove then some .directory else (d.table.find? (·.1 = place)).map (·.2)

/-- The tree with an entry at a location, in place of the one that was there. -/
def set (d : Directory) (place : Location) (entry : Entry) : Directory :=
  ⟨d.table.filter (·.1 ≠ place) ++ [(place, entry)]⟩

/-- Passes through a location, which has to be a directory. -/
def enter (d : Directory) (place : Location) : Except Fault Location :=
  match d.find? place with
  | some .directory => .ok place
  | some (.file _) => .error .notDirectory
  | none => .error .notFound

/-- Follows one piece of a path from a location. -/
def follow (d : Directory) (place : Location) (piece : Text) : Except Fault Location := do
  let here ← d.enter place
  return if piece = [] ∨ piece = ['.'] then here
    else if piece = ['.', '.'] ∧ !here.isAbove then here.dropLast
    else here ++ [piece]

/-- The location that a path leads to. There need not be anything at it, but at every location on
the way. -/
def resolve (d : Directory) (path : Text) : Except Fault Location :=
  if path = [] then .error .notFound else (pieces '/' path).foldlM d.follow []

/-- What a path leads to. -/
def lookUp? (d : Directory) (path : Text) : Option Entry :=
  match d.resolve path with
  | .ok place => d.find? place
  | .error _ => none

/-- The content of the file at a path. -/
def read (d : Directory) (path : Text) : Except Fault ByteArray := do
  match d.find? (← d.resolve path) with
  | some (.file content) => .ok content
  | some .directory => .error .isDirectory
  | none => .error .notFound

/-- The tree with a content for the file at a path. -/
def write (d : Directory) (path : Text) (content : ByteArray) : Except Fault Directory := do
  let place ← d.resolve path
  if (d.find? place).any Entry.isDirectory then .error .isDirectory
  else .ok (d.set place (.file content))

/-- The names in the directory at a path. -/
def entries (d : Directory) (path : Text) : List Text :=
  match d.resolve path with
  | .error _ => []
  | .ok place => d.table.filterMap fun (inside, _) =>
    if inside.dropLast = place ∧ inside ≠ [] then inside.getLast? else none

/-- The tree with all directories on the way to a location. -/
def withParents (d : Directory) (place : Location) : Directory :=
  (List.range place.length).foldl
    (fun d n => if (d.find? (place.take n)).isSome then d else d.set (place.take n) .directory) d

/-- The tree with one more file, or with one more directory if the path ends with a slash. -/
def add (d : Directory) (path : Text) (content : ByteArray) : Directory :=
  let place := (pieces '/' path).filter (· ≠ [])
  let d := d.withParents place
  if path.getLast? = some '/' then d.set place .directory else d.set place (.file content)

/-- The files below the working directory, each with its path. -/
def files (d : Directory) : List (Text × ByteArray) :=
  d.table.filterMap fun (place, entry) =>
    match entry with
    | .file content =>
      if place.head? = some ['.', '.'] then none else some (['/'].intercalate place, content)
    | .directory => none

end Directory

/-- A directory tree as state. -/
instance : FileSystem (StateM Directory) where
  read path := do return (← get).read path
  write path content := do
    match (← get).write path content with
    | .ok d => set d; return .ok ()
    | .error fault => return .error fault
  isPresent path := do return ((← get).lookUp? path).isSome
  isDirectory path := do return ((← get).lookUp? path).any Entry.isDirectory
  isFile path := do return ((← get).lookUp? path).any (!Entry.isDirectory ·)
  entries path := do return (← get).entries path

end Swiftward
