import Swiftward.Conversion.Stream
import Swiftward.File.FileSystem
import Swiftward.File.Target

/-!
# Converting files

A source is read as a whole and converted to lines of Swift, which may be written to its target.
Anything that goes wrong with a file is told with its path.
-/

namespace Swiftward

/-- Why a file could not be converted. -/
inductive FileError where
  /-- The path does not name an Objective-C source. -/
  | unsupported (path : Text)
  | unreadable (path : Text) (fault : Fault)
  /-- Several sources have the same target. -/
  | clash (group : TargetGroup)
  | unwritable (path : Text) (fault : Fault)
  deriving DecidableEq, Repr

namespace FileError

/-- The wording of an error. -/
def message : FileError → Text
  | unsupported path => "Not an Objective-C source file: ".toList ++ path
  | unreadable path fault => "Failed to read ".toList ++ path ++ ": ".toList ++ fault.message
  | clash group =>
    group.target ++ " would be written from several inputs: ".toList ++
      ", ".toList.intercalate group.sources
  | unwritable path fault => "Failed to write ".toList ++ path ++ ": ".toList ++ fault.message

/-- The fault of the file system behind an error. -/
def cause? : FileError → Option Fault
  | unreadable _ fault => some fault
  | unwritable _ fault => some fault
  | _ => none

/-- The wording of an error with its cause behind it. -/
def messageWithCause (error : FileError) : Text :=
  match error.cause? with
  | some fault => error.message ++ ": ".toList ++ fault.message
  | none => error.message

end FileError

/-- The Swift lines for a source. -/
structure ConvertedFile where
  path : Text
  lines : List OutputLine
  deriving DecidableEq, Repr

namespace ConvertedFile

/-- The lines for a source with the given content. -/
def ofText (width : Nat) (path content : Text) : ConvertedFile :=
  ⟨path, convertLines width (Swiftward.lines content)⟩

/-- The Swift text. -/
def text (file : ConvertedFile) : Text := outputText file.lines

end ConvertedFile

variable {m : Type → Type} [Monad m] [FileSystem m]

/-- The text of a file. -/
def readText (path : Text) : m (Except Fault Text) := do
  match ← FileSystem.read path with
  | .error fault => return .error fault
  | .ok bytes =>
    match decodeText? bytes with
    | some text => return .ok text
    | none => return .error .notText

/-- Converts the source at a path. -/
def convertFile (width : Nat) (path : Text) : m (Except FileError ConvertedFile) := do
  if !isSource path then return .error (.unsupported path)
  else match ← readText path with
    | .error fault => return .error (.unreadable path fault)
    | .ok content => return .ok (.ofText width path content)

/-- Writes the Swift text to the target of a source, and gives the path of that target. -/
def writeTarget (file : ConvertedFile) : m (Except FileError Text) := do
  let target := swiftPath file.path
  match ← FileSystem.write target (encodeText file.text) with
  | .ok () => return .ok target
  | .error fault => return .error (.unwritable target fault)

end Swiftward
