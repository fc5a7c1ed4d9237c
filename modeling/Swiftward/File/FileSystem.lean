import Swiftward.Text.Symbol

/-!
# File systems

What the program needs of a file system. Files hold bytes, texts are kept in UTF-8, and every
operation that fails tells why.
-/

namespace Swiftward

/-- Why a file could not be read or written. -/
inductive Fault where
  | notFound
  | notDirectory
  | isDirectory
  | notText
  | other (description : Text)
  deriving DecidableEq, Repr

/-- The wording of a fault. -/
def Fault.message : Fault → Text
  | notFound => "No such file or directory (os error 2)".toList
  | notDirectory => "Not a directory (os error 20)".toList
  | isDirectory => "Is a directory (os error 21)".toList
  | notText => "stream did not contain valid UTF-8".toList
  | other description => description

/-- The text that bytes hold. -/
def decodeText? (bytes : ByteArray) : Option Text := bytes.utf8Decode?.map Array.toList

/-- The bytes of a text. -/
def encodeText (text : Text) : ByteArray := (String.ofList text).toByteArray

theorem decodeText?_encodeText (text : Text) : decodeText? (encodeText text) = some text := by
  simp [decodeText?, encodeText]

/-- A monad in which files can be read, written and listed. -/
class FileSystem (m : Type → Type) where
  /-- The content of a file. -/
  read : Text → m (Except Fault ByteArray)
  /-- Replaces the content of a file, or makes a new one. -/
  write : Text → ByteArray → m (Except Fault Unit)
  /-- Whether there is anything at a path. -/
  isPresent : Text → m Bool
  /-- Whether there is a directory at a path. -/
  isDirectory : Text → m Bool
  /-- Whether there is a file at a path. -/
  isFile : Text → m Bool
  /-- The names in a directory, in any order. -/
  entries : Text → m (List Text)

end Swiftward
