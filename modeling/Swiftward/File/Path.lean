import Swiftward.Text.Lines

/-!
# Paths

A path is a text in which slashes separate names. Repeated slashes, slashes at the end and single
dots do not tell paths apart, except for a single dot at the very start. The *file name* is the
last name, and its *extension* is what follows the last dot in it, unless that dot begins it.
-/

namespace Swiftward

/-- A part of a path. -/
inductive PathPart where
  | root
  | current
  | parent
  | name (text : Text)
  deriving DecidableEq, Repr

/-- What a piece between slashes stands for, unless it can be left out. -/
def PathPart.ofPiece? (piece : Text) : Option PathPart :=
  if piece = [] ∨ piece = ['.'] then none
  else if piece = ['.', '.'] then some parent
  else some (name piece)

/-- The parts of a path. Two paths with the same parts are equal as paths. -/
def pathParts (path : Text) : List PathPart :=
  match pieces '/' path with
  | [] :: next :: rest => .root :: (next :: rest).filterMap PathPart.ofPiece?
  | ['.'] :: rest => .current :: rest.filterMap PathPart.ofPiece?
  | ps => ps.filterMap PathPart.ofPiece?

/-- A path cut around its file name. -/
structure NamedPath where
  /-- The text before the name. -/
  lead : Text
  name : Text
  /-- Whether slashes or dots follow the name. -/
  hasTrail : Bool
  deriving DecidableEq, Repr

/-- The file name of a path, unless it ends in `..` or has no name at all. -/
def NamedPath.ofPath? (path : Text) : Option NamedPath :=
  let backwards := (pieces '/' path).reverse
  match backwards.dropWhile fun piece => piece = [] ∨ piece = ['.'] with
  | [] => none
  | name :: front =>
    if name = ['.', '.'] then none
    else some ⟨front.reverse.flatMap (· ++ ['/']), name, front.length + 1 ≠ backwards.length⟩

/-- The file name of a path. -/
def fileName? (path : Text) : Option Text := (NamedPath.ofPath? path).map (·.name)

/-- A file name cut around the last dot in it, if it has one that is not its first character. -/
def splitExtension? (name : Text) : Option (Text × Text) :=
  let backwards := name.reverse
  match (backwards.dropWhile (· ≠ '.')).drop 1 with
  | [] => none
  | stem => some (stem.reverse, (backwards.takeWhile (· ≠ '.')).reverse)

/-- The extension of a path, without its dot. -/
def extension? (path : Text) : Option Text := do
  let name ← fileName? path
  let (_, ext) ← splitExtension? name
  some ext

/-- A path with a name put behind it. -/
def joinPath (path name : Text) : Text :=
  if path = [] ∨ path.getLast? = some '/' then path ++ name else path ++ '/' :: name

end Swiftward
