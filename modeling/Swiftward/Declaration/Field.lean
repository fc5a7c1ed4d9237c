import Swiftward.SwiftType

/-!
# Instance variables

A line `Type name;` of an instance variable list. The name is the word before the first semicolon
and the type is everything before the name, which white space or a `*` has to end.
-/

namespace Swiftward

/-- A text up to the word that it ends with, and that word, as long as possible. -/
def splitLastWord (s : Text) : Text × Text :=
  ((s.reverse.dropWhile isWord).reverse, (s.reverse.takeWhile isWord).reverse)

/-- An instance variable. -/
structure Field where
  type : Text
  name : Text
  deriving DecidableEq, Repr

/-- Reads an instance variable. -/
def Field.parse? (line : Text) : Option Field :=
  if ';' ∉ line then none
  else
    let declaration := trim (line.takeWhile (· ≠ ';'))
    let (type, name) := splitLastWord declaration
    if declaration.head?.any isWord ∧ name ≠ [] ∧ type.getLast?.any (fun c => isSpace c || c == '*')
    then some ⟨trim type, name⟩
    else none

/-- The variable in Swift. -/
def Field.render (field : Field) : Text :=
  "private var ".toList ++ field.name ++ ": ".toList ++ swiftType field.type

end Swiftward
