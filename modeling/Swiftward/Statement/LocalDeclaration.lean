import Swiftward.SwiftType

/-!
# Local declarations

The statement `Type name` or `Type name = value`. With a value it becomes a constant, whose type is
left to be inferred, and without one a variable.
-/

namespace Swiftward

/-- The words that stand before a name and are no type. -/
def nonTypeWords : List String := ["return", "goto", "throw", "case", "typedef", "delete", "else"]

/-- The declaration of a local variable. -/
structure LocalDeclaration where
  indent : Text
  type : Text
  name : Text
  value : Option Text
  deriving DecidableEq, Repr

namespace LocalDeclaration

/-- Whether a character may stand between a type and a name. -/
def isSeparator (c : Char) : Bool := isSpace c || c == '*'

/-- Reads a local declaration. -/
def parse? (line : Text) : Option LocalDeclaration := do
  let (word, s) ← nextWord? (trimStart line)
  let separator := s.takeWhile isSeparator
  let (name, s) ← nextWord? (s.dropWhile isSeparator)
  if separator = [] ∨ nonTypeWords.any (·.toList = word) then none
  else
    let indent := line.takeWhile isSpace
    let type := if '*' ∈ separator then word ++ ['*'] else word
    match trimStart s with
    | [] => some ⟨indent, type, name, none⟩
    | '=' :: value =>
      if '\n' ∈ trimStart value then none else some ⟨indent, type, name, some (trim value)⟩
    | _ => none

/-- The declaration in Swift. -/
def render (d : LocalDeclaration) : Text :=
  match d.value with
  | some value => d.indent ++ "let ".toList ++ d.name ++ " = ".toList ++ value
  | none => d.indent ++ "var ".toList ++ d.name ++ ": ".toList ++ swiftType d.type

end LocalDeclaration

end Swiftward
