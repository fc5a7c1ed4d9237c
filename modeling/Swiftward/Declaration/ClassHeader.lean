import Swiftward.Text.Reading

/-!
# Class headers

The lines that open and close an `@interface` or an `@implementation`, and the property
declarations between them that have no counterpart.
-/

namespace Swiftward

/-- A category in parentheses, whose name may be empty, and the rest. -/
def category? (s : Text) : Option (Text × Text) := do
  let s ← after? "(" (trimStart s)
  let rest ← after? ")" (s.dropWhile isWord)
  some (s.takeWhile isWord, rest)

/-- The line `@interface Name`, `@interface Name : Super` or `@interface Name (Category)`. -/
structure InterfaceHeader where
  name : Text
  supertype : Option Text
  category : Option Text
  deriving DecidableEq, Repr

/-- The supertype behind a colon. -/
def supertype? (s : Text) : Option Text := do
  let s ← after? ":" (trimStart s)
  let (name, _) ← nextWord? (trimStart s)
  some name

/-- Reads an `@interface` line. -/
def InterfaceHeader.parse? (line : Text) : Option InterfaceHeader := do
  let s ← after? "@interface" line
  let s ← afterSpace? s
  let (name, s) ← nextWord? s
  some ⟨name, supertype? s, (category? s).map (·.1)⟩

/-- The line `@implementation Name`, possibly with a category, and whether it opens the list of
instance variables. -/
structure ImplementationHeader where
  name : Text
  category : Option Text
  opensFields : Bool
  deriving DecidableEq, Repr

/-- Reads an `@implementation` line. -/
def ImplementationHeader.parse? (line : Text) : Option ImplementationHeader := do
  let s ← after? "@implementation" line
  let s ← afterSpace? s
  let (name, s) ← nextWord? s
  let (category, s) := match category? s with
    | some (category, rest) => (some category, rest)
    | none => (none, s)
  some ⟨name, category, (trimStart s).head? = some '\x7b'⟩

/-- The class, or for a category the extension, that the line opens. -/
def ImplementationHeader.render (header : ImplementationHeader) : Text :=
  let declarator := match header.category with
    | some _ => "extension "
    | none => "class "
  declarator.toList ++ header.name ++ " \x7b".toList

/-- Whether a line is `@end`. -/
def isBlockEnd (line : Text) : Bool := (after? "@end" line).any wordEnds

/-- Whether a line begins a `@synthesize` or `@dynamic` declaration. -/
def isSynthesize (line : Text) : Bool :=
  (after? "@synthesize" line).any wordEnds || (after? "@dynamic" line).any wordEnds

end Swiftward
