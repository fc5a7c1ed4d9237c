import Swiftward.Text.Reading

/-!
# Delegation of initializers

The line `self = [super initWith…]` of an initializer becomes a plain call `super.init(…)`.
-/

namespace Swiftward

/-- The indentation and the right-hand side of an assignment to `self`. -/
def selfAssignment? (line : Text) : Option (Text × Text) := do
  let s ← after? "self" (trimStart line)
  let s ← after? "=" (trimStart s)
  some (line.takeWhile isSpace, trimStart s)

/-- Whether a line assigns a message send to `self`. -/
def isSelfDelegation (line : Text) : Bool :=
  (selfAssignment? line).any fun (_, value) => value.head? = some '['

/-- A call of `super` or `self` made a call of its initializer. -/
def nameInitializer (call : Text) : Text :=
  match after? "super(" call, after? "self(" call with
  | some arguments, _ => "super.init(".toList ++ arguments
  | none, some arguments => "self.init(".toList ++ arguments
  | none, none => call

/-- An assignment to `self`, its sends converted, without the assignment. Not so if a bracket is
left, as an unresolved send may be. -/
def dropSelfAssignment? (line : Text) : Option Text := do
  let (indent, value) ← selfAssignment? line
  if '\n' ∈ value ∨ '[' ∈ value then none
  else some (indent ++ nameInitializer (trimEnd value))

end Swiftward
