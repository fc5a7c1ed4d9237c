import Swiftward.Text.Reading

/-!
# Ends of statements

Where a statement ends is judged by the line as it stands in the source, with its comment.
-/

namespace Swiftward

/-- Whether nothing but white space, or a comment on the same line, is left. -/
def isBlankOrComment (s : Text) : Bool :=
  match trimStart s with
  | [] => true
  | '/' :: '/' :: comment => '\n' ∉ comment
  | _ => false

/-- Whether a line ends a statement: nothing but a comment follows some semicolon. -/
def endsStatement : Text → Bool
  | [] => false
  | c :: s => (c == ';' && isBlankOrComment s) || endsStatement s

/-- Whether a line begins with `return self;`. -/
def isReturnSelf (line : Text) : Bool :=
  Option.isSome do
    let s ← after? "return" (trimStart line)
    let s ← afterSpace? s
    let s ← after? "self" s
    after? ";" (trimStart s)

end Swiftward
