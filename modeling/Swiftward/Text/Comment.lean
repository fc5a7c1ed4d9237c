import Swiftward.Text.Quoting
import Swiftward.Text.Trim

/-!
# Comments

A line is its code and a trailing comment. The comment begins at the first `//` outside a literal
and keeps the white space before it, so the two always make up the line.
-/

namespace Swiftward

/-- A text read in state `q`, cut before the first `//` outside a literal. -/
def cutAtSlashes (q : Quoting) : Text → Option (Text × Text)
  | [] => none
  | c :: s =>
    if q = .code ∧ c = '/' ∧ s.head? = some '/' then some ([], c :: s)
    else (cutAtSlashes (q.stepChar c) s).map fun (front, back) => (c :: front, back)

/-- The code of a line and its trailing comment, with the white space between them. -/
def splitComment (line : Text) : Text × Text :=
  match cutAtSlashes .code line with
  | none => (line, [])
  | some (front, _) =>
    let code := trimEnd front
    (code, line.drop code.length)

end Swiftward
