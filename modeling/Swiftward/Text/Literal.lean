import Swiftward.Text.Offset
import Swiftward.Text.Quoting

/-!
# Literals

The stretches of a text that its quoted literals cover, quotes included, from left to right. A
literal that is never closed covers the rest of the text.
-/

namespace Swiftward

/-- The literals of the rest of a text that begins at `offset` and is read in state `q`. If `q` is
inside a literal, that literal began at `start`. -/
def literalSpansFrom (q : Quoting) (start offset : Nat) : Text → List Span
  | [] => if q = .code then [] else [⟨start, offset⟩]
  | c :: s =>
    let next := offset + c.utf8Size
    let q' := q.stepChar c
    if q = .code then literalSpansFrom q' offset next s
    else if q' = .code then ⟨start, next⟩ :: literalSpansFrom q' next next s
    else literalSpansFrom q' start next s

/-- The literals of a text. -/
def literalSpans (s : Text) : List Span := literalSpansFrom .code 0 0 s

/-- Whether an offset lies in a literal of the text. -/
def inLiteral (s : Text) (offset : Nat) : Bool := (literalSpans s).any (·.contains offset)

end Swiftward
