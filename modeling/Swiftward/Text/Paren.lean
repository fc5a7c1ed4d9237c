import Swiftward.Text.Offset
import Swiftward.Text.Quoting

/-!
# Matching parentheses

Parentheses inside literals do not count. Which quotes open a literal depends on the text from its
very start, so a scan that begins in the middle is given the state there.
-/

namespace Swiftward

/-- A text read in state `q` at nesting `depth`, cut around the first `)` that closes the
outermost parenthesis. -/
def cutAtClose (q : Quoting) (depth : Int) : Text → Option (Text × Text)
  | [] => none
  | c :: s =>
    let depth' := if q ≠ .code then depth else if c = '(' then depth + 1
      else if c = ')' then depth - 1 else depth
    if q = .code ∧ c = ')' ∧ depth' = 0 then some ([], s)
    else (cutAtClose (q.stepChar c) depth' s).map fun (front, back) => (c :: front, back)

/-- What stands inside and after the parenthesis that opens right after `lead`. -/
def parenthesized? (lead rest : Text) : Option (Text × Text) :=
  match rest with
  | '(' :: _ => (cutAtClose (Quoting.code.run lead) 0 rest).map fun (front, back) =>
    (front.drop 1, back)
  | _ => none

/-- The offset of the `)` that closes the `(` at the given offset. -/
def matchingParen? (s : Text) (offset : Nat) : Option Nat :=
  let (lead, rest) := splitAtByte offset s
  (parenthesized? lead rest).map fun (inside, _) => offset + 1 + byteSize inside

end Swiftward
