import Swiftward.MessageSend.Basic
import Swiftward.MessageSend.Fragment
import Swiftward.Text.Bracket

/-!
# Collapsing the sends of a line

Each pass over a line looks at its innermost pairs of brackets. The character before a pair tells
what the pair is: an array literal `@[a, b]`, a subscript `a[0]`, something behind a cast or a call
such as `(id)[NSNull null]` or `f()[0]`, or a send. A pair that is finished becomes a fragment. The
passes end when one finds nothing to do, and then the fragments are written out. Pairs that are no
sends stay as they are.

Every pass but the last removes an opening bracket, so the passes do end
(`Pass.openings_ofLine_lt`).
-/

namespace Swiftward

/-- What a pair of brackets is, judged by what stands before it. -/
inductive BracketRole where
  /-- An array literal. -/
  | literal
  /-- A subscript of a name. -/
  | subscript
  /-- A send behind a cast, or a subscript of a call. -/
  | trailing
  /-- A message send. -/
  | send
  deriving DecidableEq, Repr

/-- The role of a pair behind the given cell, or at the start of the line. -/
def BracketRole.behind : Option Cell → BracketRole
  | none => send
  | some (.fragment _) => trailing
  | some (.char c) =>
    if c = '@' then literal
    else if Unicode.isAlphanumeric c || c == '_' then subscript
    else if c = ')' ∨ c = ']' ∨ c = Cell.markClose then trailing
    else send

/-- What a pass makes of a stretch of a line. -/
structure Pass where
  line : List Cell
  fragments : Fragments
  changed : Bool
  deriving DecidableEq, Repr

namespace Pass

/-- The text `part`, set aside behind `lead`. -/
def setAside (lead : List Cell) (fragments : Fragments) (part : List Cell) : Pass :=
  ⟨lead ++ [fragments.next], fragments.insert part, true⟩

/-- One pair, with the text before it, behind `previous`. -/
def ofPair (previous : Option Cell) (fragments : Fragments) (pair : BracketPair Cell) : Pass :=
  match BracketRole.behind (pair.before.getLast? <|> previous) with
  | .literal => setAside pair.before.dropLast fragments pair.whole
  | .subscript => setAside pair.before fragments pair.whole
  | .trailing => setAside pair.before fragments ((resolveSend pair.interior).getD pair.whole)
  | .send =>
    match resolveSend pair.interior with
    | some call => setAside pair.before fragments call
    | none => ⟨pair.before ++ pair.whole, fragments, false⟩

/-- The pairs of a line from left to right, the first of them behind `previous`. -/
def ofPairs (previous : Option Cell) (fragments : Fragments) : List (BracketPair Cell) → Pass
  | [] => ⟨[], fragments, false⟩
  | pair :: pairs =>
    let first := ofPair previous fragments pair
    let later := ofPairs (some (.char ']')) first.fragments pairs
    ⟨first.line ++ later.line, later.fragments, first.changed || later.changed⟩

/-- A whole line. -/
def ofLine (fragments : Fragments) (line : List Cell) : Pass :=
  let cut := Bracketed.ofText line
  let pass := ofPairs none fragments cut.pairs
  { pass with line := pass.line ++ cut.tail }

end Pass

/-! ### The passes end -/

/-- The number of opening brackets on a line, those in literals included. -/
def openings (line : List Cell) : Nat := line.count (.char '[')

@[simp] theorem openings_append (s t : List Cell) : openings (s ++ t) = openings s + openings t :=
  List.count_append

@[simp] theorem openings_fragment (id : Nat) : openings [.fragment id] = 0 := rfl

theorem openings_whole (pair : BracketPair Cell) :
    openings pair.whole = openings pair.interior + 1 := by
  simp [BracketPair.whole, openings, List.count_append]

theorem openings_dropLast_le (s : List Cell) : openings s.dropLast ≤ openings s :=
  (List.dropLast_sublist s).count_le _

namespace Pass

theorem openings_ofPair (previous : Option Cell) (fragments : Fragments)
    (pair : BracketPair Cell) :
    openings (ofPair previous fragments pair).line +
      (if (ofPair previous fragments pair).changed then 1 else 0) ≤
        openings pair.before + openings pair.whole := by
  have hdrop := openings_dropLast_le pair.before
  have hwhole := openings_whole pair
  unfold ofPair
  split
  · simp [setAside, Fragments.next]; omega
  · simp [setAside, Fragments.next]; omega
  · simp [setAside, Fragments.next]; omega
  · split
    · simp [setAside, Fragments.next]; omega
    · simp

theorem openings_ofPairs (previous : Option Cell) (fragments : Fragments)
    (pairs : List (BracketPair Cell)) :
    openings (ofPairs previous fragments pairs).line +
      (if (ofPairs previous fragments pairs).changed then 1 else 0) ≤
        openings (pairs.flatMap fun pair => pair.before ++ pair.whole) := by
  induction pairs generalizing previous fragments with
  | nil => simp [ofPairs]
  | cons pair pairs ih =>
    have hfirst := openings_ofPair previous fragments pair
    have hlater := ih (some (.char ']')) (ofPair previous fragments pair).fragments
    simp only [ofPairs, openings_append, List.flatMap_cons, Bool.or_eq_true]
    split at hfirst <;> split at hlater <;> simp_all <;> omega

/-- A pass that changes a line leaves fewer opening brackets on it. -/
theorem openings_ofLine_lt {fragments : Fragments} {line : List Cell}
    (h : (ofLine fragments line).changed = true) :
    openings (ofLine fragments line).line < openings line := by
  have hpairs := openings_ofPairs none fragments (Bracketed.ofText line).pairs
  have hline := congrArg openings (Bracketed.toText_ofText line)
  simp only [Bracketed.toText, openings_append] at hline
  simp only [ofLine] at h
  simp only [ofLine, openings_append]
  simp only [h, if_true] at hpairs
  omega

end Pass

/-- The result of the passes over a line, up to and including the first that changes nothing. -/
def settle (fragments : Fragments) (line : List Cell) : Pass :=
  let pass := Pass.ofLine fragments line
  if _h : pass.changed = true then settle pass.fragments pass.line else pass
termination_by openings line
decreasing_by exact Pass.openings_ofLine_lt _h

/-- Every message send on a line in call syntax, the innermost first. A line that holds the
character which opens a written-out mark is left alone. -/
def collapseSends (line : Text) : Text :=
  if '[' ∉ line ∨ Cell.markOpen ∈ line then line
  else
    let settled := settle .empty (Symbol.ofText line)
    (settled.fragments.expand settled.line).flatMap Cell.spell

end Swiftward
