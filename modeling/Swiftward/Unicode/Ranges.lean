/-!
# Ranges of characters

A property of characters is given by the ranges of the code space that have it.
-/

namespace Swiftward.Unicode

/-- Whether a character lies in one of the ranges, both ends included. -/
def inRanges (ranges : List (Nat × Nat)) (c : Char) : Bool :=
  ranges.any fun r => decide (r.1 ≤ c.toNat) && decide (c.toNat ≤ r.2)

/-- A range of the code space of which every `step`-th character counts, the first included. -/
structure SteppedRange where
  first : Nat
  last : Nat
  step : Nat

/-- Whether a character is one of those that the range counts. -/
def SteppedRange.contains (r : SteppedRange) (c : Char) : Bool :=
  decide (r.first ≤ c.toNat) && decide (c.toNat ≤ r.last) && decide ((c.toNat - r.first) % r.step = 0)

end Swiftward.Unicode
