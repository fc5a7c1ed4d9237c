import Swiftward.Text.Offset
import Swiftward.Text.Quoting

/-!
# Innermost square brackets

A pair of square brackets is innermost when no square bracket stands between the two. Brackets
inside literals do not count. Every text is cut in one way into its innermost pairs, each with the
text before it, and the text after the last.
-/

namespace Swiftward

variable {α : Type} [Symbol α]

/-- A text read in state `q`, just behind a `[`: what stands before and after the next bracket, if
that bracket is a `]`. -/
def interior? (q : Quoting) : List α → Option (List α × List α)
  | [] => none
  | a :: s =>
    if q.bare ']' a then some ([], s)
    else if q.bare '[' a then none
    else (interior? (q.step a) s).map fun (inside, rest) => (a :: inside, rest)

/-- The text up to the closing bracket, that bracket and the rest make up the text. -/
theorem eq_of_interior? {q : Quoting} {s inside rest : List α}
    (h : interior? q s = some (inside, rest)) : s = inside ++ Symbol.ofChar ']' :: rest := by
  induction s generalizing q inside with
  | nil => simp [interior?] at h
  | cons a s ih =>
    simp only [interior?] at h
    split at h
    · next ha =>
      simp only [Option.some.injEq, Prod.mk.injEq] at h
      obtain ⟨rfl, rfl⟩ := h
      simp [(Quoting.bare_iff.mp ha).2]
    · split at h
      · simp at h
      · obtain ⟨⟨i, r⟩, hi, he⟩ := Option.map_eq_some_iff.mp h
        simp only [Prod.mk.injEq] at he
        obtain ⟨rfl, rfl⟩ := he
        simp [ih hi]

/-- An innermost pair with the text before it. -/
structure BracketPair (α : Type) where
  before : List α
  interior : List α
  deriving DecidableEq, Repr

/-- The brackets of a pair and what stands between them. -/
def BracketPair.whole (pair : BracketPair α) : List α :=
  Symbol.ofChar '[' :: pair.interior ++ [Symbol.ofChar ']']

/-- A text as its innermost pairs and the text behind the last of them. -/
structure Bracketed (α : Type) where
  pairs : List (BracketPair α)
  tail : List α
  deriving DecidableEq, Repr

namespace Bracketed

/-- A symbol put in front. -/
def cons (a : α) : Bracketed α → Bracketed α
  | ⟨[], tail⟩ => ⟨[], a :: tail⟩
  | ⟨pair :: pairs, tail⟩ => ⟨{ pair with before := a :: pair.before } :: pairs, tail⟩

/-- A text read in state `q`, cut at its innermost pairs. -/
def ofTextFrom (q : Quoting) (s : List α) : Bracketed α :=
  match s with
  | [] => ⟨[], []⟩
  | a :: s =>
    match _h : if q.bare '[' a then interior? q s else none with
    | some (inside, rest) =>
      let later := ofTextFrom .code rest
      ⟨⟨[], inside⟩ :: later.pairs, later.tail⟩
    | none => (ofTextFrom (q.step a) s).cons a
termination_by s.length
decreasing_by
  · split at _h
    · simp [eq_of_interior? _h]
      omega
    · simp at _h
  · simp

/-- The text that was cut. -/
def toText (cut : Bracketed α) : List α :=
  cut.pairs.flatMap (fun pair => pair.before ++ pair.whole) ++ cut.tail

theorem toText_pair (pair : BracketPair α) (cut : Bracketed α) :
    (⟨pair :: cut.pairs, cut.tail⟩ : Bracketed α).toText =
      pair.before ++ pair.whole ++ cut.toText := by
  simp [toText]

theorem toText_cons (a : α) (cut : Bracketed α) : (cut.cons a).toText = a :: cut.toText := by
  obtain ⟨_ | ⟨pair, pairs⟩, tail⟩ := cut <;> simp [cons, toText, BracketPair.whole]

/-- Nothing is lost when a text is cut. -/
theorem toText_ofTextFrom (q : Quoting) (s : List α) : (ofTextFrom q s).toText = s := by
  fun_induction ofTextFrom q s with
  | case1 => rfl
  | case2 q a s inside rest h later ih =>
    split at h
    · next ha =>
      rw [toText_pair, ih, eq_of_interior? h, (Quoting.bare_iff.mp ha).2]
      simp [BracketPair.whole]
    · simp at h
  | case3 q a s h ih => rw [toText_cons, ih]

/-- A text cut at its innermost pairs. -/
def ofText (s : List α) : Bracketed α := ofTextFrom .code s

@[simp] theorem toText_ofText (s : List α) : (ofText s).toText = s := toText_ofTextFrom .code s

/-- The offsets of the brackets of the pairs, in a text that begins at `offset`. -/
def offsetsFrom (offset : Nat) : List (BracketPair Char) → List (Nat × Nat)
  | [] => []
  | pair :: pairs =>
    let opening := offset + byteSize pair.before
    let closing := opening + 1 + byteSize pair.interior
    (opening, closing) :: offsetsFrom (closing + 1) pairs

end Bracketed

/-- The offsets of the innermost pairs of square brackets, from left to right. -/
def innermostPairs (s : Text) : List (Nat × Nat) :=
  Bracketed.offsetsFrom 0 (Bracketed.ofText s).pairs

end Swiftward
