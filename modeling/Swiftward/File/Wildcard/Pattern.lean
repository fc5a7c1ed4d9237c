import Swiftward.Text.Symbol

/-!
# Wildcard patterns

A pattern is matched against a file name, by the rules that version 0.3 of glob documents for its
patterns. A `?` stands for any character, a `*` for any sequence of them, `[abc]` for one character
of a class and `[!abc]` for one outside it, where `a-z` in a class is a range and a bracket that
comes first in a class belongs to it. Two stars have to be a whole component of a path, and then
stand for any sequence of directories. The options for matching are the usual ones: case matters,
and a wildcard may stand for a dot that begins a name.
-/

namespace Swiftward

/-- A member of a character class. -/
inductive ClassItem where
  | single (c : Char)
  | range (first last : Char)
  deriving DecidableEq, Repr

namespace ClassItem

/-- The members that a class is written with. -/
def ofText : Text → List ClassItem
  | [] => []
  | first :: '-' :: last :: rest => range first last :: ofText rest
  | c :: rest => single c :: ofText rest

/-- Whether a character is meant. -/
def contains : ClassItem → Char → Bool
  | single d, c => c = d
  | range first last, c => first ≤ c && c ≤ last

end ClassItem

/-- A piece of a pattern. -/
inductive Wildcard where
  | char (c : Char)
  /-- Any character. -/
  | anyChar
  /-- Any sequence of characters. -/
  | anySequence
  /-- Any sequence of directories. -/
  | anyDirectories
  /-- A character of the class. -/
  | within (items : List ClassItem)
  /-- A character outside the class. -/
  | except (items : List ClassItem)
  deriving DecidableEq, Repr

/-- A pattern. -/
abbrev Pattern := List Wildcard

namespace Pattern

/-- The text of a class, which has at least one character, and what follows its bracket. -/
def cutClass? : Text → Option (Text × Text)
  | [] => none
  | c :: s =>
    if ']' ∈ s then some (c :: s.takeWhile (· ≠ ']'), (s.dropWhile (· ≠ ']')).drop 1) else none

theorem length_cutClass?_lt {s items rest : Text} (h : cutClass? s = some (items, rest)) :
    rest.length < s.length := by
  cases s with
  | nil => simp [cutClass?] at h
  | cons c s =>
    simp only [cutClass?] at h
    split at h
    · simp only [Option.some.injEq, Prod.mk.injEq] at h
      have := (List.dropWhile_suffix (l := s) (· ≠ ']')).length_le
      simp only [← h.2, List.length_drop, List.length_cons]
      omega
    · simp at h

/-- Reads a pattern behind the character `previous`. There is none if a class does not end, if
three stars follow each other, or if two stars are not a whole component. -/
def parseAfter? (previous : Option Char) (s : Text) : Option Pattern :=
  match s with
  | [] => some []
  | '*' :: '*' :: '*' :: _ => none
  | '*' :: '*' :: rest =>
    if previous ≠ none ∧ previous ≠ some '/' then none
    else match rest with
      | [] => some [.anyDirectories]
      | '/' :: rest => (parseAfter? (some '/') rest).map (.anyDirectories :: ·)
      | _ => none
  | '*' :: rest => (parseAfter? (some '*') rest).map (.anySequence :: ·)
  | '?' :: rest => (parseAfter? (some '?') rest).map (.anyChar :: ·)
  | '[' :: '!' :: s =>
    match _h : cutClass? s with
    | none => none
    | some (items, rest) =>
      (parseAfter? (some ']') rest).map (.except (ClassItem.ofText items) :: ·)
  | '[' :: s =>
    match _h : cutClass? s with
    | none => none
    | some (items, rest) =>
      (parseAfter? (some ']') rest).map (.within (ClassItem.ofText items) :: ·)
  | c :: rest => (parseAfter? (some c) rest).map (.char c :: ·)
termination_by s.length
decreasing_by
  all_goals simp only [List.length_cons]
  all_goals first
    | omega
    | exact Nat.lt_succ_of_lt (length_cutClass?_lt _h)
    | exact Nat.lt_succ_of_lt (Nat.lt_succ_of_lt (length_cutClass?_lt _h))

/-- Reads a pattern. -/
def parse? (s : Text) : Option Pattern := parseAfter? none s

/-- The text that a pattern without wildcards is. -/
def literal? (pattern : Pattern) : Option Text :=
  pattern.mapM fun
    | .char c => some c
    | _ => none

/-- Whether a pattern stands for sequences of directories. -/
def isRecursive (pattern : Pattern) : Bool := pattern.contains .anyDirectories

/-- Whether some end of a text passes a test, the whole text and the empty one included. -/
def anyEnd (p : Text → Bool) : Text → Bool
  | [] => p []
  | c :: s => p (c :: s) || anyEnd p s

/-- Whether the pattern matches the whole of a name. -/
def matchesName : Pattern → Text → Bool
  | [], name => name.isEmpty
  | .anySequence :: rest, name => anyEnd (matchesName rest) name
  | .anyDirectories :: rest, name => anyEnd (matchesName rest) name
  | _ :: _, [] => false
  | .char d :: rest, c :: name => c = d && matchesName rest name
  | .anyChar :: rest, _ :: name => matchesName rest name
  | .within items :: rest, c :: name => items.any (·.contains c) && matchesName rest name
  | .except items :: rest, c :: name => !items.any (·.contains c) && matchesName rest name

end Pattern

end Swiftward
