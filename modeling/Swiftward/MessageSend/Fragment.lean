import Swiftward.Text.Symbol

/-!
# Fragments

While the sends of a line are converted from the inside out, each finished part is set aside in a
table and an opaque mark takes its place, so that no outer send reads it again. A line is then a
list of *cells*, and at the end every mark is replaced by the part it stands for.
-/

namespace Swiftward

/-- A character, or the mark of a part that is set aside. -/
inductive Cell where
  | char (c : Char)
  | fragment (id : Nat)
  deriving DecidableEq, Repr

instance : Symbol Cell where
  char?
    | .char c => some c
    | .fragment _ => none
  ofChar := .char
  char?_eq_some_iff {a c} := by cases a <;> simp

namespace Cell

@[simp] theorem char?_char (c : Char) : Symbol.char? (char c) = some c := rfl

@[simp] theorem char?_fragment (id : Nat) : Symbol.char? (fragment id) = none := rfl

@[simp] theorem ofChar_eq (c : Char) : (Symbol.ofChar c : Cell) = char c := rfl

/-- The characters that a mark opens and closes with where it is written out. -/
def markOpen : Char := '\uE000'

@[inherit_doc markOpen]
def markClose : Char := '\uE001'

/-- A cell written out: a mark is its number between the two characters reserved for it. -/
def spell : Cell → Text
  | char c => [c]
  | fragment id => markOpen :: Nat.toDigits 10 id ++ [markClose]

/-- Whether a cell is a mark. -/
def isFragment : Cell → Bool
  | char _ => false
  | fragment _ => true

end Cell

/-- The parts of a line that are set aside, by their number. -/
structure Fragments where
  texts : List (List Cell)
  deriving DecidableEq, Repr

namespace Fragments

/-- No parts yet. -/
def empty : Fragments := ⟨[]⟩

/-- The mark that the next part gets. -/
def next (f : Fragments) : Cell := .fragment f.texts.length

/-- One more part. -/
def insert (f : Fragments) (text : List Cell) : Fragments := ⟨f.texts ++ [text]⟩

/-- A cell with the mark it may be replaced by its part. -/
def lookUp (f : Fragments) : Cell → List Cell
  | .char c => [.char c]
  | .fragment id => (f.texts[id]?).getD [.fragment id]

/-- A line in which marks are replaced, over and over, for at most the given number of rounds. -/
def expandFor (f : Fragments) : Nat → List Cell → List Cell
  | 0, line => line
  | rounds + 1, line =>
    if line.any Cell.isFragment then f.expandFor rounds (line.flatMap f.lookUp) else line

/-- A line without marks. A part holds only marks of earlier parts, so each round but the last
uses up at least one level of them. -/
def expand (f : Fragments) (line : List Cell) : List Cell := f.expandFor (f.texts.length + 1) line

end Fragments

end Swiftward
