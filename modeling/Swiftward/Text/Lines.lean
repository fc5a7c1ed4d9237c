import Swiftward.Text.Trim

/-!
# Lines

A text is cut into lines at each line feed, and a carriage return right before one belongs to the
line end. What follows the last line feed is a line unless it is empty.
-/

namespace Swiftward

/-- The stretches of a list between the occurrences of `mark`: one more than there are marks. -/
def pieces {α : Type} [BEq α] (mark : α) (s : List α) : List (List α) :=
  s.foldr
    (fun a later =>
      if a == mark then [] :: later
      else match later with
        | [] => [[a]]
        | piece :: rest => (a :: piece) :: rest)
    [[]]

/-- A line without the carriage return at its end. -/
def dropReturn (line : Text) : Text := (before? '\r' line).getD line

/-- The lines of a text, given the stretches between its line feeds. -/
def linesOfPieces (ps : List Text) : List Text :=
  ps.dropLast.map dropReturn ++ ps.getLast?.toList.filter (· ≠ [])

/-- The lines of a text. -/
def lines (s : Text) : List Text := linesOfPieces (pieces '\n' s)

/-- The text whose lines are the given ones, each with a line feed behind it. -/
def unlines (ls : List Text) : Text := ls.flatMap (· ++ ['\n'])

@[simp] theorem unlines_nil : unlines [] = [] := rfl

@[simp] theorem unlines_cons (line : Text) (ls : List Text) :
    unlines (line :: ls) = line ++ '\n' :: unlines ls := by
  simp [unlines]

end Swiftward
