import Swiftward.Text.Symbol

/-!
# Trimming

Removal of the white space at either end of a text, and of a given text at its start or end.
-/

namespace Swiftward

variable {α : Type} [Symbol α]

/-- A text without the white space at its start. -/
def trimStart (s : List α) : List α := s.dropWhile isSpace

/-- A text without the white space at its end. -/
def trimEnd : List α → List α
  | [] => []
  | a :: s =>
    match trimEnd s with
    | [] => if isSpace a then [] else [a]
    | b :: t => a :: b :: t

/-- A text without the white space at either end. -/
def trim (s : List α) : List α := trimEnd (trimStart s)

/-- What follows the first text in the second, if the second starts with it. -/
def strip? : Text → Text → Option Text
  | [], s => some s
  | _ :: _, [] => none
  | c :: lead, d :: s => if c = d then strip? lead s else none

theorem strip?_eq_some_iff {lead s rest : Text} : strip? lead s = some rest ↔ s = lead ++ rest := by
  induction lead generalizing s with
  | nil => simp [strip?]
  | cons c lead ih =>
    cases s with
    | nil => simp [strip?]
    | cons d s =>
      by_cases h : c = d
      · simp [strip?, h, ih]
      · simp [strip?, h, Ne.symm h]

/-- What follows `lead` in a text that starts with it. -/
def after? (lead : String) (s : Text) : Option Text := strip? lead.toList s

theorem after?_eq_some_iff {lead : String} {s rest : Text} :
    after? lead s = some rest ↔ s = lead.toList ++ rest :=
  strip?_eq_some_iff

/-- What comes before `c` in a text that ends with it. -/
def before? (c : Char) (s : Text) : Option Text :=
  if s.getLast? = some c then some s.dropLast else none

end Swiftward
