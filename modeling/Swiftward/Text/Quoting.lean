import Swiftward.Text.Symbol

/-!
# Quoting

Reading a text from left to right, one is either in code or inside a quoted literal. A literal
opens with a double or a single quote, ends at the next such quote that no backslash escapes, and
runs to the end of the text if there is none. Every scan that must not look into literals carries
this state along.
-/

namespace Swiftward

/-- Where the reader of a text stands between two symbols. -/
inductive Quoting where
  /-- Outside every literal. -/
  | code
  /-- Inside a literal that `mark` opened; `escaped` after a backslash that escapes. -/
  | literal (mark : Char) (escaped : Bool)
  deriving DecidableEq, Repr

namespace Quoting

/-- The state after a character. -/
def stepChar : Quoting → Char → Quoting
  | code, c => if c == '"' || c == '\'' then literal c false else code
  | literal mark true, _ => literal mark false
  | literal mark false, c =>
    if c == '\\' then literal mark true
    else if c == mark then code
    else literal mark false

/-- The state after an opaque symbol: it neither opens nor ends a literal. -/
def stepOpaque : Quoting → Quoting
  | code => code
  | literal mark _ => literal mark false

variable {α : Type} [Symbol α]

/-- The state after a symbol. -/
def step (q : Quoting) (a : α) : Quoting :=
  match Symbol.char? a with
  | some c => q.stepChar c
  | none => q.stepOpaque

@[simp] theorem step_char (q : Quoting) (c : Char) : q.step c = q.stepChar c := rfl

/-- The state after a text. -/
def run (q : Quoting) (s : List α) : Quoting := s.foldl step q

@[simp] theorem run_nil (q : Quoting) : q.run ([] : List α) = q := rfl

@[simp] theorem run_cons (q : Quoting) (a : α) (s : List α) : q.run (a :: s) = (q.step a).run s := rfl

@[simp] theorem run_append (q : Quoting) (s t : List α) : q.run (s ++ t) = (q.run s).run t := by
  simp [run]

/-- Whether the character `c` is the next one and stands in code. -/
def bare (q : Quoting) (c : Char) (a : α) : Bool := q == code && isChar c a

theorem bare_iff {q : Quoting} {c : Char} {a : α} :
    q.bare c a = true ↔ q = code ∧ a = Symbol.ofChar c := by
  simp [bare, isChar_iff]

end Quoting

end Swiftward
