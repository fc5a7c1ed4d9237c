import Swiftward.Unicode.Class

/-!
# Texts and symbols

A text is the list of its characters. Some stages work on lines in which a stretch of text is
replaced by a single opaque mark; what they share with the stages on plain text is written for any
type of *symbols*, each of which is a character or stands for something that is no character.
An opaque symbol is neither a space nor a word character, and no quote, bracket or punctuation.
-/

namespace Swiftward

/-- A text is the list of its characters. -/
abbrev Text := List Char

/-- A type of symbols: each is at most one character, and each character is one of them. -/
class Symbol (α : Type) where
  /-- The character that a symbol is, unless it is opaque. -/
  char? : α → Option Char
  /-- The symbol that a character is. -/
  ofChar : Char → α
  char?_eq_some_iff : ∀ {a : α} {c : Char}, char? a = some c ↔ a = ofChar c

instance : Symbol Char where
  char? := some
  ofChar := id
  char?_eq_some_iff := by simp

namespace Symbol

@[simp] theorem char?_char (c : Char) : char? c = some c := rfl

@[simp] theorem ofChar_char (c : Char) : (ofChar c : Char) = c := rfl

variable {α : Type} [Symbol α]

@[simp] theorem char?_ofChar (c : Char) : char? (ofChar c : α) = some c :=
  char?_eq_some_iff.mpr rfl

/-- Whether a symbol is a character of the given class. -/
def satisfies (p : Char → Bool) (a : α) : Bool :=
  match char? a with
  | some c => p c
  | none => false

@[simp] theorem satisfies_ofChar (p : Char → Bool) (c : Char) :
    satisfies p (ofChar c : α) = p c := by
  simp [satisfies]

@[simp] theorem satisfies_char (p : Char → Bool) (c : Char) : satisfies p c = p c := rfl

/-- A text, as symbols. -/
def ofText (t : Text) : List α := t.map ofChar

@[simp] theorem ofText_char (t : Text) : (ofText t : Text) = t := by
  simp [ofText, show (ofChar : Char → Char) = id from rfl]

@[simp] theorem ofText_nil : (ofText [] : List α) = [] := rfl

@[simp] theorem ofText_append (s t : Text) : (ofText (s ++ t) : List α) = ofText s ++ ofText t := by
  simp [ofText]

end Symbol

variable {α : Type} [Symbol α]

/-- Whether a symbol is white space. -/
def isSpace (a : α) : Bool := Symbol.satisfies Unicode.isSpace a

/-- Whether a symbol is a word character. -/
def isWord (a : α) : Bool := Symbol.satisfies Unicode.isWord a

/-- Whether a symbol is the given character. -/
def isChar (c : Char) (a : α) : Bool := Symbol.satisfies (· == c) a

theorem isChar_iff {c : Char} {a : α} : isChar c a = true ↔ a = Symbol.ofChar c := by
  unfold isChar Symbol.satisfies
  split
  · next d hd =>
    obtain rfl := Symbol.char?_eq_some_iff.mp hd
    constructor
    · intro h
      rw [eq_of_beq h]
    · intro h
      have : some d = some c := by
        rw [← Symbol.char?_ofChar (α := α) d, ← Symbol.char?_ofChar (α := α) c, h]
      simpa using this
  · next hn =>
    simp only [Bool.false_eq_true, false_iff]
    rintro rfl
    simp at hn

@[simp] theorem isChar_char (c d : Char) : isChar c d = (d == c) := rfl

end Swiftward
