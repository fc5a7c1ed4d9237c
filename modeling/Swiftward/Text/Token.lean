import Swiftward.Text.Symbol

/-!
# Words

A text is a sequence of *tokens*: the longest runs of word characters, and between them single
symbols. A word is matched or replaced only as a whole, so `NOTE` holds no `NO`.
-/

namespace Swiftward

/-- A word, or a single symbol that belongs to none. -/
inductive Token (α : Type) where
  | word (text : Text)
  | other (symbol : α)
  deriving DecidableEq, Repr

namespace Token

variable {α : Type} [Symbol α]

/-- The tokens of a text that begins with a symbol and goes on with the given tokens. -/
def cons (a : α) (tokens : List (Token α)) : List (Token α) :=
  match Symbol.char? a with
  | none => other a :: tokens
  | some c =>
    if Unicode.isWord c then
      match tokens with
      | word w :: rest => word (c :: w) :: rest
      | _ => word [c] :: tokens
    else other a :: tokens

/-- The tokens of a text. -/
def ofText (s : List α) : List (Token α) := s.foldr cons []

/-- The text of a token. -/
def toText : Token α → List α
  | word w => Symbol.ofText w
  | other a => [a]

/-- The text of a sequence of tokens. -/
def textOf (tokens : List (Token α)) : List α := tokens.flatMap toText

@[simp] theorem textOf_nil : textOf ([] : List (Token α)) = [] := rfl

@[simp] theorem textOf_cons (t : Token α) (tokens : List (Token α)) :
    textOf (t :: tokens) = t.toText ++ textOf tokens := by
  simp [textOf]

theorem textOf_consSymbol (a : α) (tokens : List (Token α)) :
    textOf (cons a tokens) = a :: textOf tokens := by
  unfold cons
  split
  · simp [toText]
  · next c hc =>
    obtain rfl := Symbol.char?_eq_some_iff.mp hc
    split
    · split <;> simp [toText, Symbol.ofText]
    · simp [toText]

/-- Nothing is lost between a text and its tokens. -/
@[simp] theorem textOf_ofText (s : List α) : textOf (ofText s) = s := by
  induction s with
  | nil => rfl
  | cons a s ih => rw [ofText, List.foldr_cons, textOf_consSymbol, ← ofText, ih]

end Token

/-- The text of a single word, if that is what the symbols are. -/
def word? {α : Type} [Symbol α] (s : List α) : Option Text :=
  match Token.ofText s with
  | [.word w] => some w
  | _ => none

end Swiftward
