import Swiftward.Report

/-!
# Reading JSON

A reader of JSON texts. It takes a text apart into the marks of JSON and the values that hold no
others, and builds arrays and objects from these. It knows the whole of JSON, not only what a report
in JSON makes use of: every escape of a string, pairs of surrogates among them, and numbers with a
sign, a fraction and an exponent. Each step takes something off the front of what is left, and
brings the proof along that less is left.
-/

namespace Swiftward

/-- A JSON value. A number is its digits, read as one integer, times a power of ten. -/
inductive Json where
  | null
  | bool (value : Bool)
  | number (digits exponent : Int)
  | string (text : Text)
  | array (items : List Json)
  | object (members : List (Text × Json))

/-- What was read off the front of a list, which is never nothing, and what is behind it. -/
structure Read (α : Type) {σ : Type} (s : List σ) where
  value : α
  rest : List σ
  shorter : rest.length < s.length

/-- Takes something off the front of a list, if it is there. -/
abbrev Reader (σ α : Type) := (s : List σ) → Option (Read α s)

namespace Read

variable {σ α β : Type} {s : List σ}

/-- Something else in place of what was read. -/
def map (f : α → β) (r : Read α s) : Read β s := ⟨f r.value, r.rest, r.shorter⟩

/-- What was read behind something else. -/
def after (r : Read α s) (t : Read β r.rest) : Read β s :=
  ⟨t.value, t.rest, Nat.lt_trans t.shorter r.shorter⟩

/-- What was read behind an item. -/
def behind (c : σ) (r : Read α s) : Read α (c :: s) := ⟨r.value, r.rest, Nat.lt_succ_of_lt r.shorter⟩

end Read

namespace Json

/-! ### Numbers -/

/-- A text that is expected. -/
def literal? (text : Text) : Reader Char Unit := fun s =>
  if h : text ≠ [] ∧ text <+: s then
    some ⟨(), s.drop text.length, by
      have := h.2.length_le
      have := List.length_pos_iff.mpr h.1
      rw [List.length_drop]
      omega⟩
  else none

/-- Digits, at least one. -/
def digits? : Reader Char Text := fun s =>
  if h : s.takeWhile Char.isDigit = [] then none
  else some ⟨s.takeWhile Char.isDigit, s.dropWhile Char.isDigit, by
    have hparts := congrArg List.length (List.takeWhile_append_dropWhile (p := Char.isDigit) (l := s))
    have hsome := List.length_pos_iff.mpr h
    rw [List.length_append] at hparts
    omega⟩

/-- The digits in front of a point. A zero stands alone. -/
def whole? : Reader Char Text
  | '0' :: rest => some ⟨['0'], rest, Nat.lt_succ_self _⟩
  | s => digits? s

/-- A point and the digits behind it. -/
def fraction? : Reader Char Text := fun s => do
  let point ← literal? ['.'] s
  let digits ← digits? point.rest
  return point.after digits

/-- The number that digits spell. -/
def ofDigits (digits : Text) : Int := Nat.ofDigitChars 10 digits 0

/-- Digits that may have a sign. -/
def integer? : Reader Char Int := fun s =>
  (do
    let minus ← literal? ['-'] s
    let digits ← digits? minus.rest
    return (minus.after digits).map (-ofDigits ·)) <|>
  (do
    let plus ← literal? ['+'] s
    let digits ← digits? plus.rest
    return (plus.after digits).map ofDigits) <|>
  (digits? s).map (·.map ofDigits)

/-- An exponent with its letter. -/
def exponent? : Reader Char Int := fun s => do
  let letter ← literal? ['e'] s <|> literal? ['E'] s
  let shift ← integer? letter.rest
  return letter.after shift

/-- The digits of a number in front of its exponent, with the power of ten. -/
def decimal? : Reader Char (Int × Int) := fun s => do
  let whole ← whole? s
  match fraction? whole.rest with
  | none => return whole.map fun digits => (ofDigits digits, 0)
  | some fraction => return (whole.after fraction).map fun digits =>
      (ofDigits (whole.value ++ digits), -digits.length)

/-- The digits of a number that has no sign, with the power of ten. -/
def magnitude? : Reader Char (Int × Int) := fun s => do
  let decimal ← decimal? s
  match exponent? decimal.rest with
  | none => return decimal
  | some exponent => return (decimal.after exponent).map fun shift =>
      (decimal.value.1, decimal.value.2 + shift)

/-- A number. -/
def number? : Reader Char Json := fun s =>
  (do
    let minus ← literal? ['-'] s
    let size ← magnitude? minus.rest
    return (minus.after size).map fun size => number (-size.1) size.2) <|>
  (magnitude? s).map (·.map fun size => number size.1 size.2)

/-! ### Strings -/

/-- The value of a hexadecimal digit. -/
def hexValue? (c : Char) : Option Nat :=
  if c.isDigit then some (c.toNat - '0'.toNat)
  else if 'a' ≤ c ∧ c ≤ 'f' then some (c.toNat - 'a'.toNat + 10)
  else if 'A' ≤ c ∧ c ≤ 'F' then some (c.toNat - 'A'.toNat + 10)
  else none

/-- The four hexadecimal digits of a UTF-16 code unit. -/
def unit? : Reader Char Nat
  | a :: b :: c :: d :: rest => do
    let a ← hexValue? a
    let b ← hexValue? b
    let c ← hexValue? c
    let d ← hexValue? d
    return ⟨((a * 16 + b) * 16 + c) * 16 + d, rest, by simp only [List.length_cons]; omega⟩
  | _ => none

/-- The character that code units stand for, of which it takes two beyond the first plane. -/
def codeUnits? : Reader Char Char := fun s => do
  let high ← unit? s
  if 0xd800 ≤ high.value ∧ high.value < 0xdc00 then
    let mark ← literal? "\\u".toList high.rest
    let low ← unit? mark.rest
    if 0xdc00 ≤ low.value ∧ low.value < 0xe000 then
      return (high.after (mark.after low)).map fun low =>
        Char.ofNat (0x10000 + (high.value - 0xd800) * 0x400 + (low - 0xdc00))
    else none
  else if 0xdc00 ≤ high.value ∧ high.value < 0xe000 then none
  else return high.map Char.ofNat

/-- The character that stands behind a backslash as a letter. -/
def escaped? : Char → Option Char
  | '"' => some '"'
  | '\\' => some '\\'
  | '/' => some '/'
  | 'b' => some '\x08'
  | 'f' => some '\x0c'
  | 'n' => some '\n'
  | 'r' => some '\r'
  | 't' => some '\t'
  | _ => none

/-- A character of a string, which may be escaped and must be if it is a control character. -/
def char? : Reader Char Char
  | [] => none
  | c :: rest =>
    if c = '\\' then
      match rest with
      | [] => none
      | d :: rest =>
        if d = 'u' then (codeUnits? rest).map fun r => (r.behind d).behind c
        else (escaped? d).map fun value =>
          ⟨value, rest, by simp only [List.length_cons]; omega⟩
    else if c = '"' ∨ c.toNat < 0x20 then none
    else some ⟨c, rest, Nat.lt_succ_self _⟩

/-- The text of a string up to the quote that ends it. -/
def quoted? (s : Text) : Option (Read Text s) :=
  match s with
  | '"' :: rest => some ⟨[], rest, Nat.lt_succ_self _⟩
  | s => do
    let c ← char? s
    let later ← quoted? c.rest
    return (c.after later).map (c.value :: ·)
termination_by s.length
decreasing_by exact c.shorter

/-- A string. -/
def string? : Reader Char Text
  | '"' :: rest => (quoted? rest).map (·.behind '"')
  | _ => none

/-! ### Marks and scalars -/

/-- A piece of a JSON text. -/
inductive Token where
  | mark (c : Char)
  | scalar (value : Json)

/-- A bracket, a brace, a colon or a comma. -/
def isMark (c : Char) : Bool := c ∈ ['[', ']', '\x7b', '\x7d', ':', ',']

/-- The mark at the front. -/
def mark? : Reader Char Char
  | c :: rest => if isMark c then some ⟨c, rest, Nat.lt_succ_self _⟩ else none
  | [] => none

/-- The piece at the front. -/
def token? : Reader Char Token := fun s =>
  (mark? s).map (·.map .mark) <|>
  (string? s).map (·.map (.scalar ∘ string)) <|>
  (number? s).map (·.map .scalar) <|>
  (literal? "null".toList s).map (·.map fun _ => .scalar null) <|>
  (literal? "true".toList s).map (·.map fun _ => .scalar (bool true)) <|>
  (literal? "false".toList s).map (·.map fun _ => .scalar (bool false))

/-- A character that may stand between any two pieces. -/
def isBlank (c : Char) : Bool := c ∈ [' ', '\t', '\n', '\r']

/-- All pieces of a text. -/
def tokens? (s : Text) : Option (List Token) :=
  match s with
  | [] => some []
  | c :: rest =>
    if isBlank c then tokens? rest
    else do
      let token ← token? (c :: rest)
      let later ← tokens? token.rest
      return token.value :: later
termination_by s.length
decreasing_by
  · exact Nat.lt_succ_self _
  · exact token.shorter

/-! ### Values -/

mutual

/-- A value. -/
def value? (tokens : List Token) : Option (Read Json tokens) :=
  match tokens with
  | .scalar value :: rest => some ⟨value, rest, Nat.lt_succ_self _⟩
  | .mark '[' :: .mark ']' :: rest =>
    some ⟨array [], rest, by simp only [List.length_cons]; omega⟩
  | .mark '[' :: rest => (items? rest).map fun r => (r.behind (.mark '[')).map array
  | .mark '\x7b' :: .mark '\x7d' :: rest =>
    some ⟨object [], rest, by simp only [List.length_cons]; omega⟩
  | .mark '\x7b' :: rest => (members? rest).map fun r => (r.behind (.mark '\x7b')).map object
  | _ => none
termination_by (tokens.length, 0)

/-- The items of an array, at least one, with the bracket that ends it. -/
def items? (tokens : List Token) : Option (Read (List Json) tokens) := do
  let item ← value? tokens
  match h : item.rest with
  | .mark ',' :: rest =>
    have : rest.length < tokens.length := by
      have := item.shorter
      rw [h, List.length_cons] at this
      omega
    let later ← items? rest
    return ⟨item.value :: later.value, later.rest, Nat.lt_trans later.shorter this⟩
  | .mark ']' :: rest => return ⟨[item.value], rest, by
      have := item.shorter
      rw [h, List.length_cons] at this
      omega⟩
  | _ => none
termination_by (tokens.length, 1)

/-- The members of an object, at least one, with the brace that ends it. -/
def members? (tokens : List Token) : Option (Read (List (Text × Json)) tokens) :=
  match tokens with
  | .scalar (.string name) :: .mark ':' :: rest => do
    let value ← value? rest
    match h : value.rest with
    | .mark ',' :: later =>
      have : later.length < rest.length := by
        have := value.shorter
        rw [h, List.length_cons] at this
        omega
      let members ← members? later
      return ⟨(name, value.value) :: members.value, members.rest, by
        have := members.shorter
        simp only [List.length_cons]
        omega⟩
    | .mark '\x7d' :: later => return ⟨[(name, value.value)], later, by
        have := value.shorter
        rw [h, List.length_cons] at this
        simp only [List.length_cons]
        omega⟩
    | _ => none
  | _ => none
termination_by (tokens.length, 1)

end

/-- The value that a text spells, with nothing behind it but blanks. -/
def read? (s : Text) : Option Json := do
  let tokens ← tokens? s
  let value ← value? tokens
  if value.rest = [] then return value.value else none

end Json

end Swiftward
