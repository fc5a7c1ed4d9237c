import Swiftward.Statement.Substitution
import Swiftward.Text.Comment
import Swiftward.Text.Paren
import Swiftward.Text.Reading

/-!
# Conditionals

The headers `if (…)`, `else if (…)` and `else`, a closing brace possibly before them. In Swift the
condition stands without parentheses, and the body always in braces: where it follows on later
lines, the header opens a brace that whoever reads those lines has to close.

An `if` whose parenthesis does not close on its line is no header.
-/

namespace Swiftward

/-- What stands behind the condition. -/
inductive ConditionalBody where
  /-- Nothing: the body follows on later lines. -/
  | follows
  /-- A text that begins with a brace. -/
  | braced (text : Text)
  /-- A statement on the same line. -/
  | statement (text : Text)
  deriving DecidableEq, Repr

/-- The body that a text behind the condition is. -/
def ConditionalBody.ofText (s : Text) : ConditionalBody :=
  match trim s with
  | [] => follows
  | '\x7b' :: rest => braced ('\x7b' :: rest)
  | text => statement text

/-- The header of a conditional. -/
structure Conditional where
  indent : Text
  /-- The words before the condition, with a closing brace where there is one. -/
  keyword : Text
  condition : Option Text
  body : ConditionalBody
  deriving DecidableEq, Repr

namespace Conditional

/-- A text without a closing brace at its start. -/
def skipClosingBrace (s : Text) : Text := (after? "\x7d" s).getD s

/-- What follows an optional closing brace and `if` or `else if`. -/
def afterIf? (s : Text) : Option Text :=
  let s := trimStart (skipClosingBrace s)
  after? "if" (((after? "else" s).bind afterSpace?).getD s)

/-- What follows an optional closing brace and `else`. -/
def afterElse? (s : Text) : Option Text := do
  let rest ← after? "else" (trimStart (skipClosingBrace s))
  if wordEnds rest then some rest else none

/-- The text from the parenthesis on, if the line begins like an `if`. -/
def fromParen? (line : Text) : Option Text := do
  let s ← afterIf? (trimStart line)
  match trimStart s with
  | '(' :: rest => some ('(' :: rest)
  | _ => none

/-- The keyword of a line behind which `rest` stands. -/
def keywordBefore (line rest : Text) : Text := before (trimStart line) rest

/-- Reads the header of a conditional. -/
def parse? (line : Text) : Option Conditional :=
  let indent := line.takeWhile isSpace
  match fromParen? line with
  | some rest =>
    (parenthesized? (before line rest) rest).map fun (inside, behind) =>
      ⟨indent, trimEnd (keywordBefore line rest), some (trim inside), .ofText behind⟩
  | none => do
    let rest ← afterElse? (trimStart line)
    if '\n' ∈ trimStart rest then none
    else some ⟨indent, keywordBefore line rest, none, .ofText rest⟩

/-- The header without its body. -/
def header (c : Conditional) : Text :=
  match c.condition with
  | some condition => c.indent ++ c.keyword ++ ' ' :: condition
  | none => c.indent ++ c.keyword

/-- The header in Swift. If the body follows, the brace opened here is still to be closed. -/
def render (c : Conditional) : Text :=
  match c.body with
  | .follows => c.header ++ " \x7b".toList
  | .braced text => c.header ++ ' ' :: text
  | .statement text => c.header ++ " \x7b ".toList ++ text ++ " \x7d".toList

/-- Whether the header is the `if (self) {` around the body of an initializer. -/
def isSelfGuard (c : Conditional) : Bool :=
  c.keyword = "if".toList ∧ c.condition = some "self".toList ∧ c.indent ≠ [] ∧
    c.body = .braced ['\x7b']

end Conditional

/-- Whether a line of the source is the header of a conditional whose body follows. -/
def opensUnbracedConditional (line : Text) : Bool :=
  (Conditional.parse? (substitute (splitComment line).1)).any (·.body = .follows)

end Swiftward
