import Swiftward.Text.Token
import Swiftward.Text.Trim

/-!
# Substitutions

The replacements that apply to every statement before anything else is looked at. The `@` before a
string goes, one trailing semicolon goes, and a few words are replaced wherever they stand as whole
words. A `@` behind a `%` stays, as in `"%@"`.
-/

namespace Swiftward

/-- A text behind the character `previous`, without the `@` that marks a string. -/
def stripMarkersAfter (previous : Option Char) : Text → Text
  | [] => []
  | c :: s =>
    if c = '@' ∧ s.head? = some '"' ∧ previous ≠ some '%' then stripMarkersAfter (some c) s
    else c :: stripMarkersAfter (some c) s

/-- A text without the `@` of its strings. -/
def stripMarkers (s : Text) : Text := stripMarkersAfter none s

/-- A text without the semicolon at its end and any white space behind that. -/
def dropSemicolon (s : Text) : Text := (before? ';' (trimEnd s)).getD s

/-- Tokens without the words `__block` that white space follows, and without that white space. If
`dropping`, such a word has just been removed. -/
def dropBlockTokens (dropping : Bool) : List (Token Char) → List (Token Char)
  | [] => []
  | .other c :: rest =>
    if dropping && isSpace c then dropBlockTokens true rest
    else .other c :: dropBlockTokens false rest
  | .word w :: rest =>
    if w = "__block".toList ∧ rest.head?.any (fun t => t.toText.any isSpace) then
      dropBlockTokens true rest
    else .word w :: dropBlockTokens false rest

/-- A text without the storage word `__block`. -/
def dropBlock (s : Text) : Text := Token.textOf (dropBlockTokens false (Token.ofText s))

/-- A text in which each word of a list is replaced by another text. -/
def replaceWords (words : List String) (replacement : String) (s : Text) : Text :=
  (Token.ofText s).flatMap fun
    | .word w => if words.any (·.toList = w) then replacement.toList else w
    | .other c => [c]

/-- All substitutions on the code of a line. -/
def substitute (s : Text) : Text :=
  let s := dropSemicolon (stripMarkers s)
  let s := dropBlock s
  let s := replaceWords ["NO"] "false" s
  let s := replaceWords ["YES"] "true" s
  let s := replaceWords ["NSLog"] "println" s
  replaceWords ["NSAssert", "NSCAssert", "NSParameterAssert"] "assert" s

end Swiftward
