import Swiftward.Text.Reading

/-!
# Imports

An `#import` of a header `<F/H.h>` inside a framework becomes an import of the module `H` named by
the header; every other one is dropped, as a local header has no counterpart.
-/

namespace Swiftward

/-- What an `#import` line turns into. -/
inductive Import where
  | module (name : Text)
  | dropped
  deriving DecidableEq, Repr

/-- The name of the header, if the text begins with `<F/H.h>`. -/
def frameworkHeader? (s : Text) : Option Text := do
  let s ← after? "<" s
  let (_, s) ← nextWord? s
  let s ← after? "/" s
  let (header, s) ← nextWord? s
  let _ ← after? ".h>" s
  some header

/-- The name of the first framework header in a text. -/
def findFrameworkHeader? : Text → Option Text
  | [] => none
  | c :: s => frameworkHeader? (c :: s) <|> findFrameworkHeader? s

/-- Reads an `#import` line. -/
def Import.parse? (line : Text) : Option Import := do
  let s ← after? "#import" (trimStart line)
  let s ← afterSpace? s
  if '\n' ∈ s then none
  else match findFrameworkHeader? s with
    | some header => some (.module header)
    | none => some .dropped

end Swiftward
