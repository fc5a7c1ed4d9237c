import Swiftward.Text.Symbol
import Swiftward.Unicode.Case

/-!
# Labels

An argument label made from the tail of a method name begins in lower case, `Name` becoming
`name`, unless that tail begins with an acronym such as `URL`.
-/

namespace Swiftward

/-- Whether a word begins with two capitals that a lower-case letter does not follow. -/
def beginsWithAcronym : Text → Bool
  | _ :: second :: rest => Unicode.isUppercase second && rest.head?.all Unicode.isUppercase
  | _ => false

/-- A word with its first letter in lower case, acronyms excepted. -/
def downcaseFirst (word : Text) : Text :=
  if beginsWithAcronym word then word
  else match word with
    | [] => []
    | first :: rest => Unicode.lowercase first ++ rest

end Swiftward
