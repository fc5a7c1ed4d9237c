import Swiftward.Unicode.Age
import Swiftward.Unicode.Alphabetic
import Swiftward.Unicode.Mark
import Swiftward.Unicode.Number

/-!
# Spaces and word characters

The two classes that the grammar of a line is written with. A *space* is a character with the
property `White_Space`. A *word character* may stand in an identifier: it is alphabetic, a
combining mark, a decimal digit, a connector such as `_`, or one of the two join controls.

Words are spelt with the characters of Unicode 16; letters and numbers are otherwise those of
Unicode 17. So a letter that Unicode 17 added is alphanumeric and still ends a word.
-/

namespace Swiftward.Unicode

/-- Whether a character is white space. -/
def isSpace (c : Char) : Bool :=
  if c.val < 128 then c == ' ' || (decide (9 ≤ c.val) && decide (c.val ≤ 13))
  else inRanges [(0x85, 0x85), (0xA0, 0xA0), (0x1680, 0x1680), (0x2000, 0x200A), (0x2028, 0x2029),
    (0x202F, 0x202F), (0x205F, 0x205F), (0x3000, 0x3000)] c

/-- Whether a character connects the parts of a word, as `_` does. -/
def isConnector (c : Char) : Bool :=
  if c.val < 128 then c == '_'
  else inRanges [(0x203F, 0x2040), (0x2054, 0x2054), (0xFE33, 0xFE34), (0xFE4D, 0xFE4F),
    (0xFF3F, 0xFF3F)] c

/-- Whether a character asks its neighbours to join or not to join. -/
def isJoinControl (c : Char) : Bool :=
  c == '\u200c' || c == '\u200d'

/-- Whether a character may stand in a word. -/
def isWord (c : Char) : Bool :=
  if c.val < 128 then c.isAlphanum || c == '_'
  else !isRecent c &&
    (isAlphabetic c || isMark c || isDecimalDigit c || isConnector c || isJoinControl c)

/-- Whether a character is a letter or a number of any script. -/
def isAlphanumeric (c : Char) : Bool :=
  if c.val < 128 then c.isAlphanum else isAlphabetic c || isNumber c

end Swiftward.Unicode
