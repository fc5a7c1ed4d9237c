import Swiftward.File.Conversion

/-!
# Reports

What is printed for the files that were converted: the Swift text, with a comment before each file
if there are several; a record of each line in JSON; or just the number of lines.

The JSON is in the pretty form that version 1 of serde_json documents. Each level is indented by two
spaces, each entry is on a line of its own, a blank stands behind the colon of a key, and an array
without entries is `[]`. The keys of a record are in the order of its fields. In a string only what
JSON does not allow there is escaped: quotes, backslashes and the control characters before the
space, by their short escapes where JSON has some and by four lower-case hexadecimal digits
otherwise.
-/

namespace Swiftward

/-- The form of a report. -/
inductive ReportFormat where
  | swift
  | json
  | count
  deriving DecidableEq, Repr

namespace ReportFormat

/-- All formats, the usual one first. -/
def all : List ReportFormat := [swift, json, count]

/-- The name of a format. -/
def name : ReportFormat → Text
  | swift => "swift".toList
  | json => "json".toList
  | count => "count".toList

/-- The format with a name, in which the case of ASCII letters does not matter. -/
def parse? (s : Text) : Option ReportFormat := all.find? (·.name = s.map Char.toLower)

end ReportFormat

/-! ### JSON -/

/-- A hexadecimal digit, in lower case. -/
def hexDigit (n : Nat) : Char := Nat.digitChar n

/-- A character inside a JSON string. -/
def jsonChar (c : Char) : Text :=
  if c = '"' then "\\\"".toList
  else if c = '\\' then "\\\\".toList
  else if c = '\x08' then "\\b".toList
  else if c = '\x0c' then "\\f".toList
  else if c = '\n' then "\\n".toList
  else if c = '\r' then "\\r".toList
  else if c = '\t' then "\\t".toList
  else if c.toNat < 0x20 then
    "\\u00".toList ++ [hexDigit (c.toNat / 16), hexDigit (c.toNat % 16)]
  else [c]

/-- A JSON string. -/
def jsonString (s : Text) : Text := '"' :: s.flatMap jsonChar ++ ['"']

/-- The JSON record of a line. -/
def jsonRecord (path : Text) (line : OutputLine) : Text :=
  "  \x7b\n    \"file\": ".toList ++ jsonString path ++
    ",\n    \"line\": ".toList ++ Nat.toDigits 10 line.source ++
    ",\n    \"text\": ".toList ++ jsonString line.text ++ "\n  \x7d".toList

/-- A JSON array of records, each on lines of its own. -/
def jsonArray (records : List Text) : Text :=
  match records with
  | [] => "[]".toList
  | _ => "[\n".toList ++ ",\n".toList.intercalate records ++ "\n]".toList

/-! ### Formats -/

/-- The Swift text of all files. -/
def swiftReport (files : List ConvertedFile) : Text :=
  files.flatMap fun file =>
    (if files.length > 1 then "// ".toList ++ file.path ++ ['\n'] else []) ++ file.text

/-- The JSON records of all lines. -/
def jsonReport (files : List ConvertedFile) : Text :=
  jsonArray (files.flatMap fun file => file.lines.map (jsonRecord file.path))

/-- The number of lines in all files. -/
def countReport (files : List ConvertedFile) : Text :=
  Nat.toDigits 10 (files.flatMap (·.lines)).length ++ ['\n']

/-- The report on converted files. -/
def report (format : ReportFormat) (files : List ConvertedFile) : Text :=
  match format with
  | .swift => swiftReport files
  | .json => jsonReport files
  | .count => countReport files

end Swiftward
