import Swiftward.CommandLine.Options
import Swiftward.File.Wildcard.Search
import Swiftward.Report

/-!
# The program

A run converts the files among its arguments, or its standard input if it has none, and prints a
report or writes each file beside its source. What can be decided without reading a source is
decided first: an unknown format, targets that clash and a lack of sources end the run before
anything is printed or written. A source that cannot be read does not keep the others from being
converted.

The outcome of a run is what it prints on standard output, its errors and its exit code. Two things
that a run prints beside its errors are left out: what it logs, and the three lines on usage that
come before the error of a run without sources at a terminal.
-/

namespace Swiftward

/-- What a run prints and how it ends. -/
structure Outcome where
  exitCode : Nat
  output : Text
  /-- The errors, each of which is printed on a line. -/
  errors : List Text
  deriving DecidableEq, Repr

/-- The text of the errors. -/
def Outcome.errorText (outcome : Outcome) : Text :=
  unlines (outcome.errors.map ("error: ".toList ++ ·))

/-- Why a run ends without a report. -/
inductive RunError where
  | unknownFormat (name : Text)
  | clash (group : TargetGroup)
  /-- There are no files, and a person sits at standard input. Only the error is kept of what the
  run prints then, not the reminder of the usage before it. -/
  | noInput
  | nothingToWrite
  | noSources
  deriving DecidableEq, Repr

/-- The wording of a run error. -/
def RunError.message : RunError → Text
  | unknownFormat name =>
    "invalid format '".toList ++ name ++ "'. Valid formats: ".toList ++
      ", ".toList.intercalate (ReportFormat.all.map ReportFormat.name)
  | clash group => (FileError.clash group).messageWithCause
  | noInput => "no input files".toList
  | nothingToWrite => "--write needs input files".toList
  | noSources => "no Objective-C files among the inputs".toList

/-- The outcome of a run that ends without a report. -/
def Outcome.failed (error : RunError) : Outcome := ⟨1, [], [error.message]⟩

/-- The lines of a byte sequence that is read as UTF-8, up to the first that is not. The program
takes that line for the end of its input when it comes to it, but not when it comes back: a unit
that has looked for a line there goes on with the lines behind, which are left out here. So for a
byte sequence that is not UTF-8 these are the lines that the program reads only if that line is met
where a unit would begin. -/
def readableLines (bytes : ByteArray) : List Text :=
  let decoded := (pieces 10 bytes.toList).map fun piece => decodeText? ⟨piece.toArray⟩
  let readable := (decoded.takeWhile Option.isSome).map (·.getD [])
  linesOfPieces (if readable.length = decoded.length then readable else readable ++ [[]])

/-- The report on standard input. -/
def reportInput (format : ReportFormat) (width : Nat) (input : ByteArray) : Text :=
  report format [⟨"<stdin>".toList, convertLines width (readableLines input)⟩]

/-- The error that tells how many of the sources failed, if any did. -/
def failureSummary (failed total : Nat) : List Text :=
  if failed = 0 then []
  else [Nat.toDigits 10 failed ++ " of ".toList ++ Nat.toDigits 10 total ++
    " files could not be translated".toList]

variable {m : Type → Type} [Monad m] [FileSystem m]

/-- Writes converted files in order, up to the first that cannot be written. -/
def writeTargets : List ConvertedFile → m (Option FileError)
  | [] => return none
  | file :: rest => do
    match ← writeTarget file with
    | .ok _ => writeTargets rest
    | .error error => return some error

/-- The files that were converted, and the errors of the others. -/
def partitionResults (results : List (Except FileError ConvertedFile)) :
    List ConvertedFile × List FileError :=
  (results.filterMap fun
    | .ok file => some file
    | .error _ => none,
  results.filterMap fun
    | .ok _ => none
    | .error error => some error)

/-- Converts the given sources. -/
def runSources (format : ReportFormat) (options : Options) (sources : List Text) : m Outcome := do
  let (files, failures) := partitionResults (← sources.mapM (convertFile options.dedentWidth))
  let errors := failures.map FileError.message
  let summary := failureSummary failures.length sources.length
  let exitCode := if failures = [] then 0 else 1
  if options.write then
    match ← writeTargets files with
    | some error => return ⟨1, [], errors ++ [error.messageWithCause]⟩
    | none => return ⟨exitCode, [], errors ++ summary⟩
  else return ⟨exitCode, report format files, errors ++ summary⟩

/-- The standard input of a run. -/
structure Input (m : Type → Type) where
  /-- Whether it is a terminal, from which nothing is read. -/
  isTerminal : Bool
  read : m ByteArray

/-- Runs the program with the given options. Standard input is read only if it is needed. -/
def run (options : Options) (input : Input m) : m Outcome := do
  match ReportFormat.parse? options.output with
  | none => return .failed (.unknownFormat options.output)
  | some format =>
    let selected := (← expandPatterns options.files).filter isSource
    match if options.write then resolveTargets selected else .ok selected with
    | .error group => return .failed (.clash group)
    | .ok sources =>
      if options.files = [] then
        if input.isTerminal then return .failed .noInput
        else if options.write then return .failed .nothingToWrite
        else return ⟨0, reportInput format options.dedentWidth (← input.read), []⟩
      else if sources = [] then return .failed .noSources
      else runSources format options sources

/-- The text for the option `--version`. -/
def versionText : Text := "swiftier 0.1.0\n".toList

/-- The text for the option `--help`, laid out as clap does it: as the help of `--dedent-width` does
not fit beside the longest option in a line of 100 characters, all options have theirs on the next
line. -/
def helpText : Text :=
  unlines <| List.map String.toList [
    "Quick and dirty Objective-C to Swift translator",
    "",
    "Usage: swiftier [OPTIONS] [FILES]...",
    "",
    "Arguments:",
    "  [FILES]...  Files to translate (supports glob patterns like \"src/**/*.m\")",
    "",
    "Options:",
    "  -o, --output <OUTPUT>",
    "          Output format: swift (default), json, count [default: swift]",
    "  -w, --write",
    "          Write <name>.swift next to each input instead of printing",
    "      --dedent-width <DEDENT_WIDTH>",
    "          Spaces removed per line when unwrapping an `if (self)` initializer guard [default: 4]",
    "  -c, --concurrency <CONCURRENCY>",
    "          Number of parallel workers",
    "  -v, --verbose",
    "          Show verbose output",
    "  -h, --help",
    "          Print help",
    "  -V, --version",
    "          Print version",
    "",
    "EXAMPLES:",
    "    # Translate one file to stdout",
    "    swiftier Widget.m",
    "",
    "    # Write Widget.swift next to every implementation file",
    "    swiftier \"src/**/*.m\" --write",
    "",
    "    # Translate from stdin",
    "    cat Widget.m | swiftier",
    "",
    "    # Count emitted lines across a project",
    "    swiftier \"src/**/*.m\" -o count",
    "",
    "The output is a starting point for a manual port; expect to fix it up by hand."]

/-- Runs the program with the given arguments. -/
def runProgram (arguments : List Text) (input : Input m) : m Outcome :=
  match Invocation.ofArguments arguments with
  | .run options => run options input
  | .version => return ⟨0, versionText, []⟩
  | .help => return ⟨0, helpText, []⟩
  | .misuse error => return ⟨2, [], [error.message]⟩

end Swiftward
