import Swiftward.Conversion.LineSource

/-!
# Options

The arguments of the program are read by the rules that version 4 of clap documents for a command
without subcommands, from left to right. An option may carry its value along, as in `--output=json`,
`-ojson` or `-o=json`, or have it in the next argument; options of one letter may share an argument,
as in `-wo json`. An argument that begins with a dash and is not just that is never the value of the
option before it, and after `--` nothing is an option. Every option may be given once, and its long
name is not to be shortened. The first `--help` or `--version` ends the reading, and so does the
first misuse. Numbers are read as those of 64 bits are, with an optional plus sign and nothing else
but digits.
-/

namespace Swiftward

/-- What the options ask for. -/
structure Options where
  /-- The name of the report format. -/
  output : Text
  write : Bool
  dedentWidth : Nat
  /-- The number of workers, on which nothing depends. -/
  concurrency : Option Nat
  verbose : Bool
  files : List Text
  deriving DecidableEq, Repr

/-- What is wrong with the arguments. -/
inductive UsageError where
  | unknownOption (name : Text)
  | missingValue (name : Text)
  | unexpectedValue (name value : Text)
  | invalidNumber (name value : Text)
  | repeated (name : Text)
  deriving DecidableEq, Repr

/-- The wording of a usage error. It is that of clap in short: a misused option is named without the
place for its value, and there is no reminder of the usage. -/
def UsageError.message : UsageError → Text
  | unknownOption name => "unexpected argument '".toList ++ name ++ "' found".toList
  | missingValue name => "a value is required for '".toList ++ name ++ "' but none was given".toList
  | unexpectedValue name value =>
    "unexpected value '".toList ++ value ++ "' for '".toList ++ name ++ "'".toList
  | invalidNumber name value =>
    "invalid value '".toList ++ value ++ "' for '".toList ++ name ++ "'".toList
  | repeated name => "the argument '".toList ++ name ++ "' cannot be used multiple times".toList

/-- What the arguments ask for. -/
inductive Invocation where
  | run (options : Options)
  | version
  | help
  | misuse (error : UsageError)
  deriving DecidableEq, Repr

/-- An option by its long name. -/
inductive OptionName where
  | output
  | write
  | dedentWidth
  | concurrency
  | verbose
  | version
  | help
  deriving DecidableEq, Repr

namespace OptionName

/-- All options. -/
def all : List OptionName := [output, write, dedentWidth, concurrency, verbose, version, help]

/-- The name behind two dashes. -/
def long : OptionName → Text
  | output => "output".toList
  | write => "write".toList
  | dedentWidth => "dedent-width".toList
  | concurrency => "concurrency".toList
  | verbose => "verbose".toList
  | version => "version".toList
  | help => "help".toList

/-- The letter behind one dash. -/
def short? : OptionName → Option Char
  | output => some 'o'
  | write => some 'w'
  | dedentWidth => none
  | concurrency => some 'c'
  | verbose => some 'v'
  | version => some 'V'
  | help => some 'h'

/-- Whether the option has a value. -/
def hasValue : OptionName → Bool
  | output => true
  | dedentWidth => true
  | concurrency => true
  | _ => false

/-- The name as it is written. -/
def shown (name : OptionName) : Text := '-' :: '-' :: name.long

end OptionName

/-- Numbers of 64 bits are below 2^64. -/
def numberLimit : Nat := 0x10000000000000000

/-- A number of 64 bits, with an optional plus sign. -/
def parseNumber? (s : Text) : Option Nat :=
  let digits := match s with
    | '+' :: rest => rest
    | _ => s
  if digits = [] ∨ !digits.all Char.isDigit then none
  else
    let n := digits.foldl (fun n c => 10 * n + (c.toNat - '0'.toNat)) 0
    if n < numberLimit then some n else none

/-- What has been read so far. -/
structure Reading where
  /-- The options with a value, and these values. -/
  values : List (OptionName × Text)
  flags : List OptionName
  files : List Text

namespace Reading

/-- Nothing. -/
def empty : Reading := ⟨[], [], []⟩

/-- The value of an option. -/
def value? (r : Reading) (name : OptionName) : Option Text := r.values.lookup name

/-- One more option with its value. -/
def addValue (r : Reading) (name : OptionName) (value : Text) : Except Invocation Reading :=
  if (r.value? name).isSome then .error (.misuse (.repeated name.shown))
  else if name ≠ .output ∧ parseNumber? value = none then
    .error (.misuse (.invalidNumber name.shown value))
  else .ok { r with values := r.values ++ [(name, value)] }

/-- One more option without a value. -/
def addFlag (r : Reading) (name : OptionName) : Except Invocation Reading :=
  if name = .version then .error .version
  else if name = .help then .error .help
  else if name ∈ r.flags then .error (.misuse (.repeated name.shown))
  else .ok { r with flags := r.flags ++ [name] }

/-- One more file. -/
def addFile (r : Reading) (file : Text) : Reading := { r with files := r.files ++ [file] }

/-- The options that have been read. -/
def options (r : Reading) : Options where
  output := (r.value? .output).getD "swift".toList
  write := r.flags.contains .write
  dedentWidth := ((r.value? .dedentWidth).bind parseNumber?).getD defaultDedentWidth
  concurrency := (r.value? .concurrency).bind parseNumber?
  verbose := r.flags.contains .verbose
  files := r.files

/-- Reads an argument of one-letter options, given what stands behind its dash. If the last of them
waits for a value in the next argument, that option is given too. -/
def addShort (r : Reading) : Text → Except Invocation (Reading × Option OptionName)
  | [] => .ok (r, none)
  | c :: rest =>
    match OptionName.all.find? (·.short? = some c) with
    | none => .error (.misuse (.unknownOption ['-', c]))
    | some name =>
      if name.hasValue then
        match rest with
        | [] => .ok (r, some name)
        | '=' :: value => (r.addValue name value).map (·, none)
        | value => (r.addValue name value).map (·, none)
      else do
        let r ← r.addFlag name
        r.addShort rest

/-- Reads an argument behind two dashes. If it waits for a value in the next argument, the option
is given too. -/
def addLong (r : Reading) (argument : Text) : Except Invocation (Reading × Option OptionName) :=
  let long := argument.takeWhile (· ≠ '=')
  match OptionName.all.find? (·.long = long), argument.dropWhile (· ≠ '=') with
  | none, _ => .error (.misuse (.unknownOption ('-' :: '-' :: long)))
  | some name, [] =>
    if name.hasValue then .ok (r, some name) else (r.addFlag name).map (·, none)
  | some name, _ :: value =>
    if name.hasValue then (r.addValue name value).map (·, none)
    else .error (.misuse (.unexpectedValue name.shown value))

/-- Whether an argument is read as options. -/
def isOption : Text → Bool
  | '-' :: _ :: _ => true
  | _ => false

/-- Reads all arguments. If an option is waiting, the next argument is its value. -/
def addAll (r : Reading) (waiting : Option OptionName) : List Text → Except Invocation Reading
  | [] =>
    match waiting with
    | some name => .error (.misuse (.missingValue name.shown))
    | none => .ok r
  | argument :: rest =>
    match waiting with
    | some name =>
      if isOption argument then .error (.misuse (.missingValue name.shown))
      else do
        let r ← r.addValue name argument
        r.addAll none rest
    | none =>
      match argument with
      | ['-', '-'] => .ok (rest.foldl addFile r)
      | '-' :: '-' :: long => do
        let (r, waiting) ← r.addLong long
        r.addAll waiting rest
      | '-' :: c :: letters => do
        let (r, waiting) ← r.addShort (c :: letters)
        r.addAll waiting rest
      | file => (r.addFile file).addAll none rest

end Reading

/-- Reads the arguments of the program. -/
def Invocation.ofArguments (arguments : List Text) : Invocation :=
  match Reading.empty.addAll none arguments with
  | .ok reading => run reading.options
  | .error invocation => invocation

end Swiftward
