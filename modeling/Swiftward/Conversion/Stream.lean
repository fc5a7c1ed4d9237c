import Swiftward.Conversion.Block
import Swiftward.Text.Lines

/-!
# Streams of output

Output is made unit by unit, so a consumer sees the lines of a unit before the source is read any
further than one line ahead. A converter hands its output out in whole units or line by line.
-/

namespace Swiftward

/-- What became of a unit. -/
inductive Step where
  /-- Lines of output, of which there is at least one. -/
  | emitted (lines : List OutputLine)
  /-- Nothing: the unit was dropped. -/
  | nothing
  /-- There was no unit left. -/
  | exhausted
  deriving DecidableEq, Repr

/-- The state of handing out the output for a source. -/
structure Converter where
  source : LineSource
  /-- The lines of the last unit that are not handed out yet. -/
  ready : List OutputLine
  deriving DecidableEq, Repr

namespace Converter

/-- A converter of the given lines. -/
def ofLines (width : Nat) (lines : List Text) : Converter := ⟨.ofLines width lines, []⟩

/-- Converts the next unit and hands it out whole. Lines that are ready stay so. -/
def step (c : Converter) : Step × Converter :=
  match convertNext c.source with
  | none => (.exhausted, c)
  | some unit =>
    let c' := { c with source := unit.source }
    match unit.lines with
    | [] => (.nothing, c')
    | lines => (.emitted lines, c')

/-- Hands out the next line, converting units as long as none is ready. -/
def next (c : Converter) : Option OutputLine × Converter :=
  match c.ready with
  | line :: ready => (some line, { c with ready := ready })
  | [] =>
    match convertNext c.source with
    | none => (none, c)
    | some unit =>
      have _hunit := unit.unread_lt
      next ⟨unit.source, unit.lines⟩
termination_by c.source.unread

end Converter

/-- The output for a source, unit by unit. -/
def convertUnits (s : LineSource) : List (List OutputLine) :=
  match convertNext s with
  | none => []
  | some unit =>
    have _hunit := unit.unread_lt
    unit.lines :: convertUnits unit.source
termination_by s.unread

/-- The output for a list of lines. -/
def convertLines (width : Nat) (source : List Text) : List OutputLine :=
  (convertUnits (.ofLines width source)).flatten

/-- The text of lines of output, each with a line feed behind it. -/
def outputText (output : List OutputLine) : Text := unlines (output.map (·.text))

/-- The Swift text for an Objective-C text. -/
def convertText (width : Nat) (source : Text) : Text :=
  outputText (convertLines width (lines source))

end Swiftward
