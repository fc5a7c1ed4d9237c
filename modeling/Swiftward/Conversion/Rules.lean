import Swiftward.Conversion.Construct
import Swiftward.Conversion.LineSource
import Swiftward.Declaration.Field

/-!
# Constructs that read on

The constructs that look beyond their own line but never inside a statement: lists of instance
variables, skipped declarations, and method headers on several lines. A line of output carries the
number of the last line that had been consumed when it was made.
-/

namespace Swiftward

/-- A line of Swift, and the number of the line it was made from. -/
structure OutputLine where
  source : Nat
  text : Text
  deriving DecidableEq, Repr

/-- A line of output made at this point. -/
def LineSource.emit (s : LineSource) (text : Text) : OutputLine := ⟨s.lineNumber, text⟩

/-- Lines of output and what is left of the source, of which fewer than `bound` lines are unread.
The bound is what lets the conversion of a block recurse. -/
structure Conversion (bound : Nat) where
  lines : List OutputLine
  source : LineSource
  unread_lt : source.unread < bound

namespace Conversion

/-- The same conversion under a larger bound. -/
def weaken {bound bound' : Nat} (c : Conversion bound) (h : bound ≤ bound') : Conversion bound' :=
  ⟨c.lines, c.source, Nat.lt_of_lt_of_le c.unread_lt h⟩

@[simp] theorem lines_weaken {bound bound' : Nat} (c : Conversion bound) (h : bound ≤ bound') :
    (c.weaken h).lines = c.lines := rfl

@[simp] theorem source_weaken {bound bound' : Nat} (c : Conversion bound) (h : bound ≤ bound') :
    (c.weaken h).source = c.source := rfl

/-- Lines of output that nothing more had to be read for. -/
def done (lines : List OutputLine) (s : LineSource) : Conversion (s.unread + 1) :=
  ⟨lines, s, Nat.lt_succ_self _⟩

@[simp] theorem lines_done (lines : List OutputLine) (s : LineSource) :
    (done lines s).lines = lines := rfl

@[simp] theorem source_done (lines : List OutputLine) (s : LineSource) :
    (done lines s).source = s := rfl

/-- The same conversion with more lines before it. -/
def prepend {bound : Nat} (lines : List OutputLine) (c : Conversion bound) : Conversion bound :=
  { c with lines := lines ++ c.lines }

@[simp] theorem lines_prepend {bound : Nat} (lines : List OutputLine) (c : Conversion bound) :
    (c.prepend lines).lines = lines ++ c.lines := rfl

@[simp] theorem source_prepend {bound : Nat} (lines : List OutputLine) (c : Conversion bound) :
    (c.prepend lines).source = c.source := rfl

end Conversion

/-- Whether a line is an opening brace and nothing else. -/
def isLoneBrace (line : Text) : Bool := trim line = ['\x7b']

/-- The instance variables up to the closing brace of their list. -/
def convertFields (s : LineSource) : Conversion (s.unread + 1) :=
  let body := s.readUntil fun line => trim (splitComment line).1 = ['\x7d']
  { lines := body.1.filterMap fun (number, line) =>
      let (code, comment) := splitComment line
      (Field.parse? code).map fun field => ⟨number, field.render ++ comment⟩
    source := body.2
    unread_lt := Nat.lt_succ_of_le (s.unread_readUntil_le _) }

/-- The header of an implementation and its list of instance variables, if there is one. -/
def convertImplementation (header : ImplementationHeader) (comment : Text) (s : LineSource) :
    Conversion (s.unread + 1) :=
  let first := s.emit (header.render ++ comment)
  if header.opensFields then (convertFields s).prepend [first, s.emit []]
  else
    let skipped := s.skipIf isLoneBrace
    let behind :=
      if skipped.1 then (convertFields skipped.2).prepend [first, skipped.2.emit []]
      else .done [first] skipped.2
    behind.weaken (Nat.succ_le_succ (s.unread_skipIf_le isLoneBrace))

/-- Skips an interface, and the blank lines behind its end. -/
def skipInterface (s : LineSource) : Conversion (s.unread + 1) :=
  { lines := []
    source := (s.readUntil isBlockEnd).2.skipWhile List.isEmpty
    unread_lt := Nat.lt_succ_of_le
      (Nat.le_trans (LineSource.unread_skipWhile_le ..) (s.unread_readUntil_le _)) }

/-- Skips a declaration that begins with `code` and may go on over several lines. -/
def skipSynthesize (code : Text) (s : LineSource) : Conversion (s.unread + 1) :=
  if endsStatement code then .done [] s
  else ⟨[], (s.readUntil endsStatement).2, Nat.lt_succ_of_le (s.unread_readUntil_le _)⟩

/-- A method header with all the lines that continue it, and what is left of the source. -/
def readContinuations (header : MethodHeader) (s : LineSource) : MethodHeader × LineSource :=
  if header.acceptsContinuation then
    match _h : s.nextWhere Continuation.parse? with
    | (some continuation, s') => readContinuations (header.continueWith continuation) s'
    | (none, s') => (header, s')
  else (header, s)
termination_by s.unread
decreasing_by
  have := @LineSource.unread_nextWhere_lt _ Continuation.parse? s (by simp [_h])
  simpa [_h] using this

/-- A comment put behind the first of several lines. -/
def commentFirst (comment : Text) : List Text → List Text
  | [] => []
  | first :: rest => (first ++ comment) :: rest

theorem unread_readContinuations_le (header : MethodHeader) (s : LineSource) :
    (readContinuations header s).2.unread ≤ s.unread := by
  fun_induction readContinuations header s with
  | case1 header s haccepts continuation s' h ih =>
    have := s.unread_nextWhere_le Continuation.parse?
    rw [h] at this
    exact Nat.le_trans ih this
  | case2 header s haccepts s' h =>
    have := s.unread_nextWhere_le Continuation.parse?
    rwa [h] at this
  | case3 header s haccepts => exact Nat.le_refl _

/-- A method header with all its lines, rendered once all of them are read. -/
def convertMethod (header : MethodHeader) (comment : Text) (s : LineSource) :
    Conversion (s.unread + 1) :=
  let read := readContinuations header s
  { lines := (commentFirst comment read.1.render).map read.2.emit
    source := read.2
    unread_lt := Nat.lt_succ_of_le (unread_readContinuations_le header s) }

end Swiftward
