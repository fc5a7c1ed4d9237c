import Swiftward.Conversion.Rules

/-!
# Units and blocks

A unit of conversion is one line with everything that its construct reads on. The header of a
conditional whose body follows reads a block, which is a sequence of units up to a bound:

* the body of an ordinary conditional ends with the line that ends a statement, or with a nested
  conditional that reads a body of its own;
* the body of a guard `if (self) {` ends before the first line that is not indented as deep as the
  guard. It is read in dedent mode, and the guard, its closing brace and a `return self;` behind it
  are dropped.
-/

namespace Swiftward

/-- Where a block ends. -/
inductive BlockBound where
  /-- Behind a line that ends a statement. -/
  | statement
  /-- Before a line that does not begin with the indentation. -/
  | indented (indent : Text)
  deriving DecidableEq, Repr

namespace BlockBound

/-- Whether the block ends before a line. -/
def endsBefore : BlockBound → Text → Bool
  | statement, _ => false
  | indented indent, line => !line.isEmpty && (strip? indent line).isNone

/-- Whether the block ends behind the unit that begins with a line. -/
def endsBehind : BlockBound → Text → Bool
  | statement, line => endsStatement line || opensUnbracedConditional line
  | indented _, _ => false

end BlockBound

/-- Whether a line begins with a closing brace. -/
def closesBlock (line : Text) : Bool := (trimStart line).head? = some '\x7d'

/-- The source behind a guard: its closing brace and a `return self;` are skipped. -/
def skipGuardEnd (s : LineSource) : LineSource :=
  ((s.skipIf closesBlock).2.skipIf isReturnSelf).2

theorem unread_skipGuardEnd_le (s : LineSource) : (skipGuardEnd s).unread ≤ s.unread :=
  Nat.le_trans (LineSource.unread_skipIf_le ..) (LineSource.unread_skipIf_le ..)

namespace Conversion

/-- The conversion of a guard, given that of its body: the mode goes back to what it was before,
and the end of the guard is skipped. -/
def endGuard {bound : Nat} (dedenting : Bool) (body : Conversion bound) : Conversion bound :=
  { lines := body.lines
    source := skipGuardEnd (body.source.setDedent dedenting)
    unread_lt := Nat.lt_of_le_of_lt (unread_skipGuardEnd_le _) body.unread_lt }

/-- The conversion of a conditional, given its header and the conversion of its body. -/
def enclose {bound : Nat} (header : OutputLine) (indent : Text) (body : Conversion bound) :
    Conversion bound :=
  { body with lines := header :: body.lines ++ [body.source.emit (indent ++ ['\x7d'])] }

/-- Nothing, when the next line has been looked at. -/
def looked (s : LineSource) : Conversion (s.unread + 1) :=
  ⟨[], s.peek.2, by simp⟩

end Conversion

theorem unread_of_next? {s rest : LineSource} {line : Text} (h : s.next? = some (line, rest)) :
    rest.unread + 1 ≤ s.unread :=
  Nat.le_of_eq (LineSource.unread_next? h)

theorem unread_behind_brace (s : LineSource) :
    (s.skipIf isLoneBrace).2.unread + 1 ≤ s.unread + 1 :=
  Nat.succ_le_succ (s.unread_skipIf_le isLoneBrace)

theorem unread_peek_le (s : LineSource) : s.peek.2.unread ≤ s.unread + 1 := by
  simp

theorem unread_behind_unit {s : LineSource} (unit : Conversion s.peek.2.unread) :
    unit.source.unread < s.unread := by
  simpa using unit.unread_lt

theorem unread_behind_unit_le {s : LineSource} (unit : Conversion s.peek.2.unread) :
    unit.source.unread + 1 ≤ s.unread + 1 :=
  Nat.succ_le_succ (Nat.le_of_lt (unread_behind_unit unit))

mutual

/-- Converts the next unit. There is none at the end of the source. -/
def convertNext (s : LineSource) : Option (Conversion s.unread) :=
  match _h : s.next? with
  | none => none
  | some (line, rest) => some ((convertUnit line rest).weaken (unread_of_next? _h))
termination_by 4 * s.unread
decreasing_by
  have := unread_of_next? _h
  omega

/-- Converts the unit whose first line has just been consumed. -/
def convertUnit (line : Text) (s : LineSource) : Conversion (s.unread + 1) :=
  let (code, comment) := splitComment line
  if code = [] then .done [s.emit comment] s
  else match Construct.ofCode code with
    | .imported (.module name) => .done [s.emit ("import ".toList ++ name ++ comment)] s
    | .imported .dropped => .done [] s
    | .implementation header => convertImplementation header comment s
    | .interface _ => skipInterface s
    | .blockEnd => .done [s.emit ('\x7d' :: comment)] s
    | .synthesize => skipSynthesize code s
    | .method header => convertMethod header comment s
    | .statement (.done text) => .done [s.emit (text ++ comment)] s
    | .statement (.conditional c) => convertConditional c comment s
termination_by 4 * s.unread + 3

/-- Converts a conditional whose header has just been consumed. -/
def convertConditional (c : Conditional) (comment : Text) (s : LineSource) :
    Conversion (s.unread + 1) :=
  let header := s.emit (c.render ++ comment)
  if c.isSelfGuard then
    (convertBlock (.indented c.indent) (s.setDedent true)).endGuard s.dedenting
  else if c.body ≠ .follows then .done [header] s
  else
    let behind :=
      if (s.skipIf isLoneBrace).1 then .done [header] (s.skipIf isLoneBrace).2
      else (convertBlock .statement (s.skipIf isLoneBrace).2).enclose header c.indent
    behind.weaken (unread_behind_brace s)
termination_by 4 * s.unread + 2
decreasing_by
  · simp
  · have := unread_behind_brace s
    omega

/-- Converts units up to a bound or the end of the source. -/
def convertBlock (bound : BlockBound) (s : LineSource) : Conversion (s.unread + 1) :=
  match s.peek.1 with
  | none => .looked s
  | some line =>
    if bound.endsBefore line then .looked s
    else match convertNext s.peek.2 with
      | none => .looked s
      | some unit =>
        if bound.endsBehind line then unit.weaken (unread_peek_le s)
        else ((convertBlock bound unit.source).prepend unit.lines).weaken
          (unread_behind_unit_le unit)
termination_by 4 * s.unread + 1
decreasing_by
  · simp
  · have := unread_behind_unit unit
    omega

end

end Swiftward
