import Swiftward.Text.Trim

/-!
# Line sources

The lines of a text are read one after the other, with the next line open to inspection. A line is
fetched once, when it is first looked at: the white space at its end goes, and in dedent mode so
does one unit of indentation at its start. What a line has become when it was fetched does not
change when the mode changes afterwards.
-/

namespace Swiftward

/-- A line without one unit of `width` spaces, if it begins with that many. -/
def dedent (width : Nat) (line : Text) : Text :=
  if width ≤ (line.takeWhile (· = ' ')).length then line.drop width else line

/-- The state of reading a text line by line. -/
structure LineSource where
  /-- The lines that are not fetched yet. -/
  pending : List Text
  /-- The line that is fetched and not yet consumed. -/
  lookahead : Option Text
  dedenting : Bool
  /-- The width of a unit of indentation. -/
  width : Nat
  /-- The number of lines fetched so far. -/
  fetched : Nat
  deriving DecidableEq, Repr

/-- The usual width of a unit of indentation. -/
def defaultDedentWidth : Nat := 4

namespace LineSource

/-- The start of reading the given lines. -/
def ofLines (width : Nat) (lines : List Text) : LineSource := ⟨lines, none, false, width, 0⟩

/-- The number of the last line that was consumed, where the first line has number 1. -/
def lineNumber (s : LineSource) : Nat := s.fetched - s.lookahead.toList.length

/-- The number of lines that are not consumed yet. -/
def unread (s : LineSource) : Nat := s.pending.length + s.lookahead.toList.length

/-- The form in which a line is fetched. -/
def asFetched (s : LineSource) (line : Text) : Text :=
  if s.dedenting then dedent s.width (trimEnd line) else trimEnd line

/-- Switches dedent mode for the lines that are still to be fetched. -/
def setDedent (s : LineSource) (on : Bool) : LineSource := { s with dedenting := on }

/-- Fetches and consumes a line. -/
def fetch? (s : LineSource) : Option (Text × LineSource) :=
  match s.pending with
  | [] => none
  | line :: rest => some (s.asFetched line, { s with pending := rest, fetched := s.fetched + 1 })

/-- The source with the line that was looked at consumed. -/
def consume (s : LineSource) : LineSource := { s with lookahead := none }

/-- Consumes the next line. -/
def next? (s : LineSource) : Option (Text × LineSource) :=
  match s.lookahead with
  | some line => some (line, s.consume)
  | none => s.fetch?

/-- Looks at the next line. -/
def peek (s : LineSource) : Option Text × LineSource :=
  match s.lookahead, s.fetch? with
  | some line, _ => (some line, s)
  | none, some (line, s') => (some line, { s' with lookahead := some line })
  | none, none => (none, s)

/-- Consumes the next line if something can be made of it. -/
def nextWhere (f : Text → Option β) (s : LineSource) : Option β × LineSource :=
  match s.peek with
  | (none, s') => (none, s')
  | (some line, s') =>
    match f line with
    | some b => (some b, s'.consume)
    | none => (none, s')

/-- Consumes the next line if it passes a test. -/
def skipIf (p : Text → Bool) (s : LineSource) : Bool × LineSource :=
  let (skipped, s') := s.nextWhere fun line => if p line then some () else none
  (skipped.isSome, s')

/-! ### Each operation on the number of unread lines -/

@[simp] theorem unread_setDedent (s : LineSource) (on : Bool) : (s.setDedent on).unread = s.unread :=
  rfl

theorem unread_next? {s s' : LineSource} {line : Text} (h : s.next? = some (line, s')) :
    s'.unread + 1 = s.unread := by
  unfold next? at h
  split at h
  · next hl =>
    simp only [Option.some.injEq, Prod.mk.injEq] at h
    simp [← h.2, unread, consume, hl]
  · next hl =>
    unfold fetch? at h
    split at h
    · simp at h
    · next hp =>
      simp only [Option.some.injEq, Prod.mk.injEq] at h
      simp [← h.2, unread, hl, hp]

@[simp] theorem unread_peek (s : LineSource) : s.peek.2.unread = s.unread := by
  unfold peek
  split
  · rfl
  · next hl hf =>
    unfold fetch? at hf
    split at hf
    · simp at hf
    · next hp =>
      simp only [Option.some.injEq, Prod.mk.injEq] at hf
      simp [← hf.2, unread, hl, hp]
  · rfl

/-- A line that was looked at is there to be consumed. -/
theorem unread_consume_peek {s : LineSource} {line : Text} (h : s.peek.1 = some line) :
    s.peek.2.consume.unread + 1 = s.unread := by
  rw [← unread_peek s]
  unfold peek at h ⊢
  split <;> simp_all [unread, consume]

theorem unread_nextWhere_le (f : Text → Option β) (s : LineSource) :
    (s.nextWhere f).2.unread ≤ s.unread := by
  unfold nextWhere
  have hpeek := unread_peek s
  have hconsume := @unread_consume_peek s
  split
  · next h => simp_all
  · next line s' h =>
    simp only [h] at hpeek hconsume
    have := hconsume rfl
    split <;> simp only <;> omega

theorem unread_nextWhere_lt {f : Text → Option β} {s : LineSource}
    (h : (s.nextWhere f).1.isSome = true) : (s.nextWhere f).2.unread < s.unread := by
  unfold nextWhere at h ⊢
  have hconsume := @unread_consume_peek s
  split at h
  · simp at h
  · next line s' hp =>
    simp only [hp] at hconsume ⊢
    have := hconsume rfl
    split at h
    · simp only
      omega
    · simp at h

theorem unread_skipIf_le (p : Text → Bool) (s : LineSource) : (s.skipIf p).2.unread ≤ s.unread :=
  unread_nextWhere_le _ s

theorem unread_skipIf_lt {p : Text → Bool} {s : LineSource} (h : (s.skipIf p).1 = true) :
    (s.skipIf p).2.unread < s.unread :=
  unread_nextWhere_lt h

/-! ### Reading on -/

/-- Consumes the next lines while they pass a test. -/
def skipWhile (p : Text → Bool) (s : LineSource) : LineSource :=
  let skipped := s.skipIf p
  if _h : skipped.1 = true then skipped.2.skipWhile p else skipped.2
termination_by s.unread
decreasing_by exact unread_skipIf_lt _h

/-- Consumes lines up to and including the first that passes a test. The lines before that one are
given with their numbers. -/
def readUntil (stop : Text → Bool) (s : LineSource) : List (Nat × Text) × LineSource :=
  match _h : s.next? with
  | none => ([], s)
  | some (line, s') =>
    if stop line then ([], s')
    else
      let (lines, rest) := s'.readUntil stop
      ((s'.lineNumber, line) :: lines, rest)
termination_by s.unread
decreasing_by have := unread_next? _h; omega

theorem unread_skipWhile_le (p : Text → Bool) (s : LineSource) :
    (s.skipWhile p).unread ≤ s.unread := by
  fun_induction skipWhile p s with
  | case1 s skipped h ih => exact Nat.le_trans ih (unread_skipIf_le p s)
  | case2 s skipped h => exact unread_skipIf_le p s

theorem unread_readUntil_le (stop : Text → Bool) (s : LineSource) :
    (s.readUntil stop).2.unread ≤ s.unread := by
  fun_induction readUntil stop s with
  | case1 s h => exact Nat.le_refl _
  | case2 s line s' h hstop =>
    have := unread_next? h
    simp only
    omega
  | case3 s line s' h hstop lines rest hrest ih =>
    have := unread_next? h
    simp only [hrest] at ih ⊢
    omega

end LineSource

end Swiftward
