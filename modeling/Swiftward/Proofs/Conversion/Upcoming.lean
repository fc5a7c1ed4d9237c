import Mathlib.Data.List.TakeWhile
import Mathlib.Tactic.Common
import Swiftward.Conversion.LineSource

/-!
# The lines to come

A line is fetched when it is first reached, in the mode of that moment, and what it has become is
not changed by anything that happens before it is consumed. So each line that a source still has to
give is a function of the mode in which it is first reached (`LineSource.upcoming`), and for a line
that has been looked at this function is constant.

However a source is accessed, its lines come in order, each in the form that the mode gave it when
it was first reached (`LineSource.access_afterAll`).
-/

namespace Swiftward

/-- A line as it is fetched: without the white space at its end and, in dedent mode, without a unit
of indentation if it begins with one. -/
def fetchedAs (width : Nat) (dedenting : Bool) (line : Text) : Text :=
  if dedenting ∧ 0 < width ∧ List.replicate width ' ' <+: trimEnd line then
    (trimEnd line).drop width
  else trimEnd line

lemma replicate_prefix_iff {α : Type} [DecidableEq α] (n : Nat) (a : α) (s : List α) :
    List.replicate n a <+: s ↔ n ≤ (s.takeWhile (· = a)).length := by
  constructor
  · rintro ⟨rest, rfl⟩
    rw [List.takeWhile_append_of_pos (by simp)]
    simp
  · intro h
    have htake : (s.takeWhile (· = a)).take n = List.replicate n a := by
      rw [List.eq_replicate_iff]
      refine ⟨by rw [List.length_take, Nat.min_eq_left h], ?_⟩
      intro b hb
      simpa using List.mem_takeWhile_imp (List.mem_of_mem_take hb)
    rw [← htake]
    exact (List.take_prefix n _).trans (List.takeWhile_prefix _)

lemma dedent_eq (width : Nat) (line : Text) :
    dedent width line =
      if 0 < width ∧ List.replicate width ' ' <+: line then line.drop width else line := by
  simp only [dedent, replicate_prefix_iff]
  rcases Nat.eq_zero_or_pos width with rfl | hwidth
  · simp
  · simp [hwidth]

/-- A line is de-indented by taking away white space. -/
lemma exists_dedent (width : Nat) (line : Text) :
    ∃ indent, (∀ c ∈ indent, isSpace c = true) ∧ line = indent ++ dedent width line := by
  unfold dedent
  split_ifs with hwidth
  · refine ⟨line.take width, ?_, (List.take_append_drop width line).symm⟩
    intro c hc
    have hfront : line.take width <+: line.takeWhile (· = ' ') :=
      List.prefix_of_prefix_length_le (List.take_prefix ..) (List.takeWhile_prefix _)
        ((List.length_take_le ..).trans hwidth)
    have hspace : c = ' ' := by simpa using List.mem_takeWhile_imp (hfront.subset hc)
    rw [hspace]
    decide
  · exact ⟨[], by simp, rfl⟩

@[simp] lemma fetchedAs_false (width : Nat) (line : Text) :
    fetchedAs width false line = trimEnd line := by
  simp [fetchedAs]

@[simp] lemma fetchedAs_true (width : Nat) (line : Text) :
    fetchedAs width true line = dedent width (trimEnd line) := by
  rw [dedent_eq, fetchedAs]
  simp

namespace LineSource

lemma asFetched_eq (s : LineSource) (line : Text) :
    s.asFetched line = fetchedAs s.width s.dedenting line := by
  rw [asFetched]
  cases s.dedenting <;> simp

/-! ### The view of a source -/

/-- The lines that a source still has to give, each as a function of the mode in which it is first
reached. -/
def upcoming (s : LineSource) : List (Bool → Text) :=
  s.lookahead.toList.map (fun text _ => text) ++
    s.pending.map fun line on => fetchedAs s.width on line

/-- Every line that was looked at has been fetched. -/
def Counted (s : LineSource) : Prop := s.lookahead.toList.length ≤ s.fetched

lemma counted_ofLines (width : Nat) (lines : List Text) : (ofLines width lines).Counted :=
  Nat.zero_le 0

@[simp] lemma upcoming_ofLines (width : Nat) (lines : List Text) :
    (ofLines width lines).upcoming = lines.map fun line on => fetchedAs width on line := rfl

@[simp] lemma upcoming_setDedent (s : LineSource) (on : Bool) :
    (s.setDedent on).upcoming = s.upcoming := rfl

@[simp] lemma lineNumber_setDedent (s : LineSource) (on : Bool) :
    (s.setDedent on).lineNumber = s.lineNumber := rfl

/-- The next line is `text`, and `t` is the source when it is consumed. -/
structure Consumes (s : LineSource) (text : Text) (t : LineSource) : Prop where
  upcoming_eq : ∃ first, s.upcoming = first :: t.upcoming ∧ first s.dedenting = text
  dedenting_eq : t.dedenting = s.dedenting
  counted : t.Counted
  lineNumber_eq : s.Counted → t.lineNumber = s.lineNumber + 1

/-- The next line is `text`, and `t` is the source when it has been looked at. -/
structure LooksAt (s : LineSource) (text : Text) (t : LineSource) : Prop where
  upcoming_eq : ∃ first more, s.upcoming = first :: more ∧ first s.dedenting = text ∧
    t.upcoming = (fun _ => text) :: more
  dedenting_eq : t.dedenting = s.dedenting
  counted : s.Counted → t.Counted
  lineNumber_eq : s.Counted → t.lineNumber = s.lineNumber
  consume : s.Consumes text t.consume

lemma next?_cases (s : LineSource) :
    (s.upcoming = [] ∧ s.next? = none) ∨
      ∃ text t, s.next? = some (text, t) ∧ s.Consumes text t := by
  obtain ⟨pending, lookahead, dedenting, width, fetched⟩ := s
  cases lookahead with
  | some text =>
    refine .inr ⟨text, _, rfl, ⟨⟨_, rfl, rfl⟩, rfl, Nat.zero_le _, ?_⟩⟩
    intro hcounted
    simp [Counted, lineNumber, consume] at hcounted ⊢
    omega
  | none =>
    cases pending with
    | nil => exact .inl ⟨rfl, rfl⟩
    | cons line pending =>
      refine .inr ⟨_, _, rfl, ⟨⟨_, rfl, (asFetched_eq _ line).symm⟩, rfl, Nat.zero_le _, ?_⟩⟩
      intro
      rfl

lemma peek_cases (s : LineSource) :
    (s.upcoming = [] ∧ s.peek = (none, s)) ∨
      ∃ text t, s.peek = (some text, t) ∧ s.LooksAt text t := by
  obtain ⟨pending, lookahead, dedenting, width, fetched⟩ := s
  cases lookahead with
  | some text =>
    obtain ⟨hnil, -⟩ | ⟨_, _, hnext, hconsumes⟩ :=
      next?_cases ⟨pending, some text, dedenting, width, fetched⟩
    · simp [upcoming] at hnil
    · simp only [next?, Option.some.injEq, Prod.mk.injEq] at hnext
      obtain ⟨rfl, rfl⟩ := hnext
      exact .inr ⟨text, _, rfl, ⟨⟨_, _, rfl, rfl, rfl⟩, rfl, id, fun _ => rfl, hconsumes⟩⟩
  | none =>
    cases pending with
    | nil => exact .inl ⟨rfl, rfl⟩
    | cons line pending =>
      obtain ⟨hnil, -⟩ | ⟨_, _, hnext, hconsumes⟩ :=
        next?_cases ⟨line :: pending, none, dedenting, width, fetched⟩
      · simp [upcoming] at hnil
      · simp only [next?, fetch?, Option.some.injEq, Prod.mk.injEq] at hnext
        obtain ⟨rfl, rfl⟩ := hnext
        have hfetched := asFetched_eq ⟨line :: pending, none, dedenting, width, fetched⟩ line
        refine .inr ⟨_, _, rfl, ⟨⟨_, _, rfl, hfetched.symm, rfl⟩, rfl, ?_, ?_, hconsumes⟩⟩
        · intro
          simp [Counted]
        · intro
          simp [lineNumber]

/-! ### Accesses in any order -/

/-- What can be done with a source. -/
inductive Access where
  | peek
  | next
  | setDedent (on : Bool)
  deriving DecidableEq

/-- The line that an access gives, if it gives one, and the source afterwards. -/
def access (s : LineSource) : Access → Option Text × LineSource
  | .peek => s.peek
  | .next =>
    match s.next? with
    | some (text, t) => (some text, t)
    | none => (none, s)
  | .setDedent on => (none, s.setDedent on)

/-- The source after the given accesses. -/
def afterAll (s : LineSource) (accesses : List Access) : LineSource :=
  accesses.foldl (fun s a => (s.access a).2) s

@[simp] lemma afterAll_nil (s : LineSource) : s.afterAll [] = s := rfl

@[simp] lemma afterAll_cons (s : LineSource) (a : Access) (accesses : List Access) :
    s.afterAll (a :: accesses) = (s.access a).2.afterAll accesses := rfl

/-- The mode in which the line with `k` lines before it is first reached: that of the first `peek`
or `next` behind the `k`-th `next`, or else the one at the end. -/
def reachMode (dedenting : Bool) : Nat → List Access → Bool
  | _, [] => dedenting
  | k, .setDedent on :: accesses => reachMode on k accesses
  | 0, _ :: _ => dedenting
  | k + 1, .next :: accesses => reachMode dedenting k accesses
  | k + 1, .peek :: accesses => reachMode dedenting (k + 1) accesses

/-- The number of lines that the accesses consume of `n` lines. -/
def consumedOf (n : Nat) (accesses : List Access) : Nat := min n (accesses.count .next)

/-- A `next` behind any accesses gives the line after those that they consume, in the form of the
mode in which it was first reached. -/
lemma access_next_afterAll (s : LineSource) (accesses : List Access) :
    ((s.afterAll accesses).access .next).1 =
      s.upcoming[consumedOf s.upcoming.length accesses]?.map
        (· (reachMode s.dedenting (consumedOf s.upcoming.length accesses) accesses)) := by
  induction accesses generalizing s with
  | nil =>
    obtain ⟨hnil, hnext⟩ | ⟨text, t, hnext, hconsumes⟩ := s.next?_cases
    · simp [access, hnil, hnext]
    · obtain ⟨first, hs, rfl⟩ := hconsumes.upcoming_eq
      simp [access, hnext, hs, consumedOf, reachMode]
  | cons a accesses ih =>
    rw [afterAll_cons, ih]
    cases a with
    | setDedent on =>
      have hcount : (Access.setDedent on :: accesses).count .next = accesses.count .next := by simp
      rw [consumedOf, consumedOf, hcount]
      rfl
    | next =>
      obtain ⟨hnil, hnext⟩ | ⟨text, t, hnext, hconsumes⟩ := s.next?_cases
      · simp [access, hnil, hnext]
      · obtain ⟨first, hs, rfl⟩ := hconsumes.upcoming_eq
        simp [access, hnext, hs, hconsumes.dedenting_eq, consumedOf, reachMode]
    | peek =>
      obtain ⟨hnil, hpeek⟩ | ⟨text, t, hpeek, hlooks⟩ := s.peek_cases
      · simp [access, hnil, hpeek]
      · obtain ⟨first, more, hs, rfl, ht⟩ := hlooks.upcoming_eq
        simp only [access, hpeek, hs, ht, hlooks.dedenting_eq, consumedOf, List.length_cons]
        cases hk : min (more.length + 1) (accesses.count .next) with
        | zero => simp [hk, reachMode]
        | succ k => simp [hk, reachMode]

/-- Accesses consume one line for each `next`, as long as there are any. -/
lemma lineNumber_afterAll {s : LineSource} (hs : s.Counted) (accesses : List Access) :
    (s.afterAll accesses).Counted ∧
      (s.afterAll accesses).lineNumber =
        s.lineNumber + consumedOf s.upcoming.length accesses ∧
      (s.afterAll accesses).upcoming.length + consumedOf s.upcoming.length accesses =
        s.upcoming.length := by
  induction accesses generalizing s with
  | nil => exact ⟨hs, by simp [consumedOf], by simp [consumedOf]⟩
  | cons a accesses ih =>
    rw [afterAll_cons]
    cases a with
    | setDedent on =>
      have hcount : (Access.setDedent on :: accesses).count .next = accesses.count .next := by simp
      rw [consumedOf, hcount]
      exact ih (s := s.setDedent on) hs
    | next =>
      obtain ⟨hnil, hnext⟩ | ⟨text, t, hnext, hconsumes⟩ := s.next?_cases
      · simpa [access, hnil, hnext, consumedOf] using ih hs
      · obtain ⟨first, hfirst, -⟩ := hconsumes.upcoming_eq
        obtain ⟨hcounted, hnumber, hlength⟩ := ih hconsumes.counted
        rw [hconsumes.lineNumber_eq hs] at hnumber
        simp only [access, hnext, hfirst, consumedOf, List.length_cons, List.count_cons_self] at *
        exact ⟨hcounted, by omega, by omega⟩
    | peek =>
      obtain ⟨hnil, hpeek⟩ | ⟨text, t, hpeek, hlooks⟩ := s.peek_cases
      · simpa [access, hnil, hpeek, consumedOf] using ih hs
      · obtain ⟨first, more, hfirst, -, ht⟩ := hlooks.upcoming_eq
        obtain ⟨hcounted, hnumber, hlength⟩ := ih (hlooks.counted hs)
        rw [hlooks.lineNumber_eq hs] at hnumber
        have hcount : (Access.peek :: accesses).count .next = accesses.count .next := by simp
        simp only [access, hpeek, hfirst, ht, consumedOf, List.length_cons, hcount] at *
        exact ⟨hcounted, hnumber, hlength⟩

/-- What a `peek` gives is what the next `next` gives, whatever else is done between them. -/
lemma access_next_of_peek (s : LineSource) {between : List Access} (h : .next ∉ between) :
    (((s.access .peek).2.afterAll between).access .next).1 = (s.access .peek).1 := by
  have hnone (n : Nat) : consumedOf n between = 0 := by
    rw [consumedOf, List.count_eq_zero_of_not_mem h, Nat.min_zero]
  rw [access_next_afterAll, hnone]
  obtain ⟨hnil, hpeek⟩ | ⟨text, t, hpeek, hlooks⟩ := s.peek_cases
  · simp [access, hnil, hpeek]
  · obtain ⟨first, more, -, -, ht⟩ := hlooks.upcoming_eq
    simp [access, hpeek, ht]

/-- A `peek` gives what a `next` would give. -/
lemma access_peek (s : LineSource) : (s.access .peek).1 = (s.access .next).1 := by
  obtain ⟨hnil, hpeek⟩ | ⟨text, t, hpeek, hlooks⟩ := s.peek_cases
  · obtain ⟨-, hnext⟩ | ⟨text, t, -, hconsumes⟩ := s.next?_cases
    · simp [access, hpeek, hnext]
    · obtain ⟨first, hfirst, -⟩ := hconsumes.upcoming_eq
      simp [hnil] at hfirst
  · obtain ⟨first, more, hfirst, rfl, -⟩ := hlooks.upcoming_eq
    obtain ⟨hnil, -⟩ | ⟨text, t, hnext, hconsumes⟩ := s.next?_cases
    · simp [hfirst] at hnil
    · obtain ⟨first', hfirst', rfl⟩ := hconsumes.upcoming_eq
      rw [hfirst, List.cons.injEq] at hfirst'
      simp [access, hpeek, hnext, hfirst'.1]

lemma lineNumber_add_length_upcoming {s : LineSource} (hs : s.Counted) :
    s.lineNumber + s.upcoming.length = s.fetched + s.pending.length := by
  simp only [Counted, lineNumber, upcoming, List.length_append, List.length_map] at *
  omega

/-- However a source of lines is accessed, behind any accesses the number of consumed lines is the
number of times that `next` was called, as long as there were lines, and another `next` gives the
line that comes next: without the white space at its end, and without a unit of indentation exactly
if dedent mode was on when that line was first reached and the line begins with such a unit. There
is none if and only if all lines are consumed. A `peek` gives what a `next` would give, and what the
next `next` will give whatever is done before it, and consumes nothing. No more lines are counted
than there are, and never fewer than were looked at. -/
theorem access_afterAll (width : Nat) (lines : List Text) (accesses : List Access) :
    let s := (ofLines width lines).afterAll accesses
    let k := min lines.length (accesses.count .next)
    s.lineNumber = k ∧
      (s.access .next).1 = lines[k]?.map (fun line =>
        if reachMode false k accesses = true ∧ 0 < width ∧
            List.replicate width ' ' <+: trimEnd line then (trimEnd line).drop width
        else trimEnd line) ∧
      ((s.access .next).1 = none ↔ k = lines.length) ∧
      (s.access .peek).1 = (s.access .next).1 ∧
      (∀ between, .next ∉ between →
        (((s.access .peek).2.afterAll between).access .next).1 = (s.access .peek).1) ∧
      (s.access .peek).2.lineNumber = s.lineNumber ∧
      s.lookahead.toList.length ≤ s.fetched ∧ s.fetched ≤ lines.length := by
  intro s k
  have hk : consumedOf (ofLines width lines).upcoming.length accesses = k := by
    simp [consumedOf, k]
  obtain ⟨hcounted, hnumber, hlength⟩ :
      s.Counted ∧ s.lineNumber = k ∧ s.upcoming.length + k = lines.length := by
    have hafter := lineNumber_afterAll (counted_ofLines width lines) accesses
    rwa [hk, upcoming_ofLines, List.length_map, show (ofLines width lines).lineNumber = 0 from rfl,
      Nat.zero_add] at hafter
  have hnext :
      (s.access .next).1 = lines[k]?.map (fetchedAs width (reachMode false k accesses)) := by
    rw [access_next_afterAll, hk, upcoming_ofLines, List.getElem?_map, Option.map_map]
    rfl
  refine ⟨hnumber, hnext, ?_, s.access_peek, fun between h => s.access_next_of_peek h, ?_,
    hcounted, ?_⟩
  · rw [hnext, Option.map_eq_none_iff, List.getElem?_eq_none_iff]
    have hle : k ≤ lines.length := Nat.min_le_left _ _
    omega
  · obtain ⟨-, hpeek⟩ | ⟨text, t, hpeek, hlooks⟩ := s.peek_cases
    · rw [access, hpeek]
    · rw [access, hpeek]
      exact hlooks.lineNumber_eq hcounted
  · have hsum := lineNumber_add_length_upcoming hcounted
    omega

/-- A line that was looked at before dedent mode was switched on keeps its indentation. -/
example :
    (((ofLines 4 ["        a".toList, "        b".toList]).afterAll
      [.peek, .setDedent true]).access .next).1 = some "        a".toList ∧
    (((ofLines 4 ["        a".toList, "        b".toList]).afterAll
      [.peek, .setDedent true, .next]).access .next).1 = some "    b".toList := by
  decide +kernel

end LineSource

end Swiftward
