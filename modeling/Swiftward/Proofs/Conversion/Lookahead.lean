import Swiftward.Proofs.Conversion.Restart

/-!
# How far a converter looks ahead

A converter reads one line further than it has consumed, and what it has handed out depends on
nothing behind that line. Two sources that agree on the lines up to there are read in step
(`LineSource.inStep_agree`), so the same steps are made over both (`Converter.steps_of_agree`).
-/

namespace Swiftward

namespace LineSource

/-- The sources give the same lines, and behind them the first still gives `behind` others. -/
inductive Agree (behind : Nat) : LineSource → LineSource → Prop where
  | mk {shared rest rest' : List Text} {ahead : Option Text} {on : Bool} {width fetched : Nat}
      (hrest : rest.length = behind) :
      Agree behind ⟨shared ++ rest, ahead, on, width, fetched⟩
        ⟨shared ++ rest', ahead, on, width, fetched⟩

variable {behind : Nat} {s s' : LineSource}

/-- As long as there is a line that both sources give, it can be looked at and consumed. -/
lemma Agree.peek (h : s.Agree behind s') (hleft : behind + 1 ≤ s.unread) :
    ∃ text, s.peek.1 = some text ∧ s'.peek.1 = some text ∧ s.peek.2.Agree behind s'.peek.2 ∧
      s.peek.2.consume.Agree behind s'.peek.2.consume := by
  cases h with
  | @mk shared rest rest' ahead on width fetched hrest =>
    cases ahead with
    | some text => exact ⟨text, rfl, rfl, .mk hrest, .mk hrest⟩
    | none =>
      cases shared with
      | nil =>
        have hunread : unread ⟨[] ++ rest, none, on, width, fetched⟩ = behind := hrest
        omega
      | cons line shared => exact ⟨_, rfl, rfl, .mk hrest, .mk hrest⟩

/-- Sources that agree are read in step as long as one line that both give is left. -/
lemma inStep_agree (behind : Nat) : InStep (· = ·) 0 (behind + 1) (Agree behind) where
  lineNumber_eq h := by
    cases h
    rfl
  peek_cases h hleft := by
    obtain ⟨text, hpeek, hpeek', hlooked, hconsumed⟩ := h.peek hleft
    exact .inr ⟨text, text, hpeek, hpeek', rfl, hlooked, hconsumed⟩
  mode := by
    right
    intro s s' h
    cases h with
    | mk hrest => exact ⟨rfl, fun on => .mk hrest⟩

end LineSource

/-! ### Steps over sources that agree -/

@[simp] lemma Step.shift_zero (step : Step) : step.shift 0 = step := by
  have hlines (lines : List OutputLine) : lines.map (·.shift 0) = lines := List.map_id _
  cases step with
  | emitted lines => rw [shift, hlines]
  | nothing => rfl
  | exhausted => rfl

namespace Converter

variable {left n : Nat} {Rel : LineSource → LineSource → Prop} {c c' : Converter}

/-- Over sources that are read in step the same steps are made, as long as enough lines are left. -/
lemma after_inStep (hRel : LineSource.InStep (· = ·) n left Rel) (h : Rel c.source c'.source) {k : Nat}
    (hleft : left ≤ (c.after k).source.unread) :
    (∀ i < k, (c'.after i).step.1 = (c.after i).step.1.shift n) ∧
      ∀ i ≤ k, Rel (c.after i).source (c'.after i).source := by
  induction k with
  | zero =>
    refine ⟨nofun, ?_⟩
    intro i hi
    obtain rfl := Nat.le_zero.mp hi
    exact h
  | succ k ih =>
    have hbefore := hleft.trans (c.after k).unread_step_le
    obtain ⟨hsteps, hsources⟩ := ih hbefore
    have hk := hsources k (Nat.le_refl k)
    obtain ⟨hstep, hbehind⟩ := step_inStep hRel (hRel.next?_cases hk hbefore) hleft
    constructor
    · intro i hi
      obtain hlt | rfl := Nat.lt_succ_iff_lt_or_eq.mp hi
      · exact hsteps i hlt
      · exact hstep
    · intro i hi
      obtain hle | rfl := Nat.le_succ_iff.mp hi
      · exact hsources i hle
      · obtain ⟨hsame, hsame'⟩ | hsource := hbehind
        · rw [after, after, hsame, hsame']
          exact hk
        · exact hsource

/-- What a converter has done depends on the lines that it has consumed and on the one line behind
them: if two inputs agree on their first `m + 1` lines, and over the first of them `k` steps consume
at most `m`, then the first `k` steps over the second have the same results and consume as much. -/
theorem steps_of_agree (width : Nat) {lines lines' : List Text} {m k : Nat} (hm : m < lines.length)
    (hagree : lines.take (m + 1) = lines'.take (m + 1))
    (hconsumed : ((ofLines width lines).after k).source.lineNumber ≤ m) :
    (∀ i < k, ((ofLines width lines').after i).step.1 = ((ofLines width lines).after i).step.1) ∧
      ∀ i ≤ k, ((ofLines width lines').after i).source.lineNumber =
        ((ofLines width lines).after i).source.lineNumber := by
  have hlines (ls : List Text) : ls = ls.take (m + 1) ++ ls.drop (m + 1) :=
    (List.take_append_drop _ _).symm
  have hstart : (ofLines width lines).source.Agree (lines.length - (m + 1))
      (ofLines width lines').source := by
    rw [hlines lines, hlines lines', ← hagree]
    exact .mk (by simp)
  have hleft : lines.length - (m + 1) + 1 ≤ ((ofLines width lines).after k).source.unread := by
    have htotal := lineNumber_add_unread width lines k
    omega
  obtain ⟨hsteps, hsources⟩ := after_inStep (LineSource.inStep_agree _) hstart hleft
  refine ⟨?_, ?_⟩
  · intro i hi
    rw [hsteps i hi, Step.shift_zero]
  · intro i hi
    exact (LineSource.inStep_agree _).lineNumber_eq (hsources i hi)

/-- The header of a method on two lines, and what comes behind it. -/
def continuedHeader (rest : List Text) : List Text :=
  "- (void)move:(int)x".toList :: "   by:(int)y".toList :: "\x7b".toList :: rest

theorem steps_of_agree_continuedHeader :
    ((ofLines 4 (continuedHeader [])).after 1).source.lineNumber = 2 ∧
      (ofLines 4 (continuedHeader ["    y = x;".toList, "\x7d".toList])).step.1 =
        (ofLines 4 (continuedHeader [])).step.1 := by
  have hconsumed : ((ofLines 4 (continuedHeader [])).after 1).source.lineNumber = 2 := by
    decide +kernel
  have hagree : (continuedHeader []).take (2 + 1) =
      (continuedHeader ["    y = x;".toList, "\x7d".toList]).take (2 + 1) := rfl
  obtain ⟨hsteps, -⟩ := steps_of_agree 4 (by decide) hagree hconsumed.le
  exact ⟨hconsumed, hsteps 0 Nat.one_pos⟩

end Converter

end Swiftward
