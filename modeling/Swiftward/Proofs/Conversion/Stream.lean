import Swiftward.Proofs.Conversion.Consumption
import Swiftward.Proofs.Conversion.Simulation

/-!
# Ways to take the output

The output of a converter can be taken line by line until there is none left (`Converter.collect`)
or unit by unit until it is exhausted (`Converter.drain`). Either way it is what the units of the
source become, in their order (`Converter.collect_eq`, `Converter.drain_eq`).

Of the source, the output knows only the lines without the white space at their ends
(`convertLines_congr`).
-/

namespace Swiftward

/-- The step that hands out the given lines, or drops the unit if there are none. -/
def Step.ofLines : List OutputLine → Step
  | [] => nothing
  | line :: lines => emitted (line :: lines)

@[simp] lemma Step.lines_ofLines (lines : List OutputLine) : (ofLines lines).lines = lines := by
  cases lines <;> rfl

lemma convertUnits_eq_nil_iff {s : LineSource} : convertUnits s = [] ↔ convertNext s = none := by
  rw [convertUnits]
  cases convertNext s with
  | none => simp
  | some unit => simp

lemma convertUnits_of_converts {line : Text} {s t u : LineSource} {lines : List OutputLine}
    (hnext : s.next? = some (line, t)) (h : Converts (.unit line) t lines u) :
    convertUnits s = lines :: convertUnits u := by
  obtain ⟨unit, hunit, rfl, rfl⟩ := h.exists_convertNext hnext
  rw [convertUnits, hunit]

namespace Converter

/-- All that a converter has not handed out yet. -/
def output (c : Converter) : List OutputLine := c.ready ++ (convertUnits c.source).flatten

/-! ### Line by line -/

/-- There is no line left, or one is handed out and less is left. -/
lemma next_cases (c : Converter) :
    (∃ c', c.next = (none, c') ∧ c.output = []) ∨
      ∃ line c', c.next = (some line, c') ∧ c.output = line :: c'.output ∧
        (c'.source.unread < c.source.unread ∨
          c'.source.unread = c.source.unread ∧ c'.ready.length < c.ready.length) := by
  fun_induction next c with
  | case1 c line ready hready =>
    refine .inr ⟨line, _, rfl, ?_, .inr ⟨rfl, by simp [hready]⟩⟩
    rw [output, hready]
    rfl
  | case2 c hready hnone =>
    refine .inl ⟨c, rfl, ?_⟩
    rw [output, hready, convertUnits, hnone]
    rfl
  | case3 c hready unit hunit hlt ih =>
    have houtput : c.output = (Converter.mk unit.source unit.lines).output := by
      rw [output, hready, convertUnits, hunit]
      rfl
    rw [houtput]
    obtain hnone | ⟨line, c', hnext, hline, hless⟩ := ih
    · exact .inl hnone
    · refine .inr ⟨line, c', hnext, hline, .inl ?_⟩
      obtain hless | ⟨hsame, -⟩ := hless
      · exact Nat.lt_trans hless hlt
      · exact hsame ▸ hlt

/-- The lines that are handed out until there is none left. -/
def collect (c : Converter) : List OutputLine :=
  match _h : c.next with
  | (none, _) => []
  | (some line, c') => line :: c'.collect
termination_by (c.source.unread, c.ready.length)
decreasing_by
  obtain ⟨c'', hnone, -⟩ | ⟨line', c'', hnext, -, hless⟩ := next_cases c
  · simp [hnone] at _h
  · rw [hnext, Prod.mk.injEq] at _h
    rw [← _h.2]
    obtain hless | ⟨hsame, hless⟩ := hless
    · exact Prod.Lex.left _ _ hless
    · rw [hsame]
      exact Prod.Lex.right _ hless

theorem collect_eq (c : Converter) : c.collect = c.output := by
  fun_induction collect c with
  | case1 c c' h =>
    obtain ⟨_, -, hnil⟩ | ⟨line, c'', hnext, -⟩ := next_cases c
    · exact hnil.symm
    · simp [h] at hnext
  | case2 c line c' h ih =>
    obtain ⟨_, hnone, -⟩ | ⟨line', c'', hnext, houtput, -⟩ := next_cases c
    · simp [h] at hnone
    · rw [h, Prod.mk.injEq, Option.some.injEq] at hnext
      obtain ⟨rfl, rfl⟩ := hnext
      rw [ih, houtput]

/-! ### Unit by unit -/

lemma step_eq_ofLines {c : Converter} {unit : Conversion c.source.unread}
    (h : convertNext c.source = some unit) : c.step.1 = .ofLines unit.lines := by
  rw [step, h]
  dsimp only
  cases unit.lines with
  | nil => rfl
  | cons line lines => rfl

lemma unread_step_lt {c : Converter} (h : c.step.1 ≠ .exhausted) :
    c.step.2.source.unread < c.source.unread := by
  cases hunit : convertNext c.source with
  | none =>
    rw [step_of_none hunit] at h
    exact absurd rfl h
  | some unit =>
    rw [(step_of_some hunit).2.2]
    exact unit.unread_lt

/-- A step takes the next unit. -/
lemma convertUnits_of_step (c : Converter) :
    c.step.1 = ((convertUnits c.source).head?.map Step.ofLines).getD .exhausted ∧
      convertUnits c.step.2.source = (convertUnits c.source).tail := by
  cases hunit : convertNext c.source with
  | none =>
    rw [step_of_none hunit, convertUnits_eq_nil_iff.mpr hunit]
    exact ⟨rfl, rfl⟩
  | some unit =>
    have hunits : convertUnits c.source = unit.lines :: convertUnits unit.source := by
      rw [convertUnits, hunit]
    rw [step_eq_ofLines hunit, (step_of_some hunit).2.2, hunits]
    exact ⟨rfl, rfl⟩

lemma convertUnits_after (c : Converter) (k : Nat) :
    convertUnits (c.after k).source = (convertUnits c.source).drop k := by
  induction k with
  | zero => rfl
  | succ k ih => rw [after, (convertUnits_of_step _).2, ih, List.tail_drop]

/-- The steps hand out the units in their order. -/
lemma step_after_eq (c : Converter) (k : Nat) :
    (c.after k).step.1 = ((convertUnits c.source)[k]?.map Step.ofLines).getD .exhausted := by
  rw [(convertUnits_of_step _).1, convertUnits_after, List.head?_drop]

/-- The lines that the steps hand out until the converter is exhausted. -/
def drain (c : Converter) : List OutputLine :=
  match _h : c.step.1 with
  | .exhausted => []
  | .nothing => c.step.2.drain
  | .emitted lines => lines ++ c.step.2.drain
termination_by c.source.unread
decreasing_by
  · exact unread_step_lt (by simp [_h])
  · exact unread_step_lt (by simp [_h])

lemma convertUnits_step (c : Converter) :
    (convertUnits c.source).flatten = c.step.1.lines ++
      if c.step.1 = .exhausted then [] else (convertUnits c.step.2.source).flatten := by
  rw [convertUnits]
  split
  · next hnone =>
    rw [step_of_none hnone]
    rfl
  · next unit hunit =>
    obtain ⟨hne, hlines, hstep⟩ := step_of_some hunit
    rw [if_neg hne, hlines, hstep, List.flatten_cons]

theorem drain_eq (c : Converter) : c.drain = (convertUnits c.source).flatten := by
  fun_induction drain c with
  | case1 c h =>
    rw [convertUnits_step, h]
    rfl
  | case2 c h ih =>
    rw [convertUnits_step, h, ih]
    rfl
  | case3 c lines h ih =>
    rw [convertUnits_step, h, ih]
    rfl

end Converter

/-! ### White space at the ends of lines -/

lemma fetchedAs_congr {line line' : Text} (h : trimEnd line = trimEnd line') (width : Nat)
    (on : Bool) : fetchedAs width on line = fetchedAs width on line' := by
  rw [fetchedAs, fetchedAs, h]

/-- White space at the ends of the lines is lost when they are fetched. -/
theorem convertLines_congr {source source' : List Text}
    (h : source.map trimEnd = source'.map trimEnd) (width : Nat) :
    convertLines width source = convertLines width source' := by
  have halike : (LineSource.ofLines width source).Alike (· = ·) 0
      (LineSource.ofLines width source') := by
    refine ⟨?_, rfl, rfl, LineSource.counted_ofLines _ _, LineSource.counted_ofLines _ _⟩
    have hfetched :
        List.Forall₂ (fun line line' => trimEnd line = trimEnd line') source source' := by
      rw [← List.forall₂_map_left_iff (R := fun text line' => text = trimEnd line'),
        ← List.forall₂_map_right_iff (R := (· = ·)), List.forall₂_eq_eq_eq]
      exact h
    rw [LineSource.upcoming_ofLines, LineSource.upcoming_ofLines, List.forall₂_map_left_iff,
      List.forall₂_map_right_iff]
    exact hfetched.imp fun _ _ heq on => fetchedAs_congr heq width on
  have houtput : OutputAlike (· = ·) 0 (convertLines width source) (convertLines width source') :=
    List.rel_flatten (convertUnits_alike blind_eq halike)
  rw [OutputAlike.eq_map_shift id houtput]
  exact (List.map_id _).symm

end Swiftward
