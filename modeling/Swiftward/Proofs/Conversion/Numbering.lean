import Swiftward.Proofs.Conversion.Stream

/-!
# Numbers of output lines

A line of output carries the number of the last line that had been consumed when it was made. Rules
look ahead, read on, and make closing braces and whole headers late, and still the number is that
of a line that the same step consumed, and over a whole run the numbers never go back
(`Converter.numbers_exact`).
-/

namespace Swiftward

namespace Numbered

variable {first last : Nat} {lines : List OutputLine}

lemma bounds (h : Numbered first last lines) :
    ∀ line ∈ lines, first ≤ line.source ∧ line.source ≤ last := by
  induction lines generalizing first with
  | nil => nofun
  | cons line lines ih =>
    obtain ⟨hfirst, hrest⟩ := h
    intro line' hline
    rw [List.mem_cons] at hline
    obtain rfl | hline := hline
    · refine ⟨hfirst, ?_⟩
      cases lines with
      | nil => exact hrest
      | cons next lines => exact Nat.le_trans hrest.1 (ih hrest next List.mem_cons_self).2
    · obtain ⟨hle, hlast⟩ := ih hrest line' hline
      exact ⟨Nat.le_trans hfirst hle, hlast⟩

lemma pairwise (h : Numbered first last lines) :
    lines.Pairwise fun line line' => line.source ≤ line'.source := by
  induction lines generalizing first with
  | nil => exact .nil
  | cons line lines ih => exact .cons (fun line' hline => (h.2.bounds line' hline).1) (ih h.2)

end Numbered

namespace Converter

/-- The number of lines that the first `k` steps consume. -/
def consumed (c : Converter) (k : Nat) : Nat := c.source.unread - (c.after k).source.unread

lemma consumed_mono (c : Converter) {j k : Nat} (h : j ≤ k) : c.consumed j ≤ c.consumed k := by
  induction h with
  | refl => exact Nat.le_refl _
  | step h ih => exact Nat.le_trans ih (Nat.sub_le_sub_left (unread_step_le _) _)

lemma lines_step_after {c : Converter} {k : Nat} (h : k < (convertUnits c.source).length) :
    (c.after k).step.1.lines = (convertUnits c.source)[k] := by
  rw [step_after_eq, List.getElem?_eq_getElem h]
  exact Step.lines_ofLines _

section Numbers

variable (width : Nat) (lines : List Text)

lemma lineNumber_after (k : Nat) :
    ((ofLines width lines).after k).source.lineNumber = (ofLines width lines).consumed k := by
  have hsum := lineNumber_add_unread width lines k
  show _ = lines.length - _
  omega

lemma fetched_after_le (k : Nat) :
    ((ofLines width lines).after k).source.fetched ≤ lines.length := by
  have hsum := lineNumber_add_unread width lines k
  rw [LineSource.lineNumber, LineSource.unread] at hsum
  omega

/-- A step hands out nothing, or lines that are made from the lines that it consumes. -/
lemma step_numbered (k : Nat) :
    ((ofLines width lines).after k).step.1.lines = [] ∨
      Numbered ((ofLines width lines).consumed k + 1) ((ofLines width lines).consumed (k + 1))
        ((ofLines width lines).after k).step.1.lines := by
  obtain ⟨groups, rfl, -, hgroups⟩ := exists_groups
    (show (ofLines width lines).source.Stands width 0 lines from LineSource.stands_ofLines ..)
  obtain ⟨-, hsteps, hend⟩ := hgroups k
  cases hgroup : groups[k]? with
  | none =>
    rw [hend (List.getElem?_eq_none_iff.mp hgroup)]
    exact .inl rfl
  | some group =>
    have hnumbered := (hsteps group hgroup).numbered
    rw [lineNumber_after, lineNumber_after] at hnumbered
    exact .inr hnumbered

lemma source_bounds {k : Nat} {line : OutputLine}
    (h : line ∈ ((ofLines width lines).after k).step.1.lines) :
    (ofLines width lines).consumed k < line.source ∧
      line.source ≤ (ofLines width lines).consumed (k + 1) := by
  obtain hnil | hnumbered := step_numbered width lines k
  · rw [hnil] at h
    exact absurd h List.not_mem_nil
  · exact hnumbered.bounds line h

lemma step_pairwise (k : Nat) :
    ((ofLines width lines).after k).step.1.lines.Pairwise
      fun line line' => line.source ≤ line'.source := by
  obtain hnil | hnumbered := step_numbered width lines k
  · rw [hnil]
    exact .nil
  · exact hnumbered.pairwise

/-- A later step consumes later lines. -/
lemma source_lt {j k : Nat} (h : j < k) {line line' : OutputLine}
    (hline : line ∈ ((ofLines width lines).after j).step.1.lines)
    (hline' : line' ∈ ((ofLines width lines).after k).step.1.lines) :
    line.source < line'.source :=
  calc line.source
      _ ≤ (ofLines width lines).consumed (j + 1) := (source_bounds width lines hline).2
      _ ≤ (ofLines width lines).consumed k := consumed_mono _ h
      _ < line'.source := (source_bounds width lines hline').1

end Numbers

/-- The numbers of output lines are exact. What a step hands out carries numbers of lines that this
step consumes, and within the step they never go back. So over a whole run they never go back, go up
from each step to the next, and are numbers of lines of the source. The count of fetched lines, from
which they are read off, stays within the number of lines. -/
theorem numbers_exact (width : Nat) (lines : List Text) :
    let c := ofLines width lines
    (∀ k, (∀ line ∈ (c.after k).step.1.lines,
          c.consumed k < line.source ∧ line.source ≤ c.consumed (k + 1)) ∧
        ((c.after k).step.1.lines.map (·.source)).Pairwise (· ≤ ·)) ∧
      ((convertLines width lines).map (·.source)).Pairwise (· ≤ ·) ∧
      (∀ j k, j < k → ∀ line ∈ (c.after j).step.1.lines, ∀ line' ∈ (c.after k).step.1.lines,
        line.source < line'.source) ∧
      (∀ line ∈ convertLines width lines, 1 ≤ line.source ∧ line.source ≤ lines.length) ∧
      ∀ k, (c.after k).source.lineNumber = c.consumed k ∧
        (c.after k).source.fetched ≤ lines.length := by
  intro c
  have hunits : convertLines width lines = (convertUnits c.source).flatten := rfl
  refine ⟨?_, ?_, ?_, ?_, ?_⟩
  · intro k
    exact ⟨fun line hline => source_bounds width lines hline,
      List.pairwise_map.mpr (step_pairwise width lines k)⟩
  · rw [List.pairwise_map, hunits, List.pairwise_flatten, List.pairwise_iff_getElem]
    constructor
    · intro unit hunit
      obtain ⟨k, hk, rfl⟩ := List.getElem_of_mem hunit
      rw [← lines_step_after hk]
      exact step_pairwise width lines k
    · intro j k hj hk hlt line hline line' hline'
      rw [← lines_step_after hj] at hline
      rw [← lines_step_after hk] at hline'
      exact Nat.le_of_lt (source_lt width lines hlt hline hline')
  · intro j k hlt line hline line' hline'
    exact source_lt width lines hlt hline hline'
  · intro line hline
    rw [hunits, List.mem_flatten] at hline
    obtain ⟨unit, hunit, hline⟩ := hline
    obtain ⟨k, hk, rfl⟩ := List.getElem_of_mem hunit
    rw [← lines_step_after hk] at hline
    obtain ⟨hlt, hle⟩ := source_bounds width lines hline
    exact ⟨Nat.succ_le_of_lt (Nat.lt_of_le_of_lt (Nat.zero_le _) hlt),
      Nat.le_trans hle (Nat.sub_le _ _)⟩
  · intro k
    exact ⟨lineNumber_after width lines k, fetched_after_le width lines k⟩

end Converter

end Swiftward
