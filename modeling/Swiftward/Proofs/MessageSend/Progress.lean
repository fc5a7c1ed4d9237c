import Mathlib.Data.List.Count
import Swiftward.Proofs.MessageSend.Balance

/-!
# Progress of the passes

Every pass that changes a line leaves fewer opening brackets on it, so there are at most as many as
the line has brackets, and one more. That last pass changes nothing, and then nothing is left to
do: each innermost pair still on the line is a send that is not understood (`passesOver_end`).
-/

namespace Swiftward

variable {α : Type} [Symbol α]

/-! ### A pass without a change -/

/-- Only a send can be left in place, and only if it is not understood. -/
lemma BracketRole.eq_send_of_part? {role : BracketRole} {interior : List α}
    (h : role.part? interior = none) : role = .send ∧ resolveSend interior = none := by
  cases role with
  | literal => cases h
  | subscript => cases h
  | trailing => cases h
  | send => exact ⟨rfl, h⟩

namespace Pass

/-- A pass that changes nothing can set no pair aside. -/
lemma part?_of_unchanged {previous : Option Cell} {f : Fragments} {pair : BracketPair Cell}
    (h : (ofPair previous f pair).changed = false) :
    (BracketRole.behind (pair.before.getLast? <|> previous)).part? pair.interior = none := by
  cases hpart : (BracketRole.behind (pair.before.getLast? <|> previous)).part? pair.interior with
  | none => rfl
  | some part =>
    rw [ofPair_of_part f pair.before hpart] at h
    cases h

lemma ofPairs_of_unchanged {previous : Option Cell} {f : Fragments} {pairs : List (BracketPair Cell)}
    (h : (ofPairs previous f pairs).changed = false) :
    ofPairs previous f pairs = ⟨pairs.flatMap fun pair => pair.before ++ pair.whole, f, false⟩ ∧
      ∀ front pair back, pairs = front ++ pair :: back →
        (BracketRole.behind (pair.before.getLast? <|>
          if front = [] then previous else some (.char ']'))).part? pair.interior = none := by
  induction pairs generalizing previous with
  | nil => exact ⟨rfl, by simp⟩
  | cons first pairs ih =>
    obtain ⟨hfirst, hlater⟩ := Bool.or_eq_false_iff.mp h
    have hnone := part?_of_unchanged hfirst
    have hstays := ofPair_of_not_part f hnone
    rw [hstays] at hlater
    obtain ⟨heq, hpairs⟩ := ih hlater
    constructor
    · rw [ofPairs, hstays, heq]
      simp
    · intro front pair back hsplit
      rcases front with _ | ⟨first', front⟩
      · obtain ⟨rfl, -⟩ := List.cons.inj hsplit
        exact hnone
      · obtain ⟨-, rfl⟩ := List.cons.inj hsplit
        have hpair := hpairs front pair back rfl
        rwa [ite_self] at hpair

/-- A pass that changes nothing leaves line and table as they were. -/
lemma ofLine_of_unchanged {f : Fragments} {line : List Cell} (h : (ofLine f line).changed = false) :
    ofLine f line = ⟨line, f, false⟩ := by
  obtain ⟨heq, -⟩ := ofPairs_of_unchanged h
  have htext := Bracketed.toText_ofText line
  rw [Bracketed.toText] at htext
  rw [ofLine, heq, htext]

/-- Behind a pass that changes nothing, no innermost pair can be set aside. -/
lemma unresolved_of_unchanged {f : Fragments} {line : List Cell}
    (h : (ofLine f line).changed = false) {front interior rest : List Cell} (hfront : Closed front)
    (hinterior : Plain interior)
    (hline : line = front ++ .char '[' :: interior ++ .char ']' :: rest) :
    BracketRole.behind front.getLast? = .send ∧ resolveSend interior = none := by
  obtain ⟨-, hpairs⟩ := ofPairs_of_unchanged h
  have hcut := Bracketed.ofText_append_pair hfront hinterior rest
  rw [Cell.ofChar_eq, Cell.ofChar_eq, ← hline] at hcut
  have hpart := hpairs _ _ _ (congrArg Bracketed.pairs hcut)
  have hlast := Bracketed.getLast?_of_ofText front
  rw [Cell.ofChar_eq] at hlast
  rw [← hlast] at hpart
  exact BracketRole.eq_send_of_part? hpart

end Pass

/-! ### All passes -/

/-- The passes over a line in order, the first that changes nothing being the last. -/
def passesOver (f : Fragments) (line : List Cell) : List Pass :=
  let pass := Pass.ofLine f line
  if _h : pass.changed = true then pass :: passesOver pass.fragments pass.line else [pass]
termination_by openings line
decreasing_by exact Pass.openings_ofLine_lt _h

lemma getLast?_passesOver (f : Fragments) (line : List Cell) :
    (passesOver f line).getLast? = some (settle f line) := by
  fun_induction passesOver f line with
  | case1 f line pass hchanged ih =>
    rw [settle, dif_pos hchanged, List.getLast?_cons, ih]
    rfl
  | case2 f line pass hunchanged => rw [settle, dif_neg hunchanged, List.getLast?_singleton]

/-- Each pass but the last takes an opening bracket away. -/
lemma length_passesOver_le (f : Fragments) (line : List Cell) :
    (passesOver f line).length ≤ openings line + 1 := by
  fun_induction passesOver f line with
  | case1 f line pass hchanged ih =>
    have hlt : openings pass.line < openings line := Pass.openings_ofLine_lt hchanged
    rw [List.length_cons]
    omega
  | case2 f line pass hunchanged => simp

lemma changed_settle (f : Fragments) (line : List Cell) : (settle f line).changed = false := by
  fun_induction settle f line with
  | case1 f line pass hchanged ih => exact ih
  | case2 f line pass hunchanged => simpa using hunchanged

/-- The last pass was over the line that it leaves. -/
lemma ofLine_settle (f : Fragments) (line : List Cell) :
    Pass.ofLine (settle f line).fragments (settle f line).line = settle f line := by
  fun_induction settle f line with
  | case1 f line pass hchanged ih => exact ih
  | case2 f line pass hunchanged =>
    have heq : pass = ⟨line, f, false⟩ := Pass.ofLine_of_unchanged (by simpa using hunchanged)
    have hpass : Pass.ofLine pass.fragments pass.line = Pass.ofLine f line := by rw [heq]
    exact hpass

lemma openings_ofText (s : Text) : openings (Symbol.ofText s) = s.count '[' := by
  have hinj : Function.Injective Cell.char := fun _ _ h => Cell.char.inj h
  exact List.count_map_of_injective s Cell.char hinj '['

/-- There are at most as many passes over a line as it has opening brackets, and one more, since
each that changes the line leaves fewer of them on it and one that changes nothing is the last. The
innermost pairs that the last of them leaves are all sends that cannot be resolved. -/
theorem passesOver_end (line : Text) :
    (passesOver .empty (Symbol.ofText line)).length ≤ line.count '[' + 1 ∧
      (passesOver .empty (Symbol.ofText line)).getLast? =
        some (settle .empty (Symbol.ofText line)) ∧
      (∀ f s, (Pass.ofLine f s).changed = true → openings (Pass.ofLine f s).line < openings s) ∧
      (∀ f s, (Pass.ofLine f s).changed = false → Pass.ofLine f s = ⟨s, f, false⟩) ∧
      ∀ front interior rest,
        (settle .empty (Symbol.ofText line)).line =
          front ++ .char '[' :: interior ++ .char ']' :: rest →
        Closed front → Plain interior →
          BracketRole.behind front.getLast? = .send ∧ resolveSend interior = none := by
  refine ⟨?_, getLast?_passesOver _ _, fun f s => Pass.openings_ofLine_lt,
    fun f s => Pass.ofLine_of_unchanged, ?_⟩
  · rw [← openings_ofText]
    exact length_passesOver_le _ _
  · intro front interior rest hline hfront hinterior
    have hlast : (Pass.ofLine (settle .empty (Symbol.ofText line)).fragments
        (settle .empty (Symbol.ofText line)).line).changed = false := by
      rw [ofLine_settle]
      exact changed_settle _ _
    exact Pass.unresolved_of_unchanged hlast hfront hinterior hline

end Swiftward
