import Swiftward.Proofs.Conversion.Scan
import Swiftward.Proofs.Conversion.Simulation
import Swiftward.Proofs.Text.Trim

/-!
# Where conversion can be taken up again

Between two units nothing is carried over but the line that has been looked at ahead. As long as
that line is as it is fetched outside guards, a converter goes on as a new one for the lines that
are left (`step_after`).

There is one exception. The body of a guard is read in dedent mode, and so is the line before which
it ends. When that line neither closes the guard nor is its `return self;`, it is handed out
without its first unit of indentation although it stands outside the guard (`EndsOpen`).
-/

namespace Swiftward

/-! ### Sources that have looked ahead -/

namespace LineSource

variable {width : Nat} {lines : List Text} {on : Bool} {s t : LineSource}

/-- The source reads the given lines, and the one it has looked at is as it is fetched in the
present mode. -/
inductive Fresh (width : Nat) (lines : List Text) (on : Bool) : LineSource → Prop where
  | behind {consumed : Nat} {rest : List Text} (h : lines.drop consumed = rest) :
      Fresh width lines on ⟨rest, none, on, width, consumed⟩
  | ahead {consumed : Nat} {line : Text} {rest : List Text}
      (h : lines.drop consumed = line :: rest) :
      Fresh width lines on ⟨rest, some (fetchedAs width on line), on, width, consumed + 1⟩

/-- The source reads the given lines, and the one it has looked at was fetched in dedent mode,
which is off now. -/
inductive LeftOver (width : Nat) (lines : List Text) : LineSource → Prop where
  | mk {consumed : Nat} {line : Text} {rest : List Text} (h : lines.drop consumed = line :: rest) :
      LeftOver width lines ⟨rest, some (fetchedAs width true line), false, width, consumed + 1⟩

lemma drop_succ_of_cons {consumed : Nat} {line : Text} {rest : List Text}
    (h : lines.drop consumed = line :: rest) : lines.drop (consumed + 1) = rest := by
  rw [← List.tail_drop, h, List.tail_cons]

lemma kept_fresh (width : Nat) (lines : List Text) (on : Bool) : Kept (Fresh width lines on) := by
  constructor
  · intro s hs
    cases hs with
    | ahead h => exact .ahead h
    | @behind consumed rest h =>
      cases rest with
      | nil => exact .behind h
      | cons line rest =>
        have hahead : Fresh width lines on ⟨rest,
            some (asFetched ⟨line :: rest, none, on, width, consumed⟩ line), on, width,
            consumed + 1⟩ := by
          rw [asFetched_eq]
          exact .ahead h
        exact hahead
  · intro s t text hnext hs
    cases hs with
    | ahead h =>
      simp only [next?, consume, Option.some.injEq, Prod.mk.injEq] at hnext
      rw [← hnext.2]
      exact .behind (drop_succ_of_cons h)
    | @behind consumed rest h =>
      cases rest with
      | nil => simp [next?, fetch?] at hnext
      | cons line rest =>
        simp only [next?, fetch?, Option.some.injEq, Prod.mk.injEq] at hnext
        rw [← hnext.2]
        exact .behind (drop_succ_of_cons h)

lemma fresh_ofLines (width : Nat) (lines : List Text) :
    Fresh width lines false (ofLines width lines) := .behind rfl

lemma Fresh.dedenting_eq (h : Fresh width lines on s) : s.dedenting = on := by
  cases h <;> rfl

/-- Before any line is looked at, the mode can be switched. -/
lemma Fresh.setDedent (h : Fresh width lines on s) (hnone : s.lookahead = none) (on' : Bool) :
    Fresh width lines on' (s.setDedent on') := by
  cases h with
  | behind h => exact .behind h
  | ahead h => simp at hnone

lemma Fresh.setDedent_self (h : Fresh width lines on s) : s.setDedent on = s := by
  cases h <;> rfl

/-- A line that was looked at in dedent mode is left over when the mode is switched off. -/
lemma Fresh.leftOver (h : Fresh width lines true s) {text : Text}
    (hahead : s.lookahead = some text) : LeftOver width lines (s.setDedent false) := by
  cases h with
  | behind h => simp at hahead
  | ahead h => exact .mk h

lemma LeftOver.consume (h : LeftOver width lines s) : Fresh width lines false s.peek.2.consume := by
  cases h with
  | mk h => exact .behind (drop_succ_of_cons h)

lemma LeftOver.peek (h : LeftOver width lines s) : s.peek = (s.lookahead, s) := by
  cases h with
  | mk h => rfl

lemma LeftOver.lookahead_ne_none (h : LeftOver width lines s) : s.lookahead ≠ none := by
  cases h with
  | mk h => exact Option.some_ne_none _

/-- A line that was looked at is skipped if it passes the test, and stays if it fails. -/
lemma LeftOver.skipIf (h : LeftOver width lines s) (p : Text → Bool) {text : Text}
    (hahead : s.lookahead = some text) :
    (p text = true ∧ Fresh width lines false (s.skipIf p).2) ∨
      (p text = false ∧ (s.skipIf p).2 = s) := by
  obtain ⟨text', hpeek, hpasses, heq⟩ | ⟨hfails, heq⟩ := skipIf_cases p s
  · rw [h.peek, hahead] at hpeek
    obtain rfl := Option.some.inj hpeek
    rw [heq]
    exact .inl ⟨hpasses, h.consume⟩
  · rw [heq]
    rw [h.peek] at hfails ⊢
    exact .inr ⟨hfails text hahead, rfl⟩

end LineSource

/-! ### Guards that are left open -/

/-- The part ends with a guard whose body ends before a line that neither closes the guard nor is
its `return self;`. The rule that takes up the body of a header ends with such a guard if the body
does. -/
inductive EndsOpen : Part → LineSource → Prop where
  | guarded {line comment text : Text} {s t : LineSource} {c : Conditional}
      {lines : List OutputLine} (h : IsConstruct line (.statement (.conditional c)) comment)
      (hguard : c.isSelfGuard = true)
      (hbody : Converts (.block (.indented c.indent)) (s.setDedent true) lines t)
      (hahead : t.lookahead = some text) (hcloses : closesBlock text = false)
      (hreturns : isReturnSelf text = false) : EndsOpen (.unit line) s
  | braceless {line comment : Text} {s : LineSource} {c : Conditional}
      (h : IsConstruct line (.statement (.conditional c)) comment) (hguard : c.isSelfGuard = false)
      (hfollows : c.body = .follows) (hbrace : (s.skipIf isLoneBrace).1 = false)
      (hbody : EndsOpen (.block .statement) (s.skipIf isLoneBrace).2) : EndsOpen (.unit line) s
  | stopBehind {s : LineSource} {line : Text} (h : s.peek.1 = some line)
      (hbehind : BlockBound.statement.endsBehind line = true)
      (hunit : EndsOpen (.unit line) s.peek.2.consume) : EndsOpen (.block .statement) s
  | goOn {s t : LineSource} {line : Text} {lines : List OutputLine} (h : s.peek.1 = some line)
      (hbehind : BlockBound.statement.endsBehind line = false)
      (hunit : Converts (.unit line) s.peek.2.consume lines t)
      (hmore : EndsOpen (.block .statement) t) : EndsOpen (.block .statement) s

section Fresh

variable {width : Nat} {source : List Text} {part : Part} {s t : LineSource}
  {lines : List OutputLine}

open LineSource

/-- In dedent mode every line is looked at in that mode, whatever is converted. -/
lemma Converts.fresh_dedenting (h : Converts part s lines t) (hs : Fresh width source true s) :
    Fresh width source true t := by
  have hkept := kept_fresh width source true
  induction h with
  | alone h => exact hkept.alone h hs
  | guarded h hguard hbody ih =>
    rw [hs.setDedent_self] at ih
    have ht := ih hs
    rw [hs.dedenting_eq, ht.setDedent_self]
    exact hkept.skipGuardEnd ht
  | braceless h hguard hfollows hbrace hbody ih => exact ih (hkept.skipIf isLoneBrace hs)
  | outOfLines h => exact hkept.peek hs
  | stopBefore h hbefore => exact hkept.peek hs
  | stopBehind h hbefore hbehind hunit ih => exact ih (hkept.consume h hs)
  | goOn h hbefore hbehind hunit hmore ih ih' => exact ih' (ih (hkept.consume h hs))

/-- Behind the body of a guard its end is found, or the line that was looked at stays. -/
lemma skipGuardEnd_of_leftOver {text : Text} (hs : LeftOver width source s)
    (hahead : s.lookahead = some text) :
    ((closesBlock text = true ∨ isReturnSelf text = true) ∧
        Fresh width source false (skipGuardEnd s)) ∨
      (closesBlock text = false ∧ isReturnSelf text = false ∧ skipGuardEnd s = s) := by
  unfold skipGuardEnd
  obtain ⟨hcloses, hclosed⟩ | ⟨hcloses, hopen⟩ := hs.skipIf closesBlock hahead
  · exact .inl ⟨.inl hcloses, (kept_fresh width source false).skipIf isReturnSelf hclosed⟩
  · rw [hopen]
    obtain ⟨hreturns, hreturned⟩ | ⟨hreturns, hstays⟩ := hs.skipIf isReturnSelf hahead
    · exact .inl ⟨.inr hreturns, hreturned⟩
    · exact .inr ⟨hcloses, hreturns, hstays⟩

/-- The part may begin here: before the body of a header any line may have been looked at, before a
unit none. -/
def Part.MayBegin : Part → LineSource → Prop
  | .unit _, s => s.lookahead = none
  | .block bound, _ => bound = .statement

lemma fresh_of_unread (hnone : s.lookahead = none)
    (hs : Fresh width source false s ∨ LeftOver width source s) : Fresh width source false s := by
  obtain hs | hs := hs
  · exact hs
  · exact absurd hnone hs.lookahead_ne_none

lemma fresh_consume {line : Text} (h : s.peek.1 = some line)
    (hs : Fresh width source false s ∨ LeftOver width source s) :
    Fresh width source false s.peek.2.consume := by
  obtain hs | hs := hs
  · exact (kept_fresh width source false).consume h hs
  · exact hs.consume

/-- Outside guards every line is looked at outside guards, unless a guard is left open. -/
theorem Converts.fresh_or_endsOpen (h : Converts part s lines t) (hpart : part.MayBegin s)
    (hs : Fresh width source false s ∨ LeftOver width source s) :
    Fresh width source false t ∨ EndsOpen part s ∧ LeftOver width source t := by
  have hkept := kept_fresh width source false
  induction h with
  | alone h => exact .inl (hkept.alone h (fresh_of_unread hpart hs))
  | @guarded line comment s t c lines h hguard hbody ih =>
    have hs := fresh_of_unread hpart hs
    rw [hs.dedenting_eq]
    have ht := hbody.fresh_dedenting (hs.setDedent hpart true)
    cases hahead : t.lookahead with
    | none => exact .inl (hkept.skipGuardEnd (ht.setDedent hahead false))
    | some text =>
      have hleft := ht.leftOver hahead
      obtain ⟨-, hend⟩ | ⟨hcloses, hreturns, hstays⟩ := skipGuardEnd_of_leftOver hleft hahead
      · exact .inl hend
      · rw [hstays]
        exact .inr ⟨.guarded h hguard hbody hahead hcloses hreturns, hleft⟩
  | braceless h hguard hfollows hbrace hbody ih =>
    obtain ht | ⟨hopen, ht⟩ := ih rfl (.inl (hkept.skipIf isLoneBrace (fresh_of_unread hpart hs)))
    · exact .inl ht
    · exact .inr ⟨.braceless h hguard hfollows hbrace hopen, ht⟩
  | outOfLines h =>
    obtain hs | hs := hs
    · exact .inl (hkept.peek hs)
    · rw [hs.peek] at h
      exact absurd h hs.lookahead_ne_none
  | stopBefore h hbefore =>
    obtain rfl : _ = BlockBound.statement := hpart
    exact absurd hbefore (by simp [BlockBound.endsBefore])
  | stopBehind h hbefore hbehind hunit ih =>
    obtain rfl : _ = BlockBound.statement := hpart
    obtain ht | ⟨hopen, ht⟩ := ih rfl (.inl (fresh_consume h hs))
    · exact .inl ht
    · exact .inr ⟨.stopBehind h hbehind hopen, ht⟩
  | goOn h hbefore hbehind hunit hmore ih ih' =>
    obtain rfl : _ = BlockBound.statement := hpart
    obtain hu | ⟨hopen, hu⟩ := ih' rfl ((ih rfl (.inl (fresh_consume h hs))).imp_right And.right)
    · exact .inl hu
    · exact .inr ⟨.goOn h hbehind hunit hopen, hu⟩

/-- A guard that is left open leaves the line before which its body ends. -/
theorem EndsOpen.leftOver (h : EndsOpen part s) (hpart : part.MayBegin s)
    (hs : Fresh width source false s ∨ LeftOver width source s) :
    LeftOver width source (part.convert s).2 := by
  induction h with
  | guarded h hguard hbody hahead hcloses hreturns =>
    have hs := fresh_of_unread hpart hs
    have ht := (hbody.fresh_dedenting (hs.setDedent hpart true)).leftOver hahead
    rw [(Converts.guarded h hguard hbody).convert_eq, hs.dedenting_eq]
    obtain ⟨hcloses' | hreturns', -⟩ | ⟨-, -, hstays⟩ := skipGuardEnd_of_leftOver ht hahead
    · simp [hcloses] at hcloses'
    · simp [hreturns] at hreturns'
    · rwa [hstays]
  | @braceless line comment s c h hguard hfollows hbrace hbody ih =>
    have hskipped := (kept_fresh width source false).skipIf isLoneBrace (fresh_of_unread hpart hs)
    have hbody := converts_block .statement (s.skipIf isLoneBrace).2
    rw [(Converts.braceless h hguard hfollows hbrace hbody).convert_eq]
    exact ih rfl (.inl hskipped)
  | @stopBehind s line h hbehind hunit ih =>
    have hunit := converts_unit line s.peek.2.consume
    rw [(Converts.stopBehind h rfl hbehind hunit).convert_eq]
    exact ih rfl (.inl (fresh_consume h hs))
  | @goOn s t line lines h hbehind hunit hmore ih =>
    have hmore := converts_block .statement t
    rw [(Converts.goOn h rfl hbehind hunit hmore).convert_eq]
    exact ih rfl ((hunit.fresh_or_endsOpen rfl (.inl (fresh_consume h hs))).imp_right And.right)

end Fresh

/-! ### Steps behind a step -/

/-- The same step, made `n` lines further on. -/
def Step.shift (n : Nat) : Step → Step
  | emitted lines => emitted (lines.map (·.shift n))
  | nothing => nothing
  | exhausted => exhausted

namespace Converter

variable {width n : Nat} {c c' : Converter}

/-- Sources that are read in step are converted in the same steps. -/
lemma step_inStep {left : Nat} {Rel : LineSource → LineSource → Prop}
    (hRel : LineSource.InStep (· = ·) n left Rel)
    (h : LineSource.NextInStep (· = ·) Rel c.source c'.source)
    (hleft : left ≤ c.step.2.source.unread) :
    c'.step.1 = c.step.1.shift n ∧
      (c.step.2 = c ∧ c'.step.2 = c' ∨ Rel c.step.2.source c'.step.2.source) := by
  have hbehind (unit : Conversion c.source.unread) (hunit : convertNext c.source = some unit) :
      left ≤ unit.source.unread := by
    rwa [(step_of_some hunit).2.2] at hleft
  obtain ⟨hnone, hnone'⟩ | ⟨unit, unit', hunit, hunit', hlines, hsource⟩ :=
    hRel.convertNext blind_eq h hbehind
  · rw [step_of_none hnone, step_of_none hnone']
    exact ⟨rfl, .inl ⟨rfl, rfl⟩⟩
  · have hlines := OutputAlike.eq_map_shift id hlines
    refine ⟨?_, .inr ?_⟩
    · rw [step, step, hunit, hunit']
      dsimp only
      rw [hlines]
      cases unit.lines <;> rfl
    · rw [(step_of_some hunit).2.2, (step_of_some hunit').2.2]
      exact hsource

lemma step_shift (h : c.source.AlikeNext (· = ·) n c'.source) :
    c'.step.1 = c.step.1.shift n ∧ c.step.2.source.AlikeNext (· = ·) n c'.step.2.source := by
  obtain ⟨hstep, ⟨hsame, hsame'⟩ | hsource⟩ :=
    step_inStep (LineSource.inStep_alike _ _) h (Nat.zero_le _)
  · rw [hsame, hsame']
    exact ⟨hsame ▸ hstep, h⟩
  · exact ⟨hstep, hsource.next?_cases⟩

/-- From sources with the same lines before them the same steps are made. -/
lemma after_shift (h : c.source.AlikeNext (· = ·) n c'.source) (j : Nat) :
    (c'.after j).step.1 = ((c.after j).step.1).shift n := by
  induction j generalizing c c' with
  | zero => exact (step_shift h).1
  | succ j ih =>
    rw [after_succ, after_succ]
    exact ih (step_shift h).2

/-- The next step ends with a guard that is left open. -/
def LeavesOpen (c : Converter) : Prop :=
  ∃ line s, c.source.next? = some (line, s) ∧ EndsOpen (.unit line) s

end Converter

namespace LineSource

variable {width n : Nat} {lines : List Text} {s t : LineSource}

lemma lookahead_next? {text : Text} (h : s.next? = some (text, t)) : t.lookahead = none := by
  obtain ⟨pending, lookahead, dedenting, width, fetched⟩ := s
  cases lookahead with
  | some ahead =>
    simp only [next?, consume, Option.some.injEq, Prod.mk.injEq] at h
    rw [← h.2]
  | none =>
    cases pending with
    | nil => simp [next?, fetch?] at h
    | cons line rest =>
      simp only [next?, fetch?, Option.some.injEq, Prod.mk.injEq] at h
      rw [← h.2]

lemma fresh_next? {text : Text} (h : s.next? = some (text, t))
    (hs : s.Fresh width lines false ∨ s.LeftOver width lines) : t.Fresh width lines false := by
  obtain hs | hs := hs
  · exact (kept_fresh width lines false).next h hs
  · cases hs with
    | mk hdrop =>
      simp only [next?, consume, Option.some.injEq, Prod.mk.injEq] at h
      rw [← h.2]
      exact .behind (drop_succ_of_cons hdrop)

/-- What is before the source are the lines that are not consumed. -/
lemma Fresh.faces (h : s.Fresh width lines false) :
    s.Faces width s.lineNumber (lines.drop s.lineNumber) := by
  cases h with
  | @behind consumed rest h =>
    show Faces width _ consumed (lines.drop consumed)
    rw [h]
    exact .behind _ _
  | @ahead consumed line rest h =>
    show Faces width _ consumed (lines.drop consumed)
    rw [h, fetchedAs_false]
    exact .ahead _ _ _

lemma Fresh.stands (h : s.Fresh width lines false) :
    s.Stands width s.lineNumber (lines.drop s.lineNumber) :=
  h.faces.stands

lemma LeftOver.stands (h : s.LeftOver width lines) :
    s.Stands width s.lineNumber (lines.drop s.lineNumber) := by
  cases h with
  | @mk consumed line rest h =>
    show Stands width _ consumed (lines.drop consumed)
    rw [h]
    exact .ahead _ _ _ (.inr (fetchedAs_true width line))

/-- Sources that have the same lines to fetch are read in step. -/
lemma alike_of_pending {consumed consumed' : Nat} (h : consumed' = consumed + n) (width : Nat)
    (on : Bool) (rest : List Text) :
    Alike (· = ·) n ⟨rest, none, on, width, consumed⟩ ⟨rest, none, on, width, consumed'⟩ :=
  ⟨List.forall₂_same.mpr fun _ _ _ => rfl, rfl, h, Nat.zero_le _, Nat.zero_le _⟩

/-- The lines before the source come as they come to a new source for them. -/
lemma Faces.alikeNext {consumed : Nat} {rest : List Text} (h : s.Faces width consumed rest) :
    (ofLines width rest).AlikeNext (· = ·) consumed s := by
  cases h with
  | behind =>
    cases rest with
    | nil => exact .inl ⟨rfl, rfl⟩
    | cons line rest =>
      exact .inr ⟨_, _, _, _, rfl, rfl, rfl, alike_of_pending (Nat.add_comm _ _) width false rest⟩
  | ahead consumed line rest =>
    exact .inr ⟨_, _, _, _, rfl, rfl, rfl, alike_of_pending (Nat.add_comm _ _) width false rest⟩

lemma Fresh.alikeNext (h : s.Fresh width lines false) :
    (ofLines width (lines.drop s.lineNumber)).AlikeNext (· = ·) s.lineNumber s :=
  h.faces.alikeNext

lemma trimEnd_dedent_trimEnd (width : Nat) (line : Text) :
    trimEnd (dedent width (trimEnd line)) = dedent width (trimEnd line) := by
  obtain ⟨indent, -, hline⟩ := exists_dedent width (trimEnd line)
  apply trimEnd_of_append (s := indent)
  rw [← hline, trimEnd_trimEnd]

/-- The line that is left over comes as if it stood in the text as it was fetched. -/
lemma LeftOver.alikeNext (h : s.LeftOver width lines) :
    ∃ line rest, lines.drop s.lineNumber = line :: rest ∧
      (ofLines width (dedent width (trimEnd line) :: rest)).AlikeNext (· = ·) s.lineNumber s := by
  cases h with
  | @mk consumed line rest h =>
    refine ⟨line, rest, h, ?_⟩
    show AlikeNext _ consumed _ _
    rw [fetchedAs_true]
    exact .inr ⟨_, _, _, _, rfl, rfl, trimEnd_dedent_trimEnd width line,
      alike_of_pending (Nat.add_comm _ _) width false rest⟩

lemma LeftOver.next?_ne_none (h : s.LeftOver width lines) : s.next? ≠ none := by
  cases h with
  | mk h => exact Option.some_ne_none _

end LineSource

namespace Converter

variable {width : Nat} {lines : List Text} {c : Converter}

lemma step_fresh (hs : c.source.Fresh width lines false ∨ c.source.LeftOver width lines)
    (h : ¬c.LeavesOpen) : c.step.2.source.Fresh width lines false := by
  obtain ⟨hnone, hconvert⟩ | ⟨line, s, unit, hnext, hunit, -, hsource⟩ := convertNext_cases c.source
  · rw [step_of_none hconvert]
    obtain hs | hs := hs
    · exact hs
    · exact absurd hnone hs.next?_ne_none
  · have hsfresh := LineSource.fresh_next? hnext hs
    rw [(step_of_some hunit).2.2, hsource]
    obtain ht | ⟨hopen, -⟩ :=
      (converts_unit line s).fresh_or_endsOpen (LineSource.lookahead_next? hnext) (.inl hsfresh)
    · exact ht
    · exact absurd ⟨line, s, hnext, hopen⟩ h

lemma step_leftOver (hs : c.source.Fresh width lines false ∨ c.source.LeftOver width lines)
    (h : c.LeavesOpen) : c.step.2.source.LeftOver width lines := by
  obtain ⟨line, s, hnext, hopen⟩ := h
  have hleft := hopen.leftOver (LineSource.lookahead_next? hnext)
    (.inl (LineSource.fresh_next? hnext hs))
  rwa [(step_of_converts hnext (converts_unit line s)).2]

lemma after_fresh (width : Nat) (lines : List Text) (k : Nat) :
    ((ofLines width lines).after k).source.Fresh width lines false ∨
      ((ofLines width lines).after k).source.LeftOver width lines := by
  induction k with
  | zero => exact .inl (LineSource.fresh_ofLines width lines)
  | succ k ih =>
    by_cases hopen : ((ofLines width lines).after k).LeavesOpen
    · exact .inr (step_leftOver ih hopen)
    · exact .inl (step_fresh ih hopen)

/-- After any number of steps a converter goes on as a new converter for the lines that are left,
only that its lines of output carry the numbers of the lines that they are made from. If the last
step has left a guard open, this holds with the first of these lines de-indented. -/
theorem step_after (width : Nat) (lines : List Text) (k : Nat) :
    let c := ofLines width lines
    let m := (c.after k).source.lineNumber
    (c.after k).source.Stands width m (lines.drop m) ∧
      ((∀ i, k = i + 1 → ¬(c.after i).LeavesOpen) →
        ∀ j, (c.after (k + j)).step.1 = (((ofLines width (lines.drop m)).after j).step.1).shift m) ∧
      ∀ i, k = i + 1 → (c.after i).LeavesOpen →
        ∃ line rest, lines.drop m = line :: rest ∧
          ∀ j, (c.after (k + j)).step.1 =
            (((ofLines width (dedent width (trimEnd line) :: rest)).after j).step.1).shift m := by
  intro c m
  refine ⟨?_, ?_, ?_⟩
  · obtain hs | hs := after_fresh width lines k
    · exact hs.stands
    · exact hs.stands
  · intro hclosed j
    have hs : (c.after k).source.Fresh width lines false := by
      cases k with
      | zero => exact LineSource.fresh_ofLines width lines
      | succ i => exact step_fresh (after_fresh width lines i) (hclosed i rfl)
    rw [after_add]
    exact after_shift hs.alikeNext j
  · rintro i rfl hopen
    obtain ⟨line, rest, hdrop, halike⟩ :=
      (step_leftOver (after_fresh width lines i) hopen).alikeNext
    refine ⟨line, rest, hdrop, ?_⟩
    intro j
    rw [after_add]
    exact after_shift halike j

/-- The note before the closing brace of a guard is not indented as deep as the guard's body, so it
stands behind the body, and still it loses its indentation. -/
example :
    let lines := ["    if (self) \x7b".toList, "        a = 1;".toList, "    // note".toList,
      "    \x7d".toList]
    ((ofLines 4 lines).after 1).source.lineNumber = 2 ∧
      ((ofLines 4 lines).after 1).step.1 = .emitted [⟨3, "// note".toList⟩] ∧
      (ofLines 4 (lines.drop 2)).step.1 = .emitted [⟨1, "    // note".toList⟩] := by
  decide +kernel

end Converter

end Swiftward
