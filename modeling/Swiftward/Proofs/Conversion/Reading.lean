import Mathlib.Data.List.Forall2
import Mathlib.Tactic.Common
import Swiftward.Conversion.Rules

/-!
# What is read of a source

A source *stands* behind the lines that are consumed and before those that are not, and everything
done to a source is told by the lines that are consumed on the way. Looking at a line and switching
the mode consume nothing. A mode that is switched on is switched back, so reading on from a source
leaves its mode as it was (`Reads.dedenting_eq`).
-/

namespace Swiftward

namespace LineSource

/-! ### Where a source stands -/

/-- A line as it may be fetched: without the white space at its end, and perhaps without a unit of
indentation. -/
def IsFetched (width : Nat) (line text : Text) : Prop :=
  text = trimEnd line ∨ text = dedent width (trimEnd line)

lemma isFetched_asFetched (s : LineSource) (line : Text) :
    IsFetched s.width line (s.asFetched line) := by
  unfold asFetched
  split_ifs
  · exact .inr rfl
  · exact .inl rfl

/-- The source has `consumed` lines behind it and the lines `rest` before it. -/
inductive Stands (width : Nat) : LineSource → Nat → List Text → Prop where
  | behind (dedenting : Bool) (consumed : Nat) (rest : List Text) :
      Stands width ⟨rest, none, dedenting, width, consumed⟩ consumed rest
  | ahead (dedenting : Bool) (consumed : Nat) (rest : List Text) {line text : Text}
      (h : IsFetched width line text) :
      Stands width ⟨rest, some text, dedenting, width, consumed + 1⟩ consumed (line :: rest)

section Stands

variable {width consumed : Nat} {rest : List Text} {s : LineSource}

lemma stands_ofLines (width : Nat) (lines : List Text) :
    (ofLines width lines).Stands width 0 lines := .behind false 0 lines

lemma Stands.lineNumber (h : s.Stands width consumed rest) : s.lineNumber = consumed := by
  cases h <;> simp [LineSource.lineNumber]

lemma Stands.unread (h : s.Stands width consumed rest) : s.unread = rest.length := by
  cases h <;> simp [LineSource.unread]

lemma Stands.setDedent (h : s.Stands width consumed rest) (on : Bool) :
    (s.setDedent on).Stands width consumed rest := by
  cases h with
  | behind => exact .behind on _ _
  | ahead _ _ _ h => exact .ahead on _ _ h

lemma Stands.peek (h : s.Stands width consumed rest) : s.peek.2.Stands width consumed rest := by
  cases h with
  | behind dedenting consumed rest =>
    cases rest with
    | nil => exact .behind dedenting consumed []
    | cons line rest => exact .ahead dedenting consumed rest (isFetched_asFetched _ line)
  | ahead _ _ _ h => exact .ahead _ _ _ h

/-- The next line is the first of those that are not consumed. -/
lemma Stands.next? (h : s.Stands width consumed rest) {text : Text} {s' : LineSource}
    (hnext : s.next? = some (text, s')) :
    ∃ line rest', rest = line :: rest' ∧ IsFetched width line text ∧
      s'.Stands width (consumed + 1) rest' := by
  cases h with
  | behind dedenting consumed rest =>
    cases rest with
    | nil => simp [LineSource.next?, fetch?] at hnext
    | cons line rest =>
      simp only [LineSource.next?, fetch?, Option.some.injEq, Prod.mk.injEq] at hnext
      obtain ⟨rfl, rfl⟩ := hnext
      exact ⟨line, rest, rfl, isFetched_asFetched _ line, .behind _ _ _⟩
  | @ahead dedenting consumed rest line _ h =>
    simp only [LineSource.next?, consume, Option.some.injEq, Prod.mk.injEq] at hnext
    obtain ⟨rfl, rfl⟩ := hnext
    exact ⟨line, rest, rfl, h, .behind _ _ _⟩

lemma Stands.next?_eq_none (h : s.Stands width consumed rest) : s.next? = none ↔ rest = [] := by
  cases h with
  | behind dedenting consumed rest => cases rest <;> simp [LineSource.next?, fetch?]
  | ahead => simp [LineSource.next?]

end Stands

/-! ### The operations on a source -/

@[simp] lemma dedenting_setDedent (s : LineSource) (on : Bool) : (s.setDedent on).dedenting = on :=
  rfl

@[simp] lemma dedenting_peek (s : LineSource) : s.peek.2.dedenting = s.dedenting := by
  obtain ⟨_ | _, _ | _, _, _, _⟩ := s <;> rfl

lemma dedenting_next? {s s' : LineSource} {text : Text} (h : s.next? = some (text, s')) :
    s'.dedenting = s.dedenting := by
  obtain ⟨pending, lookahead, dedenting, width, fetched⟩ := s
  cases lookahead with
  | some line =>
    simp only [next?, consume, Option.some.injEq, Prod.mk.injEq] at h
    rw [← h.2]
  | none =>
    cases pending with
    | nil => simp [next?, fetch?] at h
    | cons line rest =>
      simp only [next?, fetch?, Option.some.injEq, Prod.mk.injEq] at h
      rw [← h.2]

/-- What was looked at is what comes next. -/
lemma next?_peek {s : LineSource} {text : Text} (h : s.peek.1 = some text) :
    s.peek.2.next? = some (text, s.peek.2.consume) := by
  obtain ⟨_ | line, _ | ahead, dedenting, width, fetched⟩ := s
  · simp [peek, fetch?] at h
  · simpa [peek, fetch?, next?] using h
  · simpa [peek, fetch?, next?] using h
  · simpa [peek, fetch?, next?] using h

/-- What comes next is what would be looked at. -/
lemma next?_eq (s : LineSource) : s.next? = s.peek.1.map fun text => (text, s.peek.2.consume) := by
  obtain ⟨_ | ⟨line, rest⟩, _ | ahead, dedenting, width, fetched⟩ := s <;> rfl

/-! ### Reading on -/

/-- One source is what the other becomes when the given lines are consumed. The mode is switched
only for a part of them. -/
inductive Reads : LineSource → List Text → LineSource → Prop where
  | refl (s : LineSource) : Reads s [] s
  | peek {s t : LineSource} {texts : List Text} (h : Reads s.peek.2 texts t) : Reads s texts t
  | next {s s' t : LineSource} {text : Text} (hnext : s.next? = some (text, s'))
      {texts : List Text} (h : Reads s' texts t) : Reads s (text :: texts) t
  | dedented {s t u : LineSource} (on : Bool) {texts texts' : List Text}
      (h : Reads (s.setDedent on) texts t) (h' : Reads (t.setDedent s.dedenting) texts' u) :
      Reads s (texts ++ texts') u

namespace Reads

variable {s t u : LineSource} {texts texts' : List Text}

lemma trans (h : Reads s texts t) (h' : Reads t texts' u) : Reads s (texts ++ texts') u := by
  induction h with
  | refl => exact h'
  | peek _ ih => exact .peek (ih h')
  | next hnext _ ih => exact .next hnext (ih h')
  | dedented on h _ _ ih' =>
    rw [List.append_assoc]
    exact .dedented on h (ih' h')

/-- Reading on leaves the mode as it was. -/
lemma dedenting_eq (h : Reads s texts t) : t.dedenting = s.dedenting := by
  induction h with
  | refl => rfl
  | peek _ ih => rw [ih, dedenting_peek]
  | next hnext _ ih => rw [ih, dedenting_next? hnext]
  | dedented on _ _ _ ih' => rw [ih', dedenting_setDedent]

/-- The lines that are read are the next ones, in order and without a gap. -/
lemma stands (h : Reads s texts t) {width consumed : Nat} {rest : List Text}
    (hs : s.Stands width consumed rest) :
    ∃ group rest', rest = group ++ rest' ∧ List.Forall₂ (IsFetched width) group texts ∧
      t.Stands width (consumed + group.length) rest' := by
  induction h generalizing consumed rest with
  | refl => exact ⟨[], rest, rfl, .nil, hs⟩
  | peek _ ih => exact ih hs.peek
  | next hnext _ ih =>
    obtain ⟨line, rest, rfl, hline, hs⟩ := hs.next? hnext
    obtain ⟨group, rest, rfl, hgroup, ht⟩ := ih hs
    refine ⟨line :: group, rest, rfl, .cons hline hgroup, ?_⟩
    rwa [List.length_cons, Nat.add_comm group.length, ← Nat.add_assoc]
  | dedented on _ _ ih ih' =>
    obtain ⟨group, rest, rfl, hgroup, ht⟩ := ih (hs.setDedent on)
    obtain ⟨group', rest, rfl, hgroup', hu⟩ := ih' (ht.setDedent _)
    refine ⟨group ++ group', rest, by simp, List.rel_append hgroup hgroup', ?_⟩
    rwa [List.length_append, ← Nat.add_assoc]

lemma consume_peek {text : Text} (h : s.peek.1 = some text) : Reads s [text] s.peek.2.consume :=
  .peek (.next (next?_peek h) (.refl _))

end Reads

/-- A line is consumed only if something is made of it. -/
lemma nextWhere_cases (f : Text → Option β) (s : LineSource) :
    (∃ text b, s.peek.1 = some text ∧ f text = some b ∧
        s.nextWhere f = (some b, s.peek.2.consume)) ∨
      (∀ text ∈ s.peek.1, f text = none) ∧ s.nextWhere f = (none, s.peek.2) := by
  unfold nextWhere
  rcases hpeek : s.peek with ⟨_ | text, s'⟩
  · exact .inr ⟨by simp, rfl⟩
  · cases hf : f text with
    | none => exact .inr ⟨by simpa using hf, by simp [hf]⟩
    | some b => exact .inl ⟨text, b, rfl, hf, by simp [hf]⟩

/-- A line is skipped exactly if it passes the test. -/
lemma skipIf_cases (p : Text → Bool) (s : LineSource) :
    (∃ text, s.peek.1 = some text ∧ p text = true ∧ s.skipIf p = (true, s.peek.2.consume)) ∨
      (∀ text ∈ s.peek.1, p text = false) ∧ s.skipIf p = (false, s.peek.2) := by
  obtain ⟨text, b, hpeek, hf, heq⟩ | ⟨hnone, heq⟩ :=
    nextWhere_cases (fun text => if p text then some () else none) s
  · left
    refine ⟨text, hpeek, by simpa using hf, ?_⟩
    rw [skipIf, heq]
    rfl
  · right
    constructor
    · intro text htext
      simpa using hnone text htext
    · rw [skipIf, heq]
      rfl

/-! ### What reading on keeps -/

/-- A property that is kept when a line is looked at and when one is consumed. -/
structure Kept (P : LineSource → Prop) : Prop where
  peek : ∀ {s}, P s → P s.peek.2
  next : ∀ {s t : LineSource} {text : Text}, s.next? = some (text, t) → P s → P t

namespace Kept

variable {P : LineSource → Prop}

lemma consume (hP : Kept P) {s : LineSource} {text : Text} (h : s.peek.1 = some text) (hs : P s) :
    P s.peek.2.consume :=
  hP.next (next?_peek h) (hP.peek hs)

lemma nextWhere (hP : Kept P) (f : Text → Option β) {s : LineSource} (hs : P s) :
    P (s.nextWhere f).2 := by
  obtain ⟨text, b, hpeek, -, heq⟩ | ⟨-, heq⟩ := nextWhere_cases f s
  · rw [heq]
    exact hP.consume hpeek hs
  · rw [heq]
    exact hP.peek hs

lemma skipIf (hP : Kept P) (p : Text → Bool) {s : LineSource} (hs : P s) : P (s.skipIf p).2 :=
  hP.nextWhere _ hs

lemma skipWhile (hP : Kept P) (p : Text → Bool) {s : LineSource} (hs : P s) :
    P (s.skipWhile p) := by
  revert hs
  fun_induction LineSource.skipWhile p s with
  | case1 s skipped h ih =>
    intro hs
    exact ih (hP.skipIf p hs)
  | case2 s skipped h =>
    intro hs
    exact hP.skipIf p hs

lemma readUntil (hP : Kept P) (stop : Text → Bool) {s : LineSource} (hs : P s) :
    P (s.readUntil stop).2 := by
  fun_induction LineSource.readUntil stop s with
  | case1 s h => exact hs
  | case2 s text t h hstop => exact hP.next h hs
  | case3 s text t h hstop lines rest hrest ih =>
    have ih := ih (hP.next h hs)
    rwa [hrest] at ih

end Kept

/-- To be read on from a source is kept. -/
lemma kept_reads (s : LineSource) : Kept fun t => ∃ texts, s.Reads texts t := by
  constructor
  · rintro t ⟨texts, h⟩
    exact ⟨_, h.trans (.peek (.refl _))⟩
  · rintro t u text hnext ⟨texts, h⟩
    exact ⟨_, h.trans (.next hnext (.refl u))⟩

lemma reads_skipIf (p : Text → Bool) (s : LineSource) : ∃ texts, Reads s texts (s.skipIf p).2 :=
  (kept_reads s).skipIf p ⟨[], .refl s⟩

end LineSource

lemma LineSource.Kept.readContinuations {P : LineSource → Prop} (hP : Kept P)
    (header : MethodHeader) {s : LineSource} (hs : P s) :
    P (Swiftward.readContinuations header s).2 := by
  fun_induction Swiftward.readContinuations header s with
  | case1 header s haccepts continuation t h ih =>
    have hnext := hP.nextWhere Continuation.parse? hs
    rw [h] at hnext
    exact ih hnext
  | case2 header s haccepts t h =>
    have hnext := hP.nextWhere Continuation.parse? hs
    rwa [h] at hnext
  | case3 header s haccepts => exact hs

end Swiftward
