import Mathlib.Data.List.TakeWhile
import Mathlib.Tactic.Common
import Swiftward.Proofs.Text.Closed
import Swiftward.Text.Literal

/-!
# The texts of literals

The literals of a text are found as stretches of bytes. What stands in these stretches
(`literalTexts`) can as well be read off character by character (`literalTexts_eq`), and then two
closed texts in a row have the literals of both. A character that is no quote stands outside of the
stretches exactly if what is before it leaves no literal open (`inLiteral_eq_false_iff`).

A closed text falls into stretches without quotes and single literals (`Closed.divided`). So a
function that acts on its own between any two quotes acts on its own on every literal
(`ActsBetweenQuotes.literalTexts`).
-/

namespace Swiftward

/-! ### Slices -/

/-- What stands in a stretch of a text. -/
def Span.slice (span : Span) (s : Text) : Text :=
  (splitAtByte (span.stop - span.start) (splitAtByte span.start s).2).1

/-- The literals of a text, quotes included, from left to right. -/
def literalTexts (s : Text) : List Text := (literalSpans s).map (·.slice s)

lemma splitAtByte_append (s t : Text) : splitAtByte (byteSize s) (s ++ t) = (s, t) := by
  induction s with
  | nil => simp [splitAtByte]
  | cons c s ih =>
    have hpos := c.utf8Size_pos
    obtain ⟨n, hn⟩ : ∃ n, byteSize (c :: s) = n + 1 := ⟨byteSize (c :: s) - 1, by simp; omega⟩
    have hrest : n + 1 - c.utf8Size = byteSize s := by rw [← hn, byteSize_cons]; omega
    rw [hn, List.cons_append, splitAtByte, hrest, ih]

lemma Span.slice_append (lead s rest : Text) :
    (⟨byteSize lead, byteSize (lead ++ s)⟩ : Span).slice (lead ++ s ++ rest) = s := by
  have hsize : byteSize (lead ++ s) - byteSize lead = byteSize s := by simp
  rw [slice, List.append_assoc, splitAtByte_append, hsize, splitAtByte_append]

/-- The literals of the rest of a text that is read in state `q`. If `q` is inside a literal, then
`opened` is what has been read of it. -/
def literalsFrom (q : Quoting) (opened : Text) : Text → List Text
  | [] => if q = .code then [] else [opened]
  | c :: s =>
    let q' := q.stepChar c
    if q = .code then literalsFrom q' [c] s
    else if q' = .code then (opened ++ [c]) :: literalsFrom q' [] s
    else literalsFrom q' (opened ++ [c]) s

lemma map_slice_literalSpansFrom (q : Quoting) (lead opened s : Text) :
    (literalSpansFrom q (byteSize lead) (byteSize (lead ++ opened)) s).map
      (·.slice (lead ++ opened ++ s)) = literalsFrom q opened s := by
  induction s generalizing q lead opened with
  | nil =>
    rw [literalSpansFrom, literalsFrom]
    by_cases hq : q = .code
    · simp [hq]
    · rw [if_neg hq, if_neg hq, List.map_cons, Span.slice_append, List.map_nil]
  | cons c s ih =>
    have hnext (s : Text) : byteSize s + c.utf8Size = byteSize (s ++ [c]) := by simp
    rw [literalSpansFrom, literalsFrom, hnext]
    by_cases hq : q = .code
    · rw [if_pos hq, if_pos hq]
      simpa using ih (q.stepChar c) (lead ++ opened) [c]
    · rw [if_neg hq, if_neg hq]
      by_cases hq' : q.stepChar c = .code
      · rw [if_pos hq', if_pos hq', List.map_cons]
        have hslice := Span.slice_append lead (opened ++ [c]) s
        have hlater := ih (q.stepChar c) (lead ++ (opened ++ [c])) []
        simp only [List.append_assoc, List.cons_append, List.nil_append, List.append_nil] at *
        rw [hslice, hlater]
      · rw [if_neg hq', if_neg hq']
        have hlater := ih (q.stepChar c) lead (opened ++ [c])
        simp only [List.append_assoc, List.cons_append, List.nil_append] at *
        exact hlater

lemma literalTexts_eq (s : Text) : literalTexts s = literalsFrom .code [] s :=
  map_slice_literalSpansFrom .code [] [] s

/-! ### Offsets in and outside of literals -/

/-- No literal begins before what is read, or where the open one did. -/
lemma le_start_of_mem {q : Quoting} {start offset : Nat} (hle : start ≤ offset) {s : Text} :
    ∀ span ∈ literalSpansFrom q start offset s,
      (if q = .code then offset else start) ≤ span.start := by
  induction s generalizing q start offset with
  | nil =>
    intro span hspan
    rw [literalSpansFrom] at hspan
    split_ifs at hspan with hq
    · cases hspan
    · obtain rfl := List.mem_singleton.mp hspan
      rw [if_neg hq]
  | cons c s ih =>
    intro span hspan
    have hnext : offset ≤ offset + c.utf8Size := Nat.le_add_right ..
    rw [literalSpansFrom] at hspan
    by_cases hq : q = .code
    · rw [if_pos hq] at hspan ⊢
      have hlater := ih hnext span hspan
      split_ifs at hlater <;> omega
    · rw [if_neg hq] at hspan ⊢
      split_ifs at hspan with hq'
      · rcases List.mem_cons.mp hspan with rfl | hspan
        · exact Nat.le_refl _
        · have hlater := ih (Nat.le_refl _) span hspan
          rw [ite_self] at hlater
          omega
      · have hlater := ih (by omega) span hspan
        rwa [if_neg hq'] at hlater

/-- A character in code that is no quote stands in no literal. -/
lemma not_contains_of_mem {q : Quoting} {front : Text} (hfront : q.run front = .code) {c : Char}
    (hc : isUnquoted c = true) {start offset : Nat} (hle : start ≤ offset) {s : Text} :
    ∀ span ∈ literalSpansFrom q start offset (front ++ c :: s),
      span.contains (offset + byteSize front) = false := by
  induction front generalizing q start offset with
  | nil =>
    obtain rfl : q = .code := hfront
    intro span hspan
    have hpos := c.utf8Size_pos
    have hstep : Quoting.code.stepChar c = .code := Quoting.step_code_of_isUnquoted hc
    rw [List.nil_append, literalSpansFrom, if_pos rfl, hstep] at hspan
    have hstart := le_start_of_mem (Nat.le_add_right ..) span hspan
    rw [if_pos rfl] at hstart
    rw [Span.contains, decide_eq_false (by simp; omega), Bool.false_and]
  | cons d front ih =>
    intro span hspan
    have hoffset : offset + byteSize (d :: front) = offset + d.utf8Size + byteSize front := by
      rw [byteSize_cons, Nat.add_assoc]
    rw [hoffset]
    rw [List.cons_append, literalSpansFrom] at hspan
    split_ifs at hspan with hq hq'
    · exact ih hfront (Nat.le_add_right ..) span hspan
    · rcases List.mem_cons.mp hspan with rfl | hspan
      · simp only [Span.contains, Bool.and_eq_false_imp, decide_eq_true_eq, decide_eq_false_iff_not]
        omega
      · exact ih hfront (Nat.le_refl _) span hspan
    · exact ih hfront (by omega) span hspan

lemma inLiteral_eq_false {front : Text} (hfront : Closed front) {c : Char}
    (hc : isUnquoted c = true) (s : Text) : inLiteral (front ++ c :: s) (byteSize front) = false := by
  have hnot := not_contains_of_mem hfront hc (Nat.le_refl 0) (s := s)
  rw [Nat.zero_add] at hnot
  exact List.any_eq_false.mpr fun span hspan => Bool.not_eq_true _ ▸ hnot span hspan

/-- An open literal goes at least up to what has been read. -/
lemma exists_stop {q : Quoting} (hq : q ≠ .code) (start offset : Nat) (s : Text) :
    ∃ stop, offset ≤ stop ∧ (⟨start, stop⟩ : Span) ∈ literalSpansFrom q start offset s := by
  induction s generalizing q offset with
  | nil => exact ⟨offset, Nat.le_refl offset, by simp [literalSpansFrom, hq]⟩
  | cons c s ih =>
    rw [literalSpansFrom, if_neg hq]
    by_cases hq' : q.stepChar c = .code
    · exact ⟨offset + c.utf8Size, by omega, by simp [hq']⟩
    · obtain ⟨stop, hle, hmem⟩ := ih hq' (offset + c.utf8Size)
      exact ⟨stop, by omega, by rwa [if_neg hq']⟩

/-- A character inside of a literal stands in its stretch. -/
lemma exists_contains {q : Quoting} {front : Text} (hfront : q.run front ≠ .code) (c : Char)
    {start offset : Nat} (hle : start ≤ offset) (s : Text) :
    ∃ span ∈ literalSpansFrom q start offset (front ++ c :: s),
      span.contains (offset + byteSize front) = true := by
  induction front generalizing q start offset with
  | nil =>
    have hq : q ≠ .code := hfront
    have hpos := c.utf8Size_pos
    rw [List.nil_append, literalSpansFrom, if_neg hq]
    by_cases hq' : q.stepChar c = .code
    · rw [if_pos hq']
      exact ⟨_, List.mem_cons_self, by simp [Span.contains, hle, hpos]⟩
    · obtain ⟨stop, hstop, hmem⟩ := exists_stop hq' start (offset + c.utf8Size) s
      have hlt : offset < stop := by omega
      rw [if_neg hq']
      exact ⟨_, hmem, by simp [Span.contains, hle, hlt]⟩
  | cons d front ih =>
    have hrest : (q.stepChar d).run front ≠ .code := hfront
    rw [byteSize_cons, ← Nat.add_assoc, List.cons_append, literalSpansFrom]
    split_ifs
    · exact ih hrest (Nat.le_add_right ..)
    · obtain ⟨span, hmem, hcontains⟩ := ih hrest (Nat.le_refl (offset + d.utf8Size))
      exact ⟨span, List.mem_cons_of_mem _ hmem, hcontains⟩
    · exact ih hrest (by omega)

/-- A character that is no quote stands in no literal if what is before it leaves none open. -/
lemma inLiteral_eq_false_iff {front : Text} {c : Char} (hc : isUnquoted c = true) (s : Text) :
    inLiteral (front ++ c :: s) (byteSize front) = false ↔ Closed front := by
  refine ⟨fun hout => ?_, fun hfront => inLiteral_eq_false hfront hc s⟩
  by_contra hopen
  obtain ⟨span, hmem, hcontains⟩ := exists_contains hopen c (Nat.le_refl 0) s
  have hnone := List.any_eq_false.mp hout span hmem
  rw [Nat.zero_add] at hcontains
  exact hnone hcontains

/-! ### Closed texts in a row -/

@[simp] lemma literalTexts_nil : literalTexts [] = [] := rfl

lemma literalsFrom_code (opened s : Text) : literalsFrom .code opened s = literalTexts s := by
  rw [literalTexts_eq]
  cases s <;> rfl

lemma literalsFrom_append {q : Quoting} {s : Text} (h : q.run s = .code) (opened t : Text) :
    literalsFrom q opened (s ++ t) = literalsFrom q opened s ++ literalTexts t := by
  induction s generalizing q opened with
  | nil =>
    obtain rfl : q = .code := h
    rw [List.nil_append, literalsFrom_code, literalsFrom_code]
    rfl
  | cons c s ih =>
    have hs : (q.stepChar c).run s = .code := h
    rw [List.cons_append, literalsFrom, literalsFrom, ih hs, ih hs, ih hs]
    by_cases hq : q = .code
    · rw [if_pos hq, if_pos hq]
    · by_cases hq' : q.stepChar c = .code <;> simp [hq, hq']

lemma literalTexts_append {s : Text} (hs : Closed s) (t : Text) :
    literalTexts (s ++ t) = literalTexts s ++ literalTexts t := by
  rw [literalTexts_eq, literalTexts_eq s, literalsFrom_append hs]

/-- A text without quotes. -/
def Unquoted (s : Text) : Prop := ∀ c ∈ s, isUnquoted c = true

instance (s : Text) : Decidable (Unquoted s) :=
  List.decidableBAll (fun c => isUnquoted c = true) s

@[simp] lemma unquoted_nil : Unquoted [] := by simp [Unquoted]

@[simp] lemma unquoted_cons {c : Char} {s : Text} :
    Unquoted (c :: s) ↔ isUnquoted c = true ∧ Unquoted s := by simp [Unquoted]

@[simp] lemma unquoted_append {s t : Text} : Unquoted (s ++ t) ↔ Unquoted s ∧ Unquoted t := by
  simp only [Unquoted, List.mem_append]
  grind

lemma Unquoted.append {s t : Text} (hs : Unquoted s) (ht : Unquoted t) : Unquoted (s ++ t) :=
  unquoted_append.mpr ⟨hs, ht⟩

lemma Unquoted.subset {s t : Text} (h : Unquoted t) (hs : s ⊆ t) : Unquoted s := by
  intro c hc
  exact h c (hs hc)

lemma Unquoted.closed {s : Text} (h : Unquoted s) : Closed s := closed_of_forall_isUnquoted h

@[simp] lemma Unquoted.literalTexts_eq {s : Text} (h : Unquoted s) : literalTexts s = [] := by
  rw [Swiftward.literalTexts_eq]
  generalize ([] : Text) = opened
  induction s generalizing opened with
  | nil => rfl
  | cons c s ih =>
    obtain ⟨hc, hs⟩ := unquoted_cons.mp h
    have hstep : Quoting.code.stepChar c = .code := Quoting.step_code_of_isUnquoted hc
    rw [literalsFrom, if_pos rfl, hstep]
    exact ih hs [c]

/-! ### Stretches without quotes, and literals -/

/-- A text that is one literal, closed at its very end. -/
structure IsLiteral (l : Text) : Prop where
  closed : Closed l
  literalTexts_eq : literalTexts l = [l]

instance (l : Text) : Decidable (IsLiteral l) :=
  decidable_of_iff (Closed l ∧ literalTexts l = [l]) ⟨fun ⟨hc, hl⟩ => ⟨hc, hl⟩,
    fun ⟨hc, hl⟩ => ⟨hc, hl⟩⟩

/-- Only the quote that opened a literal closes it. -/
lemma Quoting.stepChar_literal (mark : Char) (escaped : Bool) (c : Char) :
    c = mark ∧ (literal mark escaped).stepChar c = .code ∨
      ∃ escaped', (literal mark escaped).stepChar c = .literal mark escaped' := by
  cases escaped with
  | true => exact .inr ⟨false, rfl⟩
  | false =>
    unfold stepChar
    grind

/-- Up to the mark that closes it, a literal is read whole. -/
lemma literalsFrom_literal {mark : Char} {escaped : Bool} {s : Text}
    (h : (Quoting.literal mark escaped).run s = .code) (opened : Text) :
    ∃ body t, s = body ++ mark :: t ∧ (Quoting.literal mark escaped).run (body ++ [mark]) = .code ∧
      literalsFrom (.literal mark escaped) opened (body ++ [mark]) = [opened ++ body ++ [mark]] := by
  induction s generalizing escaped opened with
  | nil => simp at h
  | cons c s ih =>
    rcases Quoting.stepChar_literal mark escaped c with ⟨rfl, hend⟩ | ⟨escaped', hstep⟩
    · refine ⟨[], s, rfl, hend, ?_⟩
      simp [literalsFrom, hend]
    · rw [Quoting.run_cons, Quoting.step_char, hstep] at h
      obtain ⟨body, t, rfl, hrun, hbody⟩ := ih h (opened ++ [c])
      refine ⟨c :: body, t, rfl, ?_, ?_⟩
      · rw [List.cons_append, Quoting.run_cons, Quoting.step_char, hstep, hrun]
      · rw [List.cons_append, literalsFrom, if_neg (by simp), hstep, if_neg (by simp), hbody]
        simp

/-- What opens a literal in code is a quote. -/
lemma stepChar_code_of_quote {mark : Char} (h : isUnquoted mark = false) :
    Quoting.code.stepChar mark = .literal mark false := by
  have hquote : (mark == '"' || mark == '\'') = true := by
    simpa [isUnquoted, or_iff_not_imp_left] using h
  simp only [Quoting.stepChar, hquote, if_true]

/-- A text made of literals and of stretches without quotes. -/
inductive Divided : Text → Prop
  | unquoted {u : Text} (hu : Unquoted u) : Divided u
  | literal {u : Text} {mark : Char} {body t : Text} (hu : Unquoted u)
      (hmark : isUnquoted mark = false) (hliteral : IsLiteral (mark :: body ++ [mark]))
      (h : Divided t) : Divided (u ++ (mark :: body ++ [mark]) ++ t)

/-- A text falls into a stretch without quotes and what begins with the first quote. -/
lemma exists_first_quote (s : Text) :
    Unquoted s ∨ ∃ u mark rest, s = u ++ mark :: rest ∧ Unquoted u ∧ isUnquoted mark = false := by
  have hsplit := List.takeWhile_append_dropWhile (p := isUnquoted) (l := s)
  have hu : Unquoted (s.takeWhile isUnquoted) := fun c hc => List.mem_takeWhile_imp hc
  cases hdrop : s.dropWhile isUnquoted with
  | nil =>
    rw [hdrop, List.append_nil] at hsplit
    exact .inl (hsplit ▸ hu)
  | cons mark rest =>
    have hmark := List.head?_dropWhile_not isUnquoted s
    rw [hdrop] at hmark hsplit
    exact .inr ⟨_, mark, rest, hsplit.symm, hu, hmark⟩

/-- A text without quotes stands before the first literal of a closed text, and a closed text
behind it. -/
lemma Closed.divide {s : Text} (hs : Closed s) :
    Unquoted s ∨ ∃ u mark body t, s = u ++ (mark :: body ++ [mark]) ++ t ∧ Unquoted u ∧
      isUnquoted mark = false ∧ IsLiteral (mark :: body ++ [mark]) ∧ Closed t := by
  obtain hu | ⟨u, mark, rest, rfl, hu, hmark⟩ := exists_first_quote s
  · exact .inl hu
  · right
    have hopen := stepChar_code_of_quote hmark
    have hclosed : (Quoting.literal mark false).run rest = .code := by
      have := hu.closed.of_append_left hs
      rwa [Closed, Quoting.run_cons, Quoting.step_char, hopen] at this
    obtain ⟨body, t, rfl, hrun, hbody⟩ := literalsFrom_literal hclosed [mark]
    have hliteral : IsLiteral (mark :: body ++ [mark]) := by
      constructor
      · rw [Closed, List.cons_append, Quoting.run_cons, Quoting.step_char, hopen, hrun]
      · rw [literalTexts_eq, List.cons_append, literalsFrom, if_pos rfl, hopen, hbody]
        simp
    have hsplit : u ++ mark :: (body ++ mark :: t) = u ++ (mark :: body ++ [mark]) ++ t := by simp
    refine ⟨u, mark, body, t, hsplit, hu, hmark, hliteral, ?_⟩
    exact (hu.closed.append hliteral.closed).of_append_left (hsplit ▸ hs)

theorem Closed.divided {s : Text} (hs : Closed s) : Divided s := by
  rcases hs.divide with hs | ⟨u, mark, body, t, heq, hu, hmark, hliteral, ht⟩
  · exact .unquoted hs
  · rw [heq]
    exact .literal hu hmark hliteral (Closed.divided ht)
termination_by s.length
decreasing_by
  have := congrArg List.length heq
  simp at this
  omega

/-! ### Functions that act between quotes -/

/-- A function on texts that keeps every quote and acts on its own on what stands before it and on
what stands behind it. -/
structure ActsBetweenQuotes (g : Text → Text) : Prop where
  nil : g [] = []
  unquoted : ∀ {s : Text}, Unquoted s → Unquoted (g s)
  quote : ∀ (s : Text) {mark : Char} (t : Text), isUnquoted mark = false →
    g (s ++ mark :: t) = g s ++ mark :: g t

namespace ActsBetweenQuotes

variable {g h : Text → Text}

lemma comp (hg : ActsBetweenQuotes g) (hh : ActsBetweenQuotes h) :
    ActsBetweenQuotes (fun s => g (h s)) where
  nil := by rw [hh.nil, hg.nil]
  unquoted hs := hg.unquoted (hh.unquoted hs)
  quote s mark t hmark := by rw [hh.quote s t hmark, hg.quote _ _ hmark]

lemma between (hg : ActsBetweenQuotes g) {mark : Char} (hmark : isUnquoted mark = false)
    (u body t : Text) :
    g (u ++ (mark :: body ++ [mark]) ++ t) = g u ++ g (mark :: body ++ [mark]) ++ g t := by
  have hliteral :
      g ([] ++ mark :: (body ++ mark :: [])) = g [] ++ mark :: (g body ++ mark :: g []) := by
    rw [hg.quote _ _ hmark, hg.quote _ _ hmark]
  have htext : g (u ++ mark :: (body ++ mark :: t)) = g u ++ mark :: (g body ++ mark :: g t) := by
    rw [hg.quote _ _ hmark, hg.quote _ _ hmark]
  simp only [hg.nil, List.nil_append] at hliteral
  simp only [List.append_assoc, List.cons_append, List.nil_append] at htext ⊢
  rw [htext, hliteral]
  simp

/-- The literals of the new text are the new literals, if each of them still is one. -/
theorem literalTexts (hg : ActsBetweenQuotes g) {s : Text} (hs : Closed s)
    (hl : ∀ l ∈ literalTexts s, IsLiteral (g l)) :
    Closed (g s) ∧ Swiftward.literalTexts (g s) = (Swiftward.literalTexts s).map g := by
  have hdivided := hs.divided
  clear hs
  induction hdivided with
  | unquoted hu =>
    have hgu := hg.unquoted hu
    exact ⟨hgu.closed, by rw [hgu.literalTexts_eq, hu.literalTexts_eq, List.map_nil]⟩
  | @literal u mark body t hu hmark hliteral _ ih =>
    have hgu := hg.unquoted hu
    have htexts : Swiftward.literalTexts (u ++ (mark :: body ++ [mark]) ++ t) =
        (mark :: body ++ [mark]) :: Swiftward.literalTexts t := by
      rw [literalTexts_append (hu.closed.append hliteral.closed), literalTexts_append hu.closed,
        hu.literalTexts_eq, hliteral.literalTexts_eq]
      rfl
    rw [htexts, List.forall_mem_cons] at hl
    obtain ⟨hlast, hlater⟩ := hl
    obtain ⟨hclosed, hmap⟩ := ih hlater
    rw [hg.between hmark, htexts]
    have hfront := hgu.closed.append hlast.closed
    refine ⟨hfront.append hclosed, ?_⟩
    rw [literalTexts_append hfront, literalTexts_append hgu.closed, hgu.literalTexts_eq,
      hlast.literalTexts_eq, hmap]
    rfl

end ActsBetweenQuotes

end Swiftward
