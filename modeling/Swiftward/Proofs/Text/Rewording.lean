import Swiftward.Proofs.Text.Literal
import Swiftward.Proofs.Text.Trim
import Swiftward.Text.Reading

/-!
# Rewording

A text is *reworded* if some of its stretches, none of which has a quote, are written anew, and
what stands between these stays as it is and leaves no literal open. Whatever happens to code
outside of its literals is a rewording, and a rewording keeps all literals
(`Rewords.literalTexts_eq`).
-/

namespace Swiftward

variable {α : Type} [Symbol α]

/-- The second text is the first with stretches that have no quote written anew. -/
inductive Rewords : List α → List α → Prop
  | nil : Rewords [] []
  | keep {u s t : List α} (hu : Closed u) (h : Rewords s t) : Rewords (u ++ s) (u ++ t)
  | write {u v : Text} (hu : Unquoted u) (hv : Unquoted v) {s t : List α} (h : Rewords s t) :
      Rewords (Symbol.ofText u ++ s) (Symbol.ofText v ++ t)

namespace Rewords

lemma append {s t s' t' : List α} (h : Rewords s t) (h' : Rewords s' t') :
    Rewords (s ++ s') (t ++ t') := by
  induction h with
  | nil => exact h'
  | keep hu _ ih =>
    rw [List.append_assoc, List.append_assoc]
    exact .keep hu ih
  | write hu hv _ ih =>
    rw [List.append_assoc, List.append_assoc]
    exact .write hu hv ih

lemma refl {s : List α} (hs : Closed s) : Rewords s s := by
  have h : Rewords (s ++ []) (s ++ []) := .keep hs .nil
  rwa [List.append_nil] at h

/-- A text without quotes can become any other. -/
lemma of_unquoted {u v : Text} (hu : Unquoted u) (hv : Unquoted v) :
    Rewords (Symbol.ofText u : List α) (Symbol.ofText v) := by
  have h : Rewords (Symbol.ofText u ++ [] : List α) (Symbol.ofText v ++ []) := .write hu hv .nil
  rwa [List.append_nil, List.append_nil] at h

lemma of_texts {u v : Text} (hu : Unquoted u) (hv : Unquoted v) : Rewords u v := by
  have h : Rewords (Symbol.ofText u : Text) (Symbol.ofText v) := of_unquoted hu hv
  rwa [Symbol.ofText_char, Symbol.ofText_char] at h

lemma closed {s t : List α} (h : Rewords s t) : Closed t := by
  induction h with
  | nil => exact closed_nil
  | keep hu _ ih => exact hu.append ih
  | write _ hv _ ih => exact (closed_ofText.mpr hv.closed).append ih

theorem literalTexts_eq {s t : Text} (h : Rewords s t) : literalTexts t = literalTexts s := by
  induction h with
  | nil => rfl
  | keep hu _ ih => rw [literalTexts_append hu, literalTexts_append hu, ih]
  | write hu hv _ ih =>
    rw [Symbol.ofText_char, Symbol.ofText_char, literalTexts_append hu.closed,
      literalTexts_append hv.closed, hu.literalTexts_eq, hv.literalTexts_eq, ih]

end Rewords

/-! ### White space at the ends -/

/-- A symbol that closes a literal is the quote that opened it. -/
lemma Quoting.step_literal (mark : Char) (escaped : Bool) (a : α) :
    a = Symbol.ofChar mark ∧ (literal mark escaped).step a = .code ∨
      ∃ escaped', (literal mark escaped).step a = .literal mark escaped' := by
  unfold step
  split
  · next c hc =>
    obtain rfl := Symbol.char?_eq_some_iff.mp hc
    rcases stepChar_literal mark escaped c with ⟨rfl, hcode⟩ | hliteral
    · exact .inl ⟨rfl, hcode⟩
    · exact .inr hliteral
  · exact .inr ⟨false, rfl⟩

lemma isUnquoted_ofChar (c : Char) : isUnquoted (Symbol.ofChar c : α) = isUnquoted c := by
  simp [isUnquoted, isChar]

/-- No literal is closed without a quote. -/
lemma Quoting.run_ne_code {mark : Char} (hmark : isUnquoted mark = false) (escaped : Bool)
    {s : List α} (hs : ∀ a ∈ s, isUnquoted a = true) : (literal mark escaped).run s ≠ .code := by
  induction s generalizing escaped with
  | nil => simp
  | cons a s ih =>
    obtain ⟨ha, hs⟩ := List.forall_mem_cons.mp hs
    rcases step_literal mark escaped a with ⟨rfl, -⟩ | ⟨escaped', hstep⟩
    · rw [isUnquoted_ofChar, hmark] at ha
      exact absurd ha (by decide)
    · rw [run_cons, hstep]
      exact ih escaped' hs

/-- The state is one that a reader can be in, who begins in code: a quote opens every literal. -/
def Quoting.Quoted : Quoting → Prop
  | code => True
  | literal mark _ => isUnquoted mark = false

lemma Quoting.quoted_code : code.Quoted := trivial

lemma Quoting.Quoted.step {q : Quoting} (h : q.Quoted) (a : α) : (q.step a).Quoted := by
  cases q with
  | code =>
    by_cases ha : isUnquoted a = true
    · rw [step_code_of_isUnquoted ha]
      trivial
    · unfold Quoting.step
      split
      · next c hc =>
        obtain rfl := Symbol.char?_eq_some_iff.mp hc
        have hc : isUnquoted c = false := by simpa [isUnquoted_ofChar] using ha
        rw [stepChar_code_of_quote hc]
        exact hc
      · trivial
  | literal mark escaped =>
    rcases step_literal mark escaped a with ⟨-, hcode⟩ | ⟨escaped', hstep⟩
    · rw [hcode]
      trivial
    · rw [hstep]
      exact h

lemma Quoting.Quoted.run {q : Quoting} (h : q.Quoted) (s : List α) : (q.run s).Quoted := by
  induction s generalizing q with
  | nil => exact h
  | cons a s ih => exact ih (h.step a)

lemma Closed.of_append_right {s t : List α} (ht : ∀ a ∈ t, isUnquoted a = true)
    (h : Closed (s ++ t)) : Closed s := by
  rw [Closed, Quoting.run_append] at h
  rw [Closed]
  cases hs : Quoting.code.run s with
  | code => rfl
  | literal mark escaped =>
    rw [hs] at h
    have hquoted : (Quoting.literal mark escaped).Quoted := by
      rw [← hs]
      exact Quoting.quoted_code.run s
    exact absurd h (Quoting.run_ne_code hquoted escaped ht)

/-- Symbols of a class of characters make up a text. -/
lemma exists_ofText {p : Char → Bool} {s : List α} (h : ∀ a ∈ s, Symbol.satisfies p a = true) :
    ∃ u : Text, s = Symbol.ofText u ∧ ∀ c ∈ u, p c = true := by
  induction s with
  | nil => exact ⟨[], rfl, by simp⟩
  | cons a s ih =>
    obtain ⟨ha, hs⟩ := List.forall_mem_cons.mp h
    obtain ⟨u, rfl, hu⟩ := ih hs
    unfold Symbol.satisfies at ha
    split at ha
    · next c hc =>
      obtain rfl := Symbol.char?_eq_some_iff.mp hc
      exact ⟨c :: u, rfl, List.forall_mem_cons.mpr ⟨ha, hu⟩⟩
    · exact absurd ha (by decide)

lemma unquoted_space {u : Text} (h : ∀ c ∈ u, isSpace c = true) : Unquoted u := by
  intro c hc
  exact isUnquoted_of_isSpace (h c hc)

lemma exists_trimStart (s : List α) :
    ∃ u : Text, (∀ c ∈ u, isSpace c = true) ∧ s = Symbol.ofText u ++ trimStart s := by
  have hspace : ∀ a ∈ s.takeWhile isSpace, isSpace a = true := by
    intro a ha
    exact List.mem_takeWhile_imp ha
  obtain ⟨u, hu, hchars⟩ := exists_ofText hspace
  exact ⟨u, hchars, by rw [← hu, trimStart, List.takeWhile_append_dropWhile]⟩

lemma exists_trimEnd (s : List α) :
    ∃ u : Text, (∀ c ∈ u, isSpace c = true) ∧ s = trimEnd s ++ Symbol.ofText u := by
  obtain ⟨gap, hgap, heq⟩ := exists_gap s
  obtain ⟨u, rfl, hu⟩ := exists_ofText hgap
  exact ⟨u, hu, heq⟩

/-- A text is what trimming leaves of it, with white space at either end. -/
lemma exists_trim (s : List α) :
    ∃ u v : Text, (∀ c ∈ u, isSpace c = true) ∧ (∀ c ∈ v, isSpace c = true) ∧
      s = Symbol.ofText u ++ trim s ++ Symbol.ofText v := by
  obtain ⟨u, hu, hs⟩ := exists_trimStart s
  obtain ⟨v, hv, hstart⟩ := exists_trimEnd (trimStart s)
  refine ⟨u, v, hu, hv, ?_⟩
  rw [List.append_assoc, trim, ← hstart, ← hs]

lemma isUnquoted_of_mem_ofText {u : Text} (hu : Unquoted u) :
    ∀ a ∈ (Symbol.ofText u : List α), isUnquoted a = true := by
  intro a ha
  obtain ⟨c, hc, rfl⟩ := List.mem_map.mp ha
  rw [isUnquoted_ofChar]
  exact hu c hc

lemma Closed.trimEnd {s : List α} (hs : Closed s) : Closed (trimEnd s) := by
  obtain ⟨u, hu, heq⟩ := exists_trimEnd s
  rw [heq] at hs
  exact hs.of_append_right (isUnquoted_of_mem_ofText (unquoted_space hu))

lemma Closed.trimStart {s : List α} (hs : Closed s) : Closed (trimStart s) := by
  obtain ⟨u, hu, heq⟩ := exists_trimStart s
  rw [heq] at hs
  exact Closed.of_append_left (closed_ofText.mpr (unquoted_space hu).closed) hs

lemma Closed.trim {s : List α} (hs : Closed s) : Closed (trim s) := hs.trimStart.trimEnd

namespace Rewords

/-- What becomes of a text without the white space at its end is what becomes of the text. -/
lemma of_trimEnd {s t : List α} (h : Rewords (Swiftward.trimEnd s) t) : Rewords s t := by
  obtain ⟨u, hu, heq⟩ := exists_trimEnd s
  have h := h.append (of_unquoted (unquoted_space hu) unquoted_nil)
  rwa [← heq, Symbol.ofText_nil, List.append_nil] at h

/-- What becomes of the trimmed text is what becomes of the text. -/
lemma of_trim {s t : List α} (h : Rewords (Swiftward.trim s) t) : Rewords s t := by
  obtain ⟨u, v, hu, hv, heq⟩ := exists_trim s
  have h := ((of_unquoted (unquoted_space hu) unquoted_nil).append h).append
    (of_unquoted (unquoted_space hv) unquoted_nil)
  rwa [← heq, Symbol.ofText_nil, List.append_nil] at h

lemma trim {s : List α} (hs : Closed s) : Rewords s (trim s) := of_trim (refl hs.trim)

end Rewords

end Swiftward
