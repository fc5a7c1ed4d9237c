import Mathlib.Tactic.Common
import Swiftward.Text.Reading

/-!
# Trimmed texts

A text with no white space at either end is left alone by trimming, and white space that is added
at its end goes again.
-/

namespace Swiftward

variable {α : Type} [Symbol α]

lemma trimStart_cons {a : α} (h : isSpace a = false) (s : List α) : trimStart (a :: s) = a :: s := by
  simp [trimStart, h]

lemma trimStart_cons_space {a : α} (h : isSpace a = true) (s : List α) :
    trimStart (a :: s) = trimStart s := by
  simp [trimStart, h]

lemma trimEnd_append_singleton {a : α} (h : isSpace a = false) (s : List α) :
    trimEnd (s ++ [a]) = s ++ [a] := by
  induction s with
  | nil => simp [trimEnd, h]
  | cons b s ih =>
    rw [List.cons_append, trimEnd, ih]
    split
    · next hnil => simp at hnil
    · next c t hcons => rw [← hcons]

lemma trimEnd_append_space {a : α} (h : isSpace a = true) (s : List α) :
    trimEnd (s ++ [a]) = trimEnd s := by
  induction s with
  | nil => simp [trimEnd, h]
  | cons b s ih => rw [List.cons_append, trimEnd, ih, trimEnd]

/-- A text that neither begins nor ends with white space. -/
structure Trimmed (s : List α) : Prop where
  head_not_space : ∀ a ∈ s.head?, isSpace a = false
  last_not_space : ∀ a ∈ s.getLast?, isSpace a = false

instance (s : List α) : Decidable (Trimmed s) :=
  decidable_of_iff ((∀ a ∈ s.head?, isSpace a = false) ∧ ∀ a ∈ s.getLast?, isSpace a = false)
    ⟨fun ⟨hhead, hlast⟩ => ⟨hhead, hlast⟩, fun ⟨hhead, hlast⟩ => ⟨hhead, hlast⟩⟩

lemma Trimmed.trimStart {s : List α} (h : Trimmed s) : Swiftward.trimStart s = s := by
  cases s with
  | nil => rfl
  | cons a s => exact trimStart_cons (h.head_not_space a rfl) s

lemma Trimmed.trimEnd {s : List α} (h : Trimmed s) : Swiftward.trimEnd s = s := by
  rcases List.eq_nil_or_concat s with rfl | ⟨init, a, rfl⟩
  · rfl
  · rw [List.concat_eq_append] at h ⊢
    exact trimEnd_append_singleton (h.last_not_space a (by simp)) init

@[simp] lemma Trimmed.trim {s : List α} (h : Trimmed s) : Swiftward.trim s = s := by
  rw [Swiftward.trim, h.trimStart, h.trimEnd]

lemma Trimmed.trim_append_space {s : List α} (h : Trimmed s) {a : α} (ha : isSpace a = true) :
    Swiftward.trim (s ++ [a]) = s := by
  cases s with
  | nil => simp [Swiftward.trim, Swiftward.trimStart, ha, Swiftward.trimEnd]
  | cons b s =>
    rw [Swiftward.trim, List.cons_append, trimStart_cons (h.head_not_space b rfl),
      ← List.cons_append, trimEnd_append_space ha, h.trimEnd]

lemma Trimmed.append {s t : List α} (hs : Trimmed s) (hne : s ≠ []) (ht : Trimmed t)
    (hne' : t ≠ []) (u : List α) : Trimmed (s ++ u ++ t) := by
  obtain ⟨a, s, rfl⟩ := List.exists_cons_of_ne_nil hne
  obtain ⟨init, b, rfl⟩ := List.eq_nil_or_concat t |>.resolve_left hne'
  constructor
  · intro c hc
    exact hs.head_not_space c (by simpa using hc)
  · intro c hc
    refine ht.last_not_space c ?_
    rw [List.concat_eq_append] at hc ⊢
    rw [← List.append_assoc, List.getLast?_concat] at hc
    rw [List.getLast?_concat]
    exact hc

lemma Trimmed.of_forall {s : List α} (h : ∀ a ∈ s, isSpace a = false) : Trimmed s := by
  constructor
  · intro a ha
    exact h a (List.mem_of_mem_head? ha)
  · intro a ha
    exact h a (List.mem_of_mem_getLast? ha)

lemma head_trimStart (s : Text) : ∀ c ∈ (trimStart s).head?, isSpace c = false := by
  intro c hc
  have hnot := List.head?_dropWhile_not isSpace s
  rw [show (s.dropWhile isSpace).head? = some c from hc] at hnot
  simpa using hnot

/-! ### Stretches at the start -/

/-- A stretch of symbols of one kind is taken off in front of one of another kind. -/
lemma takeWhile_dropWhile_append {β : Type} {p : β → Bool} {s t : List β} (hs : ∀ a ∈ s, p a = true)
    (ht : ∀ a ∈ t.head?, p a = false) : (s ++ t).takeWhile p = s ∧ (s ++ t).dropWhile p = t := by
  rw [List.takeWhile_append_of_pos hs, List.dropWhile_append_of_pos hs]
  cases t with
  | nil => simp
  | cons a t => simp [ht a rfl]

/-- What follows a stretch that ends is not looked at. -/
lemma takeWhile_append_of_stop {α : Type} {p : α → Bool} {s t : List α}
    (h : (∃ a ∈ s, p a = false) ∨ ∀ a ∈ t.head?, p a = false) :
    (s ++ t).takeWhile p = s.takeWhile p := by
  induction s with
  | nil =>
    obtain ⟨_, hmem, -⟩ | h := h
    · simp at hmem
    · cases t with
      | nil => rfl
      | cons a t => simp [h a rfl]
  | cons a s ih =>
    cases ha : p a with
    | false => simp [ha]
    | true =>
      have hs : (s ++ t).takeWhile p = s.takeWhile p := by
        apply ih
        refine h.imp_left ?_
        rintro ⟨b, hb, hpb⟩
        obtain rfl | hb := List.mem_cons.mp hb
        · simp [ha] at hpb
        · exact ⟨b, hb, hpb⟩
      simp [ha, hs]

/-! ### A text at the start, a character at the end -/

lemma isSome_after?_iff {lead : String} {s : Text} :
    (after? lead s).isSome = true ↔ lead.toList <+: s := by
  rw [Option.isSome_iff_exists]
  exact exists_congr fun rest => after?_eq_some_iff.trans eq_comm

lemma after?_eq_none {lead : String} {s : Text} (h : ¬lead.toList <+: s) : after? lead s = none := by
  rwa [← isSome_after?_iff, Option.not_isSome_iff_eq_none] at h

lemma after?_eq_none_of_head {lead : String} {s : Text} {c : Char}
    (hlead : lead.toList.head? = some c) (hs : s.head? ≠ some c) : after? lead s = none := by
  refine after?_eq_none ?_
  rintro ⟨rest, rfl⟩
  exact hs (by rw [List.head?_append, hlead, Option.some_or])

lemma before?_eq_some_iff {c : Char} {s front : Text} : before? c s = some front ↔ s = front ++ [c] := by
  rw [before?]
  constructor
  · intro h
    split_ifs at h with hlast
    obtain ⟨init, rfl⟩ := List.getLast?_eq_some_iff.mp hlast
    rw [← Option.some.inj h, List.dropLast_concat]
  · rintro rfl
    rw [if_pos List.getLast?_concat, List.dropLast_concat]

/-! ### White space at the end -/

lemma trimEnd_cons_of_not_space {a : α} (h : isSpace a = false) (s : List α) :
    trimEnd (a :: s) = a :: trimEnd s := by
  rw [trimEnd]
  cases trimEnd s with
  | nil => simp [h]
  | cons b t => rfl

lemma trimEnd_cons_of_ne_nil {s : List α} (h : trimEnd s ≠ []) (a : α) :
    trimEnd (a :: s) = a :: trimEnd s := by
  rw [trimEnd]
  split
  · next hnil => exact absurd hnil h
  · next b t hs => rw [hs]

lemma trimEnd_append_of_ne_nil {t : List α} (h : trimEnd t ≠ []) (s : List α) :
    trimEnd (s ++ t) = s ++ trimEnd t := by
  induction s with
  | nil => rfl
  | cons a s ih =>
    have hne : trimEnd (s ++ t) ≠ [] := by simp [ih, h]
    rw [List.cons_append, trimEnd_cons_of_ne_nil hne, ih, List.cons_append]

lemma trimEnd_spaces {gap : List α} (h : ∀ a ∈ gap, isSpace a = true) : trimEnd gap = [] := by
  induction gap with
  | nil => rfl
  | cons a gap ih =>
    obtain ⟨ha, hgap⟩ := List.forall_mem_cons.mp h
    simp [trimEnd, ih hgap, ha]

lemma trimEnd_append_spaces (s : List α) {gap : List α} (h : ∀ a ∈ gap, isSpace a = true) :
    trimEnd (s ++ gap) = trimEnd s := by
  induction s with
  | nil => exact trimEnd_spaces h
  | cons a s ih => rw [List.cons_append, trimEnd, ih, trimEnd]

/-- What is trimmed at the end of a text is white space. -/
lemma exists_gap (s : List α) : ∃ gap, (∀ a ∈ gap, isSpace a = true) ∧ s = trimEnd s ++ gap := by
  induction s with
  | nil => exact ⟨[], by simp, rfl⟩
  | cons a s ih =>
    obtain ⟨gap, hgap, hs⟩ := ih
    by_cases hnil : trimEnd s = []
    · rw [hnil, List.nil_append] at hs
      cases ha : isSpace a with
      | true => exact ⟨a :: gap, by simpa [ha] using hgap, by simp [trimEnd, hnil, ha, ← hs]⟩
      | false => exact ⟨gap, hgap, by simp [trimEnd, hnil, ha, ← hs]⟩
    · refine ⟨gap, hgap, ?_⟩
      rw [trimEnd_cons_of_ne_nil hnil, List.cons_append, ← hs]

lemma prefix_trimEnd (s : List α) : trimEnd s <+: s := by
  obtain ⟨gap, -, heq⟩ := exists_gap s
  exact ⟨gap, heq.symm⟩

lemma isSpace_of_trimEnd_eq_nil {s : List α} (h : trimEnd s = []) : ∀ a ∈ s, isSpace a = true := by
  obtain ⟨gap, hgap, hs⟩ := exists_gap s
  rw [h, List.nil_append] at hs
  rwa [hs]

@[simp] lemma trimEnd_trimEnd (s : List α) : trimEnd (trimEnd s) = trimEnd s := by
  obtain ⟨gap, hgap, hs⟩ := exists_gap s
  conv_rhs => rw [hs, trimEnd_append_spaces _ hgap]

/-- The last symbol of a trimmed text is no white space. -/
lemma getLast_trimEnd (s : List α) : ∀ a ∈ (trimEnd s).getLast?, isSpace a = false := by
  intro a ha
  obtain ⟨init, hinit⟩ := List.getLast?_eq_some_iff.mp ha
  by_contra hspace
  have htwice := trimEnd_trimEnd s
  rw [hinit, trimEnd_append_space (by simpa using hspace)] at htwice
  obtain ⟨gap, -, hgap⟩ := exists_gap init
  have hlength := congrArg List.length htwice
  have hlength' := congrArg List.length hgap
  simp only [List.length_append, List.length_cons] at hlength hlength'
  omega

/-- Trimming leaves a trimmed text. -/
lemma trimmed_trim (s : List α) : Trimmed (trim s) := by
  refine ⟨?_, getLast_trimEnd _⟩
  intro a ha
  obtain ⟨gap, -, hgap⟩ := exists_gap (trimStart s)
  have hhead : (s.dropWhile isSpace).head? = some a := by
    rw [← trimStart, hgap, List.head?_append, show (trimEnd (trimStart s)).head? = some a from ha]
    rfl
  have hnot := List.head?_dropWhile_not isSpace s
  simpa [hhead] using hnot

/-- The end of a trimmed text is trimmed. -/
lemma trimEnd_of_append {s t : List α} (h : trimEnd (s ++ t) = s ++ t) : trimEnd t = t := by
  obtain ⟨gap, hgap, ht⟩ := exists_gap t
  obtain ⟨gap', -, hs⟩ := exists_gap (s ++ trimEnd t)
  have hlength := congrArg List.length h
  have htlength := congrArg List.length ht
  have hslength := congrArg List.length hs
  rw [ht, ← List.append_assoc, trimEnd_append_spaces _ hgap] at hlength
  simp only [List.length_append] at hlength htlength hslength
  have hnil : gap = [] := List.eq_nil_of_length_eq_zero (by omega)
  conv_rhs => rw [ht, hnil, List.append_nil]

end Swiftward
