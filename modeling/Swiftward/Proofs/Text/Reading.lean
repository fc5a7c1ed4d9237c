import Mathlib.Data.List.Basic
import Mathlib.Data.List.TakeWhile
import Swiftward.Proofs.Text.Comment
import Swiftward.Text.Reading

/-!
# Reading from the front of a text

What a step of reading has taken off the front of a text: white space and words are taken as far as
they go, so what is left does not go on with more of the same.
-/

namespace Swiftward

/-- A word of at least one character. -/
structure IsIdentifier (w : Text) : Prop where
  ne_nil : w ≠ []
  isWord : ∀ c ∈ w, Unicode.isWord c = true

instance (w : Text) : Decidable (IsIdentifier w) :=
  decidable_of_iff (w ≠ [] ∧ w.all Unicode.isWord = true)
    ⟨fun ⟨hne, hw⟩ => ⟨hne, List.all_eq_true.mp hw⟩,
      fun ⟨hne, hw⟩ => ⟨hne, List.all_eq_true.mpr hw⟩⟩

section Reading

variable {s t w rest : Text}

lemma isSpace_of_isWord {c : Char} (h : Unicode.isWord c = true) : isSpace c = false := by
  cases hspace : isSpace c with
  | false => rfl
  | true => rw [← h, Unicode.isWord_of_isSpace hspace]

lemma IsIdentifier.head_not_space (hw : IsIdentifier w) (rest : Text) :
    ∀ c ∈ (w ++ rest).head?, isSpace c = false := by
  obtain ⟨c, w, rfl⟩ := List.exists_cons_of_ne_nil hw.ne_nil
  intro d hd
  obtain rfl : c = d := by simpa using hd
  exact isSpace_of_isWord (hw.isWord c (List.mem_cons_self ..))

lemma IsIdentifier.trimEnd_append (hw : IsIdentifier w) (front : Text) :
    trimEnd (front ++ w) = front ++ w := by
  obtain ⟨init, c, rfl⟩ := List.eq_nil_or_concat w |>.resolve_left hw.ne_nil
  have hc : Unicode.isWord c = true := hw.isWord c (by simp)
  rw [List.concat_eq_append, ← List.append_assoc]
  exact trimEnd_append_singleton (isSpace_of_isWord hc) (front ++ init)

/-- White space at the start of a text goes up to the first other character. -/
lemma trimStart_append {lead : Text} (hlead : ∀ c ∈ lead, isSpace c = true)
    (hs : ∀ c ∈ s.head?, isSpace c = false) : trimStart (lead ++ s) = s :=
  (takeWhile_dropWhile_append hlead hs).2

lemma exists_lead (s : Text) : ∃ lead, (∀ c ∈ lead, isSpace c = true) ∧ s = lead ++ trimStart s :=
  ⟨s.takeWhile isSpace, fun _ hc => List.mem_takeWhile_imp hc,
    List.takeWhile_append_dropWhile.symm⟩

/-- A word is read up to its end. -/
lemma nextWord?_eq_some_iff :
    nextWord? s = some (w, rest) ↔
      IsIdentifier w ∧ (∀ c ∈ rest.head?, isWord c = false) ∧ s = w ++ rest := by
  unfold nextWord?
  constructor
  · intro h
    split at h
    · simp at h
    · next hne =>
      simp only [Option.some.injEq, Prod.mk.injEq] at h
      obtain ⟨rfl, rfl⟩ := h
      refine ⟨⟨hne, fun c hc => List.mem_takeWhile_imp (p := isWord) hc⟩, ?_,
        List.takeWhile_append_dropWhile.symm⟩
      intro c hc
      have hnot := List.head?_dropWhile_not isWord s
      rw [Option.mem_def.mp hc] at hnot
      simpa using hnot
  · rintro ⟨hw, hrest, rfl⟩
    obtain ⟨htake, hdrop⟩ := takeWhile_dropWhile_append (p := isWord) hw.isWord hrest
    rw [htake, hdrop]
    split
    · exact absurd rfl hw.ne_nil
    · rfl

/-- White space is read up to its end. -/
lemma exists_of_afterSpace? (h : afterSpace? s = some t) :
    ∃ lead, (∀ c ∈ lead, isSpace c = true) ∧ lead ≠ [] ∧ s = lead ++ t := by
  cases s with
  | nil => simp [afterSpace?] at h
  | cons c s =>
    rw [afterSpace?] at h
    split_ifs at h with hc
    obtain rfl := Option.some.inj h
    obtain ⟨lead, hlead, hs⟩ := exists_lead s
    exact ⟨c :: lead, List.forall_mem_cons.mpr ⟨hc, hlead⟩, List.cons_ne_nil c lead,
      by rw [List.cons_append, ← hs]⟩

/-! ### Words end at white space -/

lemma head_not_word_of_spaces {gap : Text} (hgap : ∀ c ∈ gap, isSpace c = true) :
    ∀ c ∈ gap.head?, isWord c = false := fun c hc =>
  Unicode.isWord_of_isSpace (hgap c (List.mem_of_mem_head? hc))

lemma head_not_word_spaces_append {gap : Text} (hgap : ∀ c ∈ gap, isSpace c = true) (hne : gap ≠ [])
    (s : Text) : ∀ c ∈ (gap ++ s).head?, isWord c = false := by
  rw [List.head?_append_of_ne_nil _ hne]
  exact head_not_word_of_spaces hgap

lemma head_not_word_append (hs : ∀ c ∈ s.head?, isWord c = false)
    (ht : ∀ c ∈ t.head?, isWord c = false) : ∀ c ∈ (s ++ t).head?, isWord c = false := by
  cases s with
  | nil => exact ht
  | cons c s => exact hs

end Reading

/-! ### Gaps -/

/-- White space between two parts of a line, of which there may be none. -/
@[ext]
structure Gap where
  text : Text
  isSpace : ∀ c ∈ text, isSpace c = true

namespace Gap

/-- No white space. -/
def none : Gap := ⟨[], List.forall_mem_nil _⟩

/-- A single space. -/
def space : Gap := ⟨[' '], List.forall_mem_singleton.mpr (by decide)⟩

/-- The white space at the start of a text. -/
def ofStart (s : Text) : Gap := ⟨s.takeWhile Swiftward.isSpace, fun _ => List.mem_takeWhile_imp⟩

lemma ofStart_append (s : Text) : (ofStart s).text ++ trimStart s = s :=
  List.takeWhile_append_dropWhile

end Gap

end Swiftward
