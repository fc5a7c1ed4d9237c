import Swiftward.Proofs.Text.Comment
import Swiftward.Proofs.Text.Lines
import Swiftward.Proofs.Text.Reading

/-!
# Texts without line feeds

A text is *unbroken* if it has no line feed. Every reading step takes a part of its text, so what it
reads is unbroken if the text is, and words are unbroken anyway. The lines of a text are unbroken, and
unbroken lines that are written one below the other have as many line feeds as there are lines
(`count_unlines`).
-/

namespace Swiftward

/-- The text has no line feed. -/
def Unbroken (s : Text) : Prop := '\n' ∉ s

instance (s : Text) : Decidable (Unbroken s) := inferInstanceAs (Decidable (¬_))

@[simp] lemma unbroken_nil : Unbroken [] := List.not_mem_nil

@[simp] lemma unbroken_cons {c : Char} {s : Text} : Unbroken (c :: s) ↔ c ≠ '\n' ∧ Unbroken s := by
  simp [Unbroken, eq_comm]

@[simp] lemma unbroken_append {s t : Text} : Unbroken (s ++ t) ↔ Unbroken s ∧ Unbroken t := by
  simp [Unbroken]

namespace Unbroken

variable {s t : Text}

lemma subset (h : Unbroken s) (hsubset : t ⊆ s) : Unbroken t := fun hmem => h (hsubset hmem)

lemma ne_of_mem (h : Unbroken s) {c : Char} (hc : c ∈ s) : c ≠ '\n' := by
  rintro rfl
  exact h hc

lemma append (hs : Unbroken s) (ht : Unbroken t) : Unbroken (s ++ t) := unbroken_append.mpr ⟨hs, ht⟩

lemma cons {c : Char} (hc : c ≠ '\n') (h : Unbroken s) : Unbroken (c :: s) := unbroken_cons.mpr ⟨hc, h⟩

end Unbroken

lemma unbroken_flatMap {ι : Type} {items : List ι} {f : ι → Text} :
    Unbroken (items.flatMap f) ↔ ∀ item ∈ items, Unbroken (f item) := by
  simp [Unbroken]

lemma Unbroken.intercalate {separator : Text} (hseparator : Unbroken separator) {pieces : List Text}
    (h : ∀ piece ∈ pieces, Unbroken piece) : Unbroken (separator.intercalate pieces) := by
  induction pieces with
  | nil => exact unbroken_nil
  | cons piece more ih =>
    obtain ⟨hpiece, hmore⟩ := List.forall_mem_cons.mp h
    cases more with
    | nil =>
      rw [List.intercalate_singleton]
      exact hpiece
    | cons next more =>
      rw [List.intercalate_cons_cons]
      exact (hpiece.append hseparator).append (ih hmore)

lemma unbroken_of_isWord {w : Text} (h : ∀ c ∈ w, Unicode.isWord c = true) : Unbroken w :=
  fun hmem => absurd (h '\n' hmem) (by decide)

/-! ### Parts of a text -/

section Symbols

variable {α : Type} [Symbol α]

lemma trimStart_subset (s : List α) : trimStart s ⊆ s := List.dropWhile_subset _

lemma trimEnd_subset (s : List α) : trimEnd s ⊆ s := (prefix_trimEnd s).subset

lemma trim_subset (s : List α) : trim s ⊆ s :=
  List.Subset.trans (trimEnd_subset _) (trimStart_subset s)

end Symbols

lemma after?_subset {lead : String} {s rest : Text} (h : after? lead s = some rest) : rest ⊆ s := by
  rw [after?_eq_some_iff.mp h]
  exact List.subset_append_right _ _

lemma afterSpace?_subset {s rest : Text} (h : afterSpace? s = some rest) : rest ⊆ s := by
  obtain ⟨lead, -, -, rfl⟩ := exists_of_afterSpace? h
  exact List.subset_append_right _ _

lemma before?_subset {c : Char} {s front : Text} (h : before? c s = some front) : front ⊆ s := by
  rw [before?_eq_some_iff.mp h]
  exact List.subset_append_left _ _

lemma nextWord?_subset {s word rest : Text} (h : nextWord? s = some (word, rest)) :
    Unbroken word ∧ rest ⊆ s := by
  obtain ⟨hword, -, rfl⟩ := nextWord?_eq_some_iff.mp h
  exact ⟨unbroken_of_isWord hword.isWord, List.subset_append_right _ _⟩

lemma Unbroken.splitComment {line : Text} (h : Unbroken line) :
    Unbroken (splitComment line).1 ∧ Unbroken (splitComment line).2 := by
  rwa [← unbroken_append, code_append_comment]

/-! ### Lines -/

/-- The lines of a text are unbroken. -/
lemma unbroken_of_mem_lines {s line : Text} (h : line ∈ lines s) : Unbroken line := by
  rw [lines, linesOfPieces] at h
  rcases List.mem_append.mp h with hfront | hlast
  · obtain ⟨piece, hpiece, rfl⟩ := List.mem_map.mp hfront
    have hunbroken : Unbroken piece := not_mem_of_mem_pieces (List.dropLast_subset _ hpiece)
    unfold dropReturn
    cases hreturn : before? '\r' piece with
    | none => exact hunbroken
    | some front => exact hunbroken.subset (before?_subset hreturn)
  · have hmem := (List.mem_filter.mp hlast).1
    exact not_mem_of_mem_pieces (List.mem_of_getLast? (Option.mem_toList.mp hmem))

/-- Each line that is written brings one line feed. -/
lemma count_unlines {ls : List Text} (h : ∀ line ∈ ls, Unbroken line) :
    (unlines ls).count '\n' = ls.length := by
  induction ls with
  | nil => rfl
  | cons line ls ih =>
    obtain ⟨hline, hrest⟩ := List.forall_mem_cons.mp h
    rw [unlines_cons, List.count_append, List.count_cons_self, ih hrest,
      List.count_eq_zero_of_not_mem hline, List.length_cons, Nat.zero_add]

end Swiftward
