import Swiftward.Proofs.Text.Trim
import Swiftward.Text.Lines

/-!
# Lines and the white space at their ends

A text is cut into pieces from its front, one symbol after the other. White space at the end of a
line belongs to one piece only, and so it changes a text to another with the same lines but for the
white space at their ends (`map_trimEnd_lines`).
-/

namespace Swiftward

/-! ### Pieces -/

section Pieces

variable {α : Type} [BEq α]

@[simp] lemma pieces_nil (mark : α) : pieces mark [] = [[]] := rfl

lemma pieces_ne_nil (mark : α) (s : List α) : pieces mark s ≠ [] := by
  unfold pieces
  cases s with
  | nil => simp
  | cons a s =>
    rw [List.foldr_cons]
    split_ifs
    · simp
    · split <;> simp

lemma exists_pieces_eq_cons (mark : α) (s : List α) :
    ∃ piece rest, pieces mark s = piece :: rest :=
  List.exists_cons_of_ne_nil (pieces_ne_nil mark s)

variable [LawfulBEq α] {mark : α}

@[simp] lemma pieces_cons_mark (mark : α) (s : List α) :
    pieces mark (mark :: s) = [] :: pieces mark s := by
  simp [pieces]

/-- A symbol that is no mark goes to the first piece of what follows. -/
lemma pieces_cons_of_ne {a : α} (h : a ≠ mark) {s piece : List α} {rest : List (List α)}
    (hs : pieces mark s = piece :: rest) : pieces mark (a :: s) = (a :: piece) :: rest := by
  unfold pieces at hs ⊢
  rw [List.foldr_cons, hs]
  simp [h]

lemma pieces_append_of_not_mem {t : List α} (h : mark ∉ t) {s piece : List α}
    {rest : List (List α)} (hs : pieces mark s = piece :: rest) :
    pieces mark (t ++ s) = (t ++ piece) :: rest := by
  induction t with
  | nil => exact hs
  | cons a t ih =>
    rw [List.mem_cons, not_or] at h
    exact pieces_cons_of_ne (Ne.symm h.1) (ih h.2)

lemma not_mem_of_mem_pieces {s piece : List α} (h : piece ∈ pieces mark s) : mark ∉ piece := by
  induction s generalizing piece with
  | nil =>
    obtain rfl := List.mem_singleton.mp h
    exact List.not_mem_nil
  | cons a s ih =>
    obtain ⟨first, rest, hs⟩ := exists_pieces_eq_cons mark s
    by_cases ha : a = mark
    · subst ha
      rw [pieces_cons_mark, List.mem_cons] at h
      obtain rfl | h := h
      · exact List.not_mem_nil
      · exact ih h
    · rw [pieces_cons_of_ne ha hs, List.mem_cons] at h
      rw [hs] at ih
      obtain rfl | h := h
      · rw [List.mem_cons, not_or]
        exact ⟨Ne.symm ha, ih List.mem_cons_self⟩
      · exact ih (List.mem_cons_of_mem _ h)

lemma pieces_of_not_mem {s : List α} (h : mark ∉ s) : pieces mark s = [s] := by
  have hpieces := pieces_append_of_not_mem h (pieces_nil mark)
  rwa [List.append_nil] at hpieces

/-- A mark behind each of some pieces separates them from what follows. -/
lemma pieces_flatMap_append {front : List (List α)} (h : ∀ piece ∈ front, mark ∉ piece)
    (s : List α) : pieces mark (front.flatMap (· ++ [mark]) ++ s) = front ++ pieces mark s := by
  induction front with
  | nil => rfl
  | cons piece front ih =>
    rw [List.forall_mem_cons] at h
    rw [List.flatMap_cons, List.append_assoc, List.append_assoc, List.singleton_append,
      pieces_append_of_not_mem h.1 (pieces_cons_mark mark _), ih h.2, List.append_nil]
    rfl

/-- The last piece is empty behind a mark, and if there is no other. -/
lemma getLast?_pieces_eq_nil_iff (s : List α) :
    (pieces mark s).getLast? = some [] ↔ ∀ a ∈ s.getLast?, a = mark := by
  induction s with
  | nil => simp
  | cons a s ih =>
    obtain ⟨piece, rest, hs⟩ := exists_pieces_eq_cons mark s
    by_cases ha : a = mark
    · subst ha
      cases s with
      | nil => simp
      | cons b s =>
        rw [pieces_cons_mark, hs, List.getLast?_cons_cons, ← hs, ih, List.getLast?_cons_cons]
    · rw [pieces_cons_of_ne ha hs]
      cases s with
      | nil =>
        obtain ⟨rfl, rfl⟩ : piece = [] ∧ rest = [] := by simpa using hs.symm
        simpa using ha
      | cons b s =>
        rw [List.getLast?_cons_cons, ← ih, hs]
        cases rest with
        | cons next rest => rw [List.getLast?_cons_cons, List.getLast?_cons_cons]
        | nil =>
          -- A single piece begins with the first symbol.
          obtain ⟨later, more, hlater⟩ := exists_pieces_eq_cons mark s
          by_cases hb : b = mark
          · rw [hb, pieces_cons_mark, hlater] at hs
            simp at hs
          · rw [pieces_cons_of_ne hb hlater] at hs
            obtain ⟨rfl, -⟩ := List.cons.inj hs
            simp

end Pieces

/-! ### White space at the ends of lines -/

lemma trimEnd_dropReturn (line : Text) : trimEnd (dropReturn line) = trimEnd line := by
  unfold dropReturn before?
  split_ifs with hreturn
  · obtain ⟨init, rfl⟩ := List.getLast?_eq_some_iff.mp hreturn
    rw [trimEnd_append_space (by decide)]
    simp
  · rfl

/-- Pieces that differ in the white space at their ends are lines that do. -/
lemma map_trimEnd_linesOfPieces {ps ps' : List Text} (h : ps.map trimEnd = ps'.map trimEnd)
    (hlast : ps.getLast? = some [] ↔ ps'.getLast? = some []) :
    (linesOfPieces ps).map trimEnd = (linesOfPieces ps').map trimEnd := by
  have hfront (ps : List Text) :
      (ps.dropLast.map dropReturn).map trimEnd = (ps.map trimEnd).dropLast := by
    have hcomp : trimEnd ∘ dropReturn = trimEnd := funext trimEnd_dropReturn
    rw [List.map_map, hcomp, List.map_dropLast]
  have hends : ps.getLast?.map trimEnd = ps'.getLast?.map trimEnd := by
    rw [← List.getLast?_map, ← List.getLast?_map, h]
  unfold linesOfPieces
  rw [List.map_append, List.map_append, hfront, hfront, h]
  congr 1
  cases hp : ps.getLast? with
  | none =>
    rw [hp, Option.map_none] at hends
    rw [Option.map_eq_none_iff.mp hends.symm]
  | some p =>
    rw [hp, Option.map_some] at hends
    obtain ⟨p', hp', htrim⟩ := Option.map_eq_some_iff.mp hends.symm
    rw [hp, hp', Option.some.injEq, Option.some.injEq] at hlast
    rw [hp']
    by_cases hnil : p = []
    · simp [hnil, hlast.mp hnil]
    · simp [hnil, mt hlast.mpr hnil, htrim]

/-- White space in a line. -/
def Blank (s : Text) : Prop := ∀ c ∈ s, isSpace c = true ∧ c ≠ '\n'

/-- Only white space follows on the line that ends the first text, and that line is one: a line
feed ends it, or it is not empty. -/
inductive AtLineEnd (front : Text) : Text → Prop where
  | beforeFeed {gap : Text} (hgap : Blank gap) (rest : Text) : AtLineEnd front (gap ++ '\n' :: rest)
  | atEnd {gap : Text} (hgap : Blank gap) {c : Char} (hlast : (front ++ gap).getLast? = some c)
      (hc : c ≠ '\n') : AtLineEnd front gap

lemma blank_nil : Blank [] := fun _ hc => absurd hc List.not_mem_nil

lemma Blank.feed_not_mem {s : Text} (h : Blank s) : '\n' ∉ s := fun hmem => (h _ hmem).2 rfl

lemma Blank.append {s t : Text} (hs : Blank s) (ht : Blank t) : Blank (s ++ t) := by
  intro c hc
  rcases List.mem_append.mp hc with hc | hc
  · exact hs c hc
  · exact ht c hc

lemma Blank.trimEnd_eq {s : Text} (h : Blank s) : trimEnd s = [] :=
  trimEnd_spaces fun c hc => (h c hc).1

/-- The same text before texts with the same pieces. -/
lemma map_trimEnd_pieces_append (front : Text) {s s' : Text}
    (h : (pieces '\n' s).map trimEnd = (pieces '\n' s').map trimEnd) :
    (pieces '\n' (front ++ s)).map trimEnd = (pieces '\n' (front ++ s')).map trimEnd := by
  induction front with
  | nil => exact h
  | cons c front ih =>
    by_cases hc : c = '\n'
    · simp [hc, ih]
    · obtain ⟨piece, rest, hs⟩ := exists_pieces_eq_cons '\n' (front ++ s)
      obtain ⟨piece', rest', hs'⟩ := exists_pieces_eq_cons '\n' (front ++ s')
      rw [hs, hs', List.map_cons, List.map_cons, List.cons.injEq] at ih
      rw [List.cons_append, List.cons_append, pieces_cons_of_ne hc hs, pieces_cons_of_ne hc hs',
        List.map_cons, List.map_cons, trimEnd, trimEnd, ih.1, ih.2]

/-- White space at the end of a line changes the lines only at their ends. -/
theorem map_trimEnd_lines {front pad back : Text} (hpad : Blank pad)
    (hback : AtLineEnd front back) :
    (lines (front ++ pad ++ back)).map trimEnd = (lines (front ++ back)).map trimEnd := by
  apply map_trimEnd_linesOfPieces
  · rw [List.append_assoc]
    apply map_trimEnd_pieces_append
    cases hback with
    | beforeFeed hgap rest =>
      have hrest := pieces_cons_mark '\n' rest
      rw [← List.append_assoc, pieces_append_of_not_mem (hpad.append hgap).feed_not_mem hrest,
        pieces_append_of_not_mem hgap.feed_not_mem hrest]
      simp [hgap.trimEnd_eq, (hpad.append hgap).trimEnd_eq]
    | atEnd hgap =>
      have hnil := pieces_nil '\n'
      rw [← List.append_nil back, ← List.append_assoc,
        pieces_append_of_not_mem (hpad.append hgap).feed_not_mem hnil,
        pieces_append_of_not_mem hgap.feed_not_mem hnil]
      simp [hgap.trimEnd_eq, (hpad.append hgap).trimEnd_eq]
  · rw [getLast?_pieces_eq_nil_iff, getLast?_pieces_eq_nil_iff]
    cases hback with
    | @beforeFeed gap _ rest => simp [List.getLast?_append]
    | atEnd hgap hlast hc =>
      obtain ⟨d, hd, hne⟩ : ∃ d, (front ++ pad ++ back).getLast? = some d ∧ d ≠ '\n' := by
        rcases List.eq_nil_or_concat back with rfl | ⟨init, d, rfl⟩
        · rcases List.eq_nil_or_concat pad with rfl | ⟨init, d, rfl⟩
          · exact ⟨_, by simpa using hlast, hc⟩
          · exact ⟨d, by simp, (hpad d (by simp)).2⟩
        · obtain rfl : d = _ := by simpa using hlast
          exact ⟨d, by simp, hc⟩
      rw [hlast, hd]
      simp [hc, hne]

end Swiftward
