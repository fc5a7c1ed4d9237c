import Swiftward.Proofs.MessageSend.Literal

/-!
# The character that opens a mark

Written out, a mark opens with a character that is reserved for it. A line is left alone if it has
that character, and nothing that is written on any other line has it: no call
(`markFree_of_resolveSend`), and so neither the line that a pass leaves nor a part in its table
(`Pass.isMarkFree_ofLine`).
-/

namespace Swiftward

open Cell (markOpen)

section MarkFree

variable {α : Type} [Symbol α]

/-- No symbol is the character that opens a written-out mark. -/
def MarkFree (s : List α) : Prop := Symbol.ofChar markOpen ∉ s

@[simp] lemma markFree_nil : MarkFree ([] : List α) := by simp [MarkFree]

@[simp] lemma markFree_cons {a : α} {s : List α} :
    MarkFree (a :: s) ↔ Symbol.ofChar markOpen ≠ a ∧ MarkFree s := by
  simp [MarkFree]

@[simp] lemma markFree_append {s t : List α} : MarkFree (s ++ t) ↔ MarkFree s ∧ MarkFree t := by
  simp [MarkFree]

lemma MarkFree.subset {s t : List α} (h : MarkFree s) (ht : t ⊆ s) : MarkFree t := by
  intro hmem
  exact h (ht hmem)

lemma markFree_flatMap {ι : Type} {l : List ι} {f : ι → List α} :
    MarkFree (l.flatMap f) ↔ ∀ x ∈ l, MarkFree (f x) := by
  simp [MarkFree]

lemma markFree_ofText {t : Text} : MarkFree (Symbol.ofText t : List α) ↔ MarkFree t := by
  have hinj (c : Char) : (Symbol.ofChar c : α) = Symbol.ofChar markOpen ↔ c = markOpen := by
    rw [← Symbol.char?_eq_some_iff, Symbol.char?_ofChar, Option.some.injEq]
  simp [MarkFree, Symbol.ofText, hinj]

/-! ### No call opens a mark -/

lemma IsCallText.markFree {s : Text} (h : IsCallText s) : MarkFree s := by
  intro hmem
  exact absurd (h markOpen hmem) (by decide +kernel)

lemma Respells.markFree {s t : List α} (h : Respells s t) (hs : MarkFree s) : MarkFree t := by
  induction h with
  | nil => exact hs
  | keep a _ ih =>
    rw [markFree_cons] at hs ⊢
    exact ⟨hs.1, ih hs.2⟩
  | write hu hv _ ih =>
    rw [markFree_append] at hs ⊢
    exact ⟨markFree_ofText.mpr hv.markFree, ih hs.2⟩

/-- A call opens no mark that was not there. -/
lemma markFree_of_resolveSend {s call : List α} (hs : MarkFree s)
    (h : resolveSend s = some call) : MarkFree call :=
  (respells_of_resolveSend h).markFree hs

end MarkFree

/-! ### No pass opens a mark -/

lemma BracketRole.markFree_of_part? {role : BracketRole} {interior part : List Cell}
    (hi : MarkFree interior) (h : role.part? interior = some part) : MarkFree part := by
  have hwhole : MarkFree (BracketPair.whole ⟨[], interior⟩) := by
    simpa [BracketPair.whole, markOpen] using hi
  cases role with
  | literal =>
    obtain rfl := Option.some.inj h
    exact hwhole
  | subscript =>
    obtain rfl := Option.some.inj h
    exact hwhole
  | trailing =>
    obtain rfl := Option.some.inj h
    cases hsend : resolveSend interior with
    | none => exact hwhole
    | some call => exact markFree_of_resolveSend hi hsend
  | send => exact markFree_of_resolveSend hi h

namespace Pass

/-- Neither the line that a pass leaves nor a part in its table has the character that opens a
written-out mark. -/
structure IsMarkFree (p : Pass) : Prop where
  line : MarkFree p.line
  parts : ∀ part ∈ p.fragments.texts, MarkFree part

lemma isMarkFree_ofPair {previous : Option Cell} {f : Fragments} {pair : BracketPair Cell}
    (hbefore : MarkFree pair.before) (hinterior : MarkFree pair.interior)
    (hf : ∀ part ∈ f.texts, MarkFree part) : IsMarkFree (ofPair previous f pair) := by
  cases hpart : (BracketRole.behind (pair.before.getLast? <|> previous)).part? pair.interior with
  | none =>
    rw [ofPair_of_not_part f hpart]
    constructor
    · simpa [BracketPair.whole, markOpen, hbefore] using hinterior
    · exact hf
  | some part =>
    rw [ofPair_of_part f pair.before hpart]
    constructor
    · refine markFree_append.mpr ⟨?_, by simp [Fragments.next]⟩
      split
      · exact hbefore.subset (List.dropLast_subset _)
      · exact hbefore
    · intro text htext
      rcases List.mem_append.mp htext with hold | hnew
      · exact hf text hold
      · obtain rfl := List.mem_singleton.mp hnew
        exact BracketRole.markFree_of_part? hinterior hpart

lemma isMarkFree_ofPairs {previous : Option Cell} {f : Fragments} {pairs : List (BracketPair Cell)}
    (hpairs : ∀ pair ∈ pairs, MarkFree pair.before ∧ MarkFree pair.interior)
    (hf : ∀ part ∈ f.texts, MarkFree part) : IsMarkFree (ofPairs previous f pairs) := by
  induction pairs generalizing previous f with
  | nil => exact ⟨markFree_nil, hf⟩
  | cons pair pairs ih =>
    obtain ⟨⟨hbefore, hinterior⟩, hlater⟩ := List.forall_mem_cons.mp hpairs
    have hfirst : IsMarkFree (ofPair previous f pair) :=
      isMarkFree_ofPair hbefore hinterior hf
    have hrest : IsMarkFree (ofPairs (some (.char ']')) (ofPair previous f pair).fragments pairs) :=
      ih hlater hfirst.parts
    exact ⟨markFree_append.mpr ⟨hfirst.line, hrest.line⟩, hrest.parts⟩

lemma isMarkFree_ofLine {f : Fragments} {line : List Cell} (hline : MarkFree line)
    (hf : ∀ part ∈ f.texts, MarkFree part) : IsMarkFree (ofLine f line) := by
  have htext := Bracketed.toText_ofText line
  rw [← htext, Bracketed.toText, markFree_append, markFree_flatMap] at hline
  obtain ⟨hpairs, htail⟩ := hline
  have hfree : ∀ pair ∈ (Bracketed.ofText line).pairs,
      MarkFree pair.before ∧ MarkFree pair.interior := by
    intro pair hpair
    have hpieces := hpairs pair hpair
    simp only [BracketPair.whole, markFree_append, markFree_cons] at hpieces
    exact ⟨hpieces.1, hpieces.2.1.2⟩
  have hpass : IsMarkFree (ofPairs none f (Bracketed.ofText line).pairs) :=
    isMarkFree_ofPairs hfree hf
  exact ⟨markFree_append.mpr ⟨hpass.line, htail⟩, hpass.parts⟩

end Pass

end Swiftward
