import Mathlib.Data.List.Induction
import Mathlib.Tactic.Common
import Swiftward.MessageSend.Fragment

/-!
# What fragments stand for

A part that is set aside holds only marks of earlier parts, so every mark stands for a text, found
by going through the table once from its start. Replacing marks round after round
(`Fragments.expand`) arrives at the same text.
-/

namespace Swiftward

/-- The text that a cell stands for, given the texts of the marks. -/
def Cell.meaning (values : List Text) : Cell → Text
  | .char c => [c]
  | .fragment id => (values[id]?).getD (Cell.spell (.fragment id))

/-- The text that a line stands for, given the texts of the marks. -/
def meaning (values : List Text) (line : List Cell) : Text := line.flatMap (Cell.meaning values)

@[simp] lemma meaning_nil (values : List Text) : meaning values [] = [] := rfl

@[simp] lemma meaning_cons (values : List Text) (a : Cell) (line : List Cell) :
    meaning values (a :: line) = a.meaning values ++ meaning values line := rfl

@[simp] lemma meaning_append (values : List Text) (s t : List Cell) :
    meaning values (s ++ t) = meaning values s ++ meaning values t := by
  simp [meaning]

@[simp] lemma meaning_ofText (values : List Text) (s : Text) :
    meaning values (Symbol.ofText s) = s := by
  induction s with
  | nil => rfl
  | cons c s ih =>
    rw [Symbol.ofText, List.map_cons, meaning_cons, ← Symbol.ofText, ih]
    rfl

/-! ### Marks that are in use -/

/-- All marks of a line have numbers below `n`. -/
def Known (n : Nat) (line : List Cell) : Prop := ∀ id, Cell.fragment id ∈ line → id < n

@[simp] lemma known_nil (n : Nat) : Known n [] := by simp [Known]

lemma known_append {n : Nat} {s t : List Cell} : Known n (s ++ t) ↔ Known n s ∧ Known n t := by
  simp only [Known, List.mem_append]
  grind

lemma Known.mono {n m : Nat} {s : List Cell} (h : Known n s) (hle : n ≤ m) : Known m s := by
  intro id hid
  exact Nat.lt_of_lt_of_le (h id hid) hle

lemma Known.subset {n : Nat} {s t : List Cell} (h : Known n t) (hs : s ⊆ t) : Known n s := by
  intro id hid
  exact h id (hs hid)

lemma Known.tail {n : Nat} {a : Cell} {s : List Cell} (h : Known n (a :: s)) : Known n s := by
  intro id hid
  exact h id (List.mem_cons_of_mem a hid)

lemma known_ofText (n : Nat) (s : Text) : Known n (Symbol.ofText s) := by
  intro id hid
  simp [Symbol.ofText] at hid

/-- More marks do not change what a line stands for. -/
lemma meaning_append_values {values : List Text} {line : List Cell} (more : List Text)
    (h : Known values.length line) : meaning (values ++ more) line = meaning values line := by
  induction line with
  | nil => rfl
  | cons a line ih =>
    rw [meaning_cons, meaning_cons, ih h.tail]
    congr 1
    cases a with
    | char c => rfl
    | fragment id =>
      rw [Cell.meaning, Cell.meaning, List.getElem?_append_left (h id (by simp))]

/-! ### The texts of a table -/

namespace Fragments

/-- The texts that the marks of a table stand for, in order. -/
def values (f : Fragments) : List Text :=
  f.texts.foldl (fun values text => values ++ [meaning values text]) []

@[simp] lemma values_empty : empty.values = [] := rfl

lemma values_insert (f : Fragments) (text : List Cell) :
    (f.insert text).values = f.values ++ [meaning f.values text] := by
  simp [values, insert]

/-- Every part holds only marks of earlier parts. -/
def Ordered (f : Fragments) : Prop := ∀ id text, f.texts[id]? = some text → Known id text

lemma ordered_empty : empty.Ordered := by
  intro id text h
  simp [empty] at h

lemma Ordered.insert {f : Fragments} {text : List Cell} (h : f.Ordered)
    (hk : Known f.texts.length text) : (f.insert text).Ordered := by
  intro id part hpart
  simp only [Fragments.insert, List.getElem?_append] at hpart
  split at hpart
  · exact h id part hpart
  · next hle =>
    rw [List.getElem?_singleton] at hpart
    split at hpart
    · next heq =>
      rw [Option.some.injEq] at hpart
      exact hpart ▸ hk.mono (by omega)
    · simp at hpart

@[simp] lemma length_values (f : Fragments) : f.values.length = f.texts.length := by
  obtain ⟨texts⟩ := f
  induction texts using List.reverseRecOn with
  | nil => rfl
  | append_singleton texts text ih =>
    have := values_insert ⟨texts⟩ text
    rw [insert] at this
    simp [this, ih]

lemma Ordered.of_append {texts : List (List Cell)} {text : List Cell}
    (h : Ordered ⟨texts ++ [text]⟩) : Ordered ⟨texts⟩ ∧ Known texts.length text := by
  constructor
  · intro id part hpart
    refine h id part ?_
    rw [List.getElem?_append_left (List.getElem?_eq_some_iff.mp hpart).1]
    exact hpart
  · exact h texts.length text (by simp)

/-- A mark stands for what its part stands for. -/
lemma getElem?_values {f : Fragments} (h : f.Ordered) (id : Nat) :
    f.values[id]? = (f.texts[id]?).map (meaning f.values) := by
  obtain ⟨texts⟩ := f
  induction texts using List.reverseRecOn with
  | nil => rfl
  | append_singleton texts text ih =>
    obtain ⟨hinit, hlast⟩ := h.of_append
    have hvalues : values ⟨texts ++ [text]⟩ =
        values ⟨texts⟩ ++ [meaning (values ⟨texts⟩) text] := values_insert ⟨texts⟩ text
    have hlength : (values ⟨texts⟩).length = texts.length := length_values ⟨texts⟩
    rcases Nat.lt_trichotomy id texts.length with hlt | rfl | hgt
    · rw [hvalues, List.getElem?_append_left (by omega), ih hinit,
        List.getElem?_append_left hlt, List.getElem?_eq_getElem hlt]
      simp only [Option.map_some, Option.some.injEq]
      refine (meaning_append_values _ ?_).symm
      rw [hlength]
      exact (hinit id _ (List.getElem?_eq_getElem hlt)).mono (Nat.le_of_lt hlt)
    · rw [hvalues]
      simp [hlength, meaning_append_values _ (hlength ▸ hlast)]
    · rw [hvalues, List.getElem?_eq_none (by simp [hlength]; omega),
        List.getElem?_eq_none (by simp; omega)]
      rfl

/-! ### Replacing marks -/

/-- One round of replacements does not change what a line stands for. -/
lemma meaning_lookUp {f : Fragments} (h : f.Ordered) (line : List Cell) :
    meaning f.values (line.flatMap f.lookUp) = meaning f.values line := by
  induction line with
  | nil => rfl
  | cons a line ih =>
    rw [List.flatMap_cons, meaning_append, ih, meaning_cons]
    congr 1
    cases a with
    | char c => simp [lookUp]
    | fragment id =>
      rw [lookUp, Cell.meaning, getElem?_values h]
      cases hid : f.texts[id]? with
      | some text => rfl
      | none => simp [Cell.meaning, getElem?_values h, hid]

/-- One round of replacements takes the marks down by one level. -/
lemma known_lookUp {f : Fragments} (h : f.Ordered) {n : Nat} {line : List Cell}
    (hk : Known (n + 1) line) (hn : n < f.texts.length) : Known n (line.flatMap f.lookUp) := by
  intro id hid
  obtain ⟨a, ha, hid⟩ := List.mem_flatMap.mp hid
  cases a with
  | char c => simp [lookUp] at hid
  | fragment outer =>
    have houter : outer < n + 1 := hk outer ha
    rw [lookUp, List.getElem?_eq_getElem (show outer < f.texts.length by omega)] at hid
    have := h outer _ (List.getElem?_eq_getElem (by omega)) id hid
    omega

lemma flatMap_spell_of_not_any {values : List Text} {line : List Cell}
    (h : line.any Cell.isFragment = false) : line.flatMap Cell.spell = meaning values line := by
  induction line with
  | nil => rfl
  | cons a line ih =>
    simp only [List.any_cons, Bool.or_eq_false_iff] at h
    cases a with
    | char c => simp [ih h.2, Cell.spell, Cell.meaning]
    | fragment id => simp [Cell.isFragment] at h

lemma not_any_of_known_zero {line : List Cell} (h : Known 0 line) :
    line.any Cell.isFragment = false := by
  rw [List.any_eq_false]
  intro a ha
  cases a with
  | char c => simp [Cell.isFragment]
  | fragment id => exact absurd (h id ha) (Nat.not_lt_zero id)

lemma spell_expandFor {f : Fragments} (h : f.Ordered) {rounds n : Nat} {line : List Cell}
    (hk : Known n line) (hn : n ≤ f.texts.length) (hrounds : n ≤ rounds) :
    (f.expandFor rounds line).flatMap Cell.spell = meaning f.values line := by
  induction rounds generalizing n line with
  | zero =>
    obtain rfl : n = 0 := by omega
    exact flatMap_spell_of_not_any (not_any_of_known_zero hk)
  | succ rounds ih =>
    rw [expandFor]
    split
    · next hany =>
      cases n with
      | zero =>
        rw [not_any_of_known_zero hk] at hany
        simp at hany
      | succ n =>
        rw [ih (known_lookUp h hk (by omega)) (by omega) (by omega), meaning_lookUp h]
    · next hany => exact flatMap_spell_of_not_any (by simpa using hany)

/-- Replacing marks round after round leaves none, and gives the text that the line stands for. -/
theorem spell_expand {f : Fragments} (h : f.Ordered) {line : List Cell}
    (hk : Known f.texts.length line) :
    (f.expand line).flatMap Cell.spell = meaning f.values line :=
  spell_expandFor h hk (Nat.le_refl _) (Nat.le_succ _)

end Fragments

/-! ### Lines that stand for a text -/

/-- A line stands for a text, and all its marks are in use. -/
structure Means (values : List Text) (line : List Cell) (text : Text) : Prop where
  known : Known values.length line
  meaning_eq : meaning values line = text

namespace Means

variable {values : List Text} {s t : List Cell} {a b : Text}

lemma nil : Means values [] [] := ⟨known_nil _, rfl⟩

lemma append (hs : Means values s a) (ht : Means values t b) : Means values (s ++ t) (a ++ b) :=
  ⟨known_append.mpr ⟨hs.known, ht.known⟩, by rw [meaning_append, hs.meaning_eq, ht.meaning_eq]⟩

lemma ofText (a : Text) : Means values (Symbol.ofText a) a :=
  ⟨known_ofText _ a, meaning_ofText values a⟩

lemma fragment {id : Nat} (h : values[id]? = some a) : Means values [.fragment id] a := by
  constructor
  · intro id' hid
    simp only [List.mem_singleton, Cell.fragment.injEq] at hid
    exact hid ▸ (List.getElem?_eq_some_iff.mp h).1
  · simp [Cell.meaning, h]

end Means

end Swiftward
