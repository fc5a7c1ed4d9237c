import Mathlib.Tactic.Common
import Swiftward.MessageSend.Basic
import Swiftward.Text.Bracket

/-!
# Closed stretches of text

A stretch of text is *closed* if it leaves no literal open, and *plain* if moreover no square
bracket stands outside its literals. Scans that carry the quoting state pass over such stretches
without a trace: `interior?`, `Bracketed.ofText` and `cutAtKeywords` of `s ++ t` are those of `t`
with `s` put in front.
-/

namespace Swiftward

variable {α : Type} [Symbol α]

/-! ### Literals left open -/

/-- Whether no literal is open at the end of a text. -/
def Closed (s : List α) : Prop := Quoting.code.run s = .code

instance (s : List α) : Decidable (Closed s) := inferInstanceAs (Decidable (_ = _))

@[simp] lemma closed_nil : Closed ([] : List α) := rfl

lemma Closed.append {s t : List α} (hs : Closed s) (ht : Closed t) : Closed (s ++ t) := by
  unfold Closed at *
  rw [Quoting.run_append, hs, ht]

lemma Closed.run {s t : List α} (hs : Closed s) : Quoting.code.run (s ++ t) = Quoting.code.run t := by
  rw [Quoting.run_append, hs]

lemma Closed.of_append_left {s t : List α} (hs : Closed s) (h : Closed (s ++ t)) : Closed t := by
  rwa [Closed, hs.run] at h

/-- The character is no quote, so it does not change the state outside literals. -/
def isUnquoted (a : α) : Bool := !isChar '"' a && !isChar '\'' a

lemma Quoting.step_code_of_isUnquoted {a : α} (h : isUnquoted a = true) :
    Quoting.code.step a = .code := by
  unfold Quoting.step
  split
  · next c hc =>
    obtain rfl := Symbol.char?_eq_some_iff.mp hc
    simp_all [isUnquoted, isChar, Quoting.stepChar]
  · rfl

lemma closed_of_forall_isUnquoted {s : List α} (h : ∀ a ∈ s, isUnquoted a = true) : Closed s := by
  induction s with
  | nil => rfl
  | cons a s ih =>
    obtain ⟨ha, hs⟩ := List.forall_mem_cons.mp h
    rw [Closed, Quoting.run_cons, Quoting.step_code_of_isUnquoted ha]
    exact ih hs

/-- A character of a class is none that does not belong to the class. -/
lemma ne_of_class {p : Char → Bool} {c d : Char} (hc : p c = true) (hd : p d = false) : c ≠ d := by
  rintro rfl
  simp [hc] at hd

lemma isChar_eq_false {p : Char → Bool} {c d : Char} (hc : p c = true) (hd : p d = false) :
    isChar d c = false := by
  rw [isChar_char]
  exact beq_eq_false_iff_ne.mpr (ne_of_class hc hd)

lemma isUnquoted_of_isWord {c : Char} (h : Unicode.isWord c = true) : isUnquoted c = true := by
  rw [isUnquoted, isChar_eq_false h (by decide), isChar_eq_false h (by decide)]
  rfl

lemma isUnquoted_of_isSpace {c : Char} (h : Unicode.isSpace c = true) : isUnquoted c = true := by
  rw [isUnquoted, isChar_eq_false h (by decide), isChar_eq_false h (by decide)]
  rfl

/-! ### Characters outside literals -/

/-- Whether the character `c` stands outside the literals of a text read in state `q`. -/
def hasBareFrom (c : Char) (q : Quoting) : List α → Bool
  | [] => false
  | a :: s => q.bare c a || hasBareFrom c (q.step a) s

lemma hasBareFrom_append {c : Char} {q : Quoting} {s t : List α} :
    hasBareFrom c q (s ++ t) = (hasBareFrom c q s || hasBareFrom c (q.run s) t) := by
  induction s generalizing q with
  | nil => simp [hasBareFrom]
  | cons a s ih => simp [hasBareFrom, ih, Bool.or_assoc]

lemma hasBareFrom_of_forall_ne {c : Char} {q : Quoting} {s : List α}
    (h : ∀ a ∈ s, isChar c a = false) : hasBareFrom c q s = false := by
  induction s generalizing q with
  | nil => rfl
  | cons a s ih =>
    obtain ⟨ha, hs⟩ := List.forall_mem_cons.mp h
    rw [hasBareFrom, ih hs]
    simp [Quoting.bare, ha]

lemma hasBareBracketFrom_eq (q : Quoting) (s : List α) :
    hasBareBracketFrom q s = (hasBareFrom '[' q s || hasBareFrom ']' q s) := by
  induction s generalizing q with
  | nil => rfl
  | cons a s ih =>
    simp only [hasBareBracketFrom, hasBareFrom, ih]
    grind

/-! ### Plain stretches -/

/-- A stretch that leaves no literal open and has no square bracket outside its literals. -/
structure Plain (s : List α) : Prop where
  closed : Closed s
  bracketless : hasBareBracket s = false

instance (s : List α) : Decidable (Plain s) :=
  decidable_of_iff (Closed s ∧ hasBareBracket s = false)
    ⟨fun ⟨hc, hb⟩ => ⟨hc, hb⟩, fun ⟨hc, hb⟩ => ⟨hc, hb⟩⟩

@[simp] lemma plain_nil : Plain ([] : List α) := ⟨rfl, rfl⟩

lemma hasBareBracketFrom_append (q : Quoting) (s t : List α) :
    hasBareBracketFrom q (s ++ t) = (hasBareBracketFrom q s || hasBareBracketFrom (q.run s) t) := by
  induction s generalizing q with
  | nil => simp [hasBareBracketFrom]
  | cons a s ih => simp [hasBareBracketFrom, ih, Bool.or_assoc]

lemma Plain.append {s t : List α} (hs : Plain s) (ht : Plain t) : Plain (s ++ t) := by
  refine ⟨hs.closed.append ht.closed, ?_⟩
  rw [hasBareBracket, hasBareBracketFrom_append, hs.closed]
  simp only [Bool.or_eq_false_iff]
  exact ⟨hs.bracketless, ht.bracketless⟩

lemma Plain.of_forall {s : List α}
    (h : ∀ a ∈ s, isUnquoted a = true ∧ isChar '[' a = false ∧ isChar ']' a = false) : Plain s := by
  constructor
  · apply closed_of_forall_isUnquoted
    intro a ha
    exact (h a ha).1
  · have hopen : hasBareFrom '[' .code s = false := by
      apply hasBareFrom_of_forall_ne
      intro a ha
      exact (h a ha).2.1
    have hclose : hasBareFrom ']' .code s = false := by
      apply hasBareFrom_of_forall_ne
      intro a ha
      exact (h a ha).2.2
    rw [hasBareBracket, hasBareBracketFrom_eq, hopen, hclose]
    rfl

/-- A class to which no quote and no bracket belongs. -/
lemma plain_of_class {p : Char → Bool} (hp : ['"', '\'', '[', ']'].any p = false) {s : Text}
    (h : ∀ c ∈ s, p c = true) : Plain s := by
  apply Plain.of_forall
  intro c hc
  have hne {d : Char} (hd : d ∈ ['"', '\'', '[', ']']) : isChar d c = false :=
    isChar_eq_false (h c hc) (Bool.eq_false_iff.mpr (List.any_eq_false.mp hp d hd))
  rw [isUnquoted, hne (by decide), hne (by decide), hne (by decide), hne (by decide)]
  exact ⟨rfl, rfl, rfl⟩

lemma plain_word {s : Text} (h : ∀ c ∈ s, Unicode.isWord c = true) : Plain s :=
  plain_of_class (by decide) h

lemma plain_space {s : Text} (h : ∀ c ∈ s, isSpace c = true) : Plain s := plain_of_class (by decide) h

/-- What holds of a text holds of the symbols it is written with. -/
lemma Quoting.run_ofText (q : Quoting) (s : Text) : q.run (Symbol.ofText s : List α) = q.run s := by
  induction s generalizing q with
  | nil => rfl
  | cons c s ih =>
    have hstep : q.step (Symbol.ofChar c : α) = q.step c := by simp [Quoting.step]
    rw [Symbol.ofText, List.map_cons, run_cons, run_cons, hstep]
    exact ih _

lemma Quoting.bare_ofChar (q : Quoting) (c d : Char) :
    q.bare c (Symbol.ofChar d : α) = q.bare c d := by
  simp [bare, isChar]

lemma closed_ofText {s : Text} : Closed (Symbol.ofText s : List α) ↔ Closed s := by
  rw [Closed, Closed, Quoting.run_ofText]

lemma hasBareBracketFrom_ofText (q : Quoting) (s : Text) :
    hasBareBracketFrom q (Symbol.ofText s : List α) = hasBareBracketFrom q s := by
  induction s generalizing q with
  | nil => rfl
  | cons c s ih =>
    have hstep : q.step (Symbol.ofChar c : α) = q.step c := by simp [Quoting.step]
    simp only [Symbol.ofText, List.map_cons, hasBareBracketFrom, Quoting.bare_ofChar, hstep]
    rw [← ih]
    rfl

lemma hasBareFrom_ofText (c : Char) (q : Quoting) (s : Text) :
    hasBareFrom c q (Symbol.ofText s : List α) = hasBareFrom c q s := by
  induction s generalizing q with
  | nil => rfl
  | cons d s ih =>
    have hstep : q.step (Symbol.ofChar d : α) = q.step d := by simp [Quoting.step]
    simp only [Symbol.ofText, List.map_cons, hasBareFrom, Quoting.bare_ofChar, hstep]
    rw [← ih]
    rfl

lemma plain_ofText {s : Text} : Plain (Symbol.ofText s : List α) ↔ Plain s := by
  constructor
  · rintro ⟨hc, hb⟩
    exact ⟨closed_ofText.mp hc, by rwa [hasBareBracket, hasBareBracketFrom_ofText] at hb⟩
  · rintro ⟨hc, hb⟩
    exact ⟨closed_ofText.mpr hc, by rwa [hasBareBracket, hasBareBracketFrom_ofText]⟩

lemma plain_ofChar {c : Char} (h : Plain [c]) : Plain [(Symbol.ofChar c : α)] :=
  plain_ofText.mpr h

/-! ### Scans for brackets -/

lemma interior?_append {q : Quoting} {s : List α} (h : hasBareBracketFrom q s = false)
    (t : List α) :
    interior? q (s ++ t) = (interior? (q.run s) t).map fun (inside, rest) => (s ++ inside, rest) := by
  induction s generalizing q with
  | nil => simp
  | cons a s ih =>
    simp only [hasBareBracketFrom, Bool.or_eq_false_iff] at h
    obtain ⟨⟨hopen, hclose⟩, hs⟩ := h
    simp only [List.cons_append, interior?, hopen, hclose, Quoting.run_cons, ih hs]
    simp [Function.comp_def]

/-- The first bracket of a text closes the pair. -/
lemma Plain.interior? {s : List α} (h : Plain s) (t : List α) :
    interior? .code (s ++ Symbol.ofChar ']' :: t) = some (s, t) := by
  rw [interior?_append h.bracketless, h.closed]
  simp [Swiftward.interior?, Quoting.bare_iff.mpr]

section Prepend

variable {β : Type}

/-- The same cut with a stretch of text put in front. -/
def Bracketed.prepend (s : List β) : Bracketed β → Bracketed β
  | ⟨[], tail⟩ => ⟨[], s ++ tail⟩
  | ⟨pair :: pairs, tail⟩ => ⟨{ pair with before := s ++ pair.before } :: pairs, tail⟩

@[simp] lemma Bracketed.prepend_nil (cut : Bracketed β) : cut.prepend [] = cut := by
  obtain ⟨_ | ⟨pair, pairs⟩, tail⟩ := cut <;> rfl

lemma Bracketed.cons_prepend (a : β) (s : List β) (cut : Bracketed β) :
    (cut.prepend s).cons a = cut.prepend (a :: s) := by
  obtain ⟨_ | ⟨pair, pairs⟩, tail⟩ := cut <;> rfl

lemma Bracketed.cons_eq_prepend (a : β) (cut : Bracketed β) : cut.cons a = cut.prepend [a] := by
  rw [← cons_prepend, prepend_nil]

end Prepend

/-- A symbol that opens no innermost pair is passed over. -/
lemma Bracketed.ofTextFrom_cons {q : Quoting} {a : α} {s : List α}
    (h : q.bare '[' a = true → Swiftward.interior? q s = none) :
    ofTextFrom q (a :: s) = (ofTextFrom (q.step a) s).prepend [a] := by
  rw [ofTextFrom, ← cons_eq_prepend]
  split
  · next inside rest heq =>
    split at heq
    · next ha => rw [h ha] at heq; simp at heq
    · simp at heq
  · rfl

lemma Bracketed.ofTextFrom_append {q : Quoting} {s : List α}
    (h : hasBareBracketFrom q s = false) (t : List α) :
    ofTextFrom q (s ++ t) = (ofTextFrom (q.run s) t).prepend s := by
  induction s generalizing q with
  | nil => simp
  | cons a s ih =>
    simp only [hasBareBracketFrom, Bool.or_eq_false_iff] at h
    obtain ⟨⟨hopen, -⟩, hs⟩ := h
    rw [List.cons_append, ofTextFrom_cons (by simp [hopen]), ih hs, ← cons_eq_prepend, cons_prepend,
      Quoting.run_cons]

lemma Bracketed.ofText_append {s : List α} (h : Plain s) (t : List α) :
    ofText (s ++ t) = (ofText t).prepend s := by
  rw [ofText, ofTextFrom_append h.bracketless, h.closed]
  rfl

/-- Without an opening bracket there is no pair. -/
lemma Bracketed.ofText_of_not_mem {s : List α} (h : Symbol.ofChar '[' ∉ s) :
    ofText s = ⟨[], s⟩ := by
  have htext := toText_ofText s
  generalize ofText s = cut at htext
  obtain ⟨_ | ⟨pair, pairs⟩, tail⟩ := cut
  · rw [← htext]
    rfl
  · refine absurd ?_ h
    simp [← htext, toText, BracketPair.whole]

/-- A pair of brackets around a plain stretch is innermost. -/
lemma Bracketed.ofText_pair {inside : List α} (h : Plain inside) (t : List α) :
    ofText (Symbol.ofChar '[' :: inside ++ Symbol.ofChar ']' :: t) =
      ⟨⟨[], inside⟩ :: (ofText t).pairs, (ofText t).tail⟩ := by
  have hopen : Quoting.code.bare '[' (Symbol.ofChar '[' : α) = true := Quoting.bare_iff.mpr ⟨rfl, rfl⟩
  have hinterior := h.interior? t
  rw [ofText, List.cons_append, ofTextFrom]
  split
  · next inside' rest heq =>
    rw [if_pos hopen, hinterior, Option.some.injEq, Prod.mk.injEq] at heq
    obtain ⟨rfl, rfl⟩ := heq
    rfl
  · next heq =>
    rw [if_pos hopen, hinterior] at heq
    simp at heq

end Swiftward
