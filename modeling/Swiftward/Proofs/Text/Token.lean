import Mathlib.Tactic.Common
import Swiftward.Text.Token

/-!
# Tokens of a text in two parts

A text falls into the tokens of its two parts unless a word reaches from one part into the other.
-/

namespace Swiftward

variable {α : Type} [Symbol α]

namespace Token

@[simp] lemma ofText_nil : ofText ([] : List α) = [] := rfl

lemma ofText_cons (a : α) (s : List α) : ofText (a :: s) = cons a (ofText s) := rfl

lemma cons_of_not_isWord {a : α} (h : isWord a = false) (tokens : List (Token α)) :
    cons a tokens = other a :: tokens := by
  unfold cons
  split
  · rfl
  · next c hc =>
    have hword : Unicode.isWord c = false := by
      simpa [isWord, Symbol.satisfies, hc] using h
    simp [hword]

/-- A symbol joins the word at the front, or else makes a token of its own. -/
lemma cons_append {a : α} {tokens more : List (Token α)}
    (h : isWord a = true → tokens = [] → ∀ w, more.head? ≠ some (word w)) :
    cons a (tokens ++ more) = cons a tokens ++ more := by
  cases ha : isWord a with
  | false => rw [cons_of_not_isWord ha, cons_of_not_isWord ha, List.cons_append]
  | true =>
    cases tokens with
    | cons t tokens =>
      unfold cons
      cases Symbol.char? a with
      | none => rfl
      | some c => cases t <;> simp only [List.cons_append] <;> split <;> rfl
    | nil =>
      have hmore := h ha rfl
      unfold cons
      cases Symbol.char? a with
      | none => rfl
      | some c =>
        rcases more with _ | ⟨w | b, more⟩
        · simp
        · exact absurd rfl (hmore w)
        · simp only [List.nil_append]
          split <;> rfl

/-- Without a word at its front, a text has no word for its first token. -/
lemma head?_ofText_ne_word {s : List α} (h : ∀ a ∈ s.head?, isWord a = false) (w : Text) :
    (ofText s).head? ≠ some (word w) := by
  cases s with
  | nil => simp
  | cons a s =>
    rw [ofText_cons, cons_of_not_isWord (h a rfl)]
    simp

lemma ofText_append {s t : List α}
    (h : (∀ a ∈ s.getLast?, isWord a = false) ∨ ∀ a ∈ t.head?, isWord a = false) :
    ofText (s ++ t) = ofText s ++ ofText t := by
  induction s with
  | nil => simp
  | cons a s ih =>
    rw [List.cons_append, ofText_cons, ofText_cons]
    cases s with
    | nil =>
      show cons a ([] ++ ofText t) = cons a [] ++ ofText t
      apply cons_append
      intro ha _ w
      rcases h with hs | ht
      · rw [hs a rfl] at ha
        exact absurd ha (by decide)
      · exact head?_ofText_ne_word ht w
    | cons b s =>
      rw [ih (by simpa using h)]
      apply cons_append
      intro _ hnil w
      have htext : textOf (ofText (b :: s)) = [] := by rw [hnil, textOf_nil]
      simp at htext

/-- Word characters make one word. -/
lemma ofText_word {w : Text} (hne : w ≠ []) (hw : ∀ c ∈ w, Unicode.isWord c = true) :
    ofText (Symbol.ofText w : List α) = [word w] := by
  induction w with
  | nil => exact absurd rfl hne
  | cons c w ih =>
    obtain ⟨hc, hw⟩ := List.forall_mem_cons.mp hw
    have hcons : ofText (Symbol.ofText (c :: w) : List α) =
        cons (Symbol.ofChar c) (ofText (Symbol.ofText w)) := rfl
    rw [hcons]
    cases w with
    | nil => simp [cons, hc]
    | cons d w =>
      rw [ih (by simp) hw]
      simp [cons, hc]

/-- The words among the tokens consist of word characters. -/
def WellFormed (tokens : List (Token α)) : Prop :=
  ∀ w, word w ∈ tokens → ∀ c ∈ w, Unicode.isWord c = true

omit [Symbol α] in
lemma WellFormed.tail {t : Token α} {tokens : List (Token α)} (h : WellFormed (t :: tokens)) :
    WellFormed tokens := by
  intro w hw
  exact h w (List.mem_cons_of_mem t hw)

/-- A word of a text is not empty and consists of word characters. -/
lemma isWord_of_mem_ofText {s : List α} {w : Text} (h : word w ∈ ofText s) :
    w ≠ [] ∧ ∀ c ∈ w, Unicode.isWord c = true := by
  induction s generalizing w with
  | nil => simp at h
  | cons a s ih =>
    rw [ofText_cons] at h
    unfold cons at h
    split at h
    · simp only [List.mem_cons, reduceCtorEq, false_or] at h
      exact ih h
    · next c hc =>
      split at h
      · next hword =>
        split at h
        · next w' rest heq =>
          rw [heq] at ih
          rcases List.mem_cons.mp h with hfirst | hlater
          · obtain rfl : w = c :: w' := by simpa using hfirst
            refine ⟨by simp, ?_⟩
            rintro d (_ | ⟨_, hd⟩)
            · exact hword
            · exact (ih (by simp)).2 d hd
          · exact ih (List.mem_cons_of_mem _ hlater)
        · rcases List.mem_cons.mp h with hfirst | hlater
          · obtain rfl : w = [c] := by simpa using hfirst
            simp [hword]
          · exact ih hlater
      · simp only [List.mem_cons, reduceCtorEq, false_or] at h
        exact ih h

lemma wellFormed_ofText (s : List α) : WellFormed (ofText s) := by
  intro w hw
  exact (isWord_of_mem_ofText hw).2

end Token

/-- A character that belongs to no word is a token. -/
lemma ofText_sign {c : Char} (hc : isWord c = false) (s : Text) :
    Token.ofText (c :: s) = .other c :: Token.ofText s := by
  rw [Token.ofText_cons, Token.cons_of_not_isWord hc]

end Swiftward
