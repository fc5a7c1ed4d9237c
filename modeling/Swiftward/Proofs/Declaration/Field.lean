import Swiftward.Declaration.Field
import Swiftward.Proofs.Text.Reading

/-!
# How instance variables are spelled

Only what stands before the first semicolon counts, without the white space around it. The name is
the word at the end of that, as long as possible, and all before it is the type: a text splits in
only one way into a word and something that ends in a separator (`splitLastWord_eq_iff`). So the
lines that are read as instance variables are those that spell one (`Field.parse?_eq_some_iff`).
-/

namespace Swiftward

/-- The text before the first semicolon begins with a word character and ends with the name, and the
type before the name ends in white space or a `*`. -/
inductive Field.SpelledBy : Field → Text → Prop where
  | mk {front rest type name : Text} (hfront : ';' ∉ front) (htrim : trim front = type ++ name)
      (hfirst : ∃ c ∈ (trim front).head?, isWord c = true) (hname : IsIdentifier name)
      (hends : ∃ c ∈ type.getLast?, isSpace c = true ∨ c = '*') :
      SpelledBy ⟨trim type, name⟩ (front ++ ';' :: rest)

/-- A word is split off at the end, up to where it begins. -/
lemma splitLastWord_eq_iff {s type name : Text} :
    splitLastWord s = (type, name) ↔
      s = type ++ name ∧ (∀ c ∈ name, Unicode.isWord c = true) ∧
        ∀ c ∈ type.getLast?, isWord c = false := by
  unfold splitLastWord
  constructor
  · intro h
    obtain ⟨rfl, rfl⟩ := Prod.mk.inj h
    refine ⟨?_, ?_, ?_⟩
    · rw [← List.reverse_append, List.takeWhile_append_dropWhile, List.reverse_reverse]
    · intro c hc
      exact List.mem_takeWhile_imp (p := isWord) (List.mem_reverse.mp hc)
    · intro c hc
      rw [List.getLast?_reverse] at hc
      have hnot := List.head?_dropWhile_not isWord s.reverse
      rw [Option.mem_def.mp hc] at hnot
      simpa using hnot
  · rintro ⟨rfl, hname, htype⟩
    have hword : ∀ c ∈ name.reverse, isWord c = true := fun c hc =>
      hname c (List.mem_reverse.mp hc)
    have hends : ∀ c ∈ type.reverse.head?, isWord c = false := by rwa [List.head?_reverse]
    obtain ⟨htake, hdrop⟩ := takeWhile_dropWhile_append hword hends
    rw [List.reverse_append, htake, hdrop, List.reverse_reverse, List.reverse_reverse]

/-- A separator belongs to no word. -/
lemma isWord_of_separator {c : Char} (h : isSpace c = true ∨ c = '*') : isWord c = false := by
  obtain hspace | rfl := h
  · exact Unicode.isWord_of_isSpace hspace
  · decide

/-- What is before the first semicolon. -/
lemma takeWhile_semicolon {front : Text} (hfront : ';' ∉ front) (rest : Text) :
    (front ++ ';' :: rest).takeWhile (· ≠ ';') = front := by
  have hchars : ∀ c ∈ front, decide (c ≠ ';') = true := by
    intro c hc
    rw [decide_eq_true_iff]
    rintro rfl
    exact hfront hc
  exact (takeWhile_dropWhile_append hchars (by simp)).1

lemma exists_semicolon {line : Text} (h : ';' ∈ line) :
    ';' ∉ line.takeWhile (· ≠ ';') ∧ ∃ rest, line = line.takeWhile (· ≠ ';') ++ ';' :: rest := by
  refine ⟨fun hmem => by simpa using List.mem_takeWhile_imp hmem, ?_⟩
  have hsplit := List.takeWhile_append_dropWhile (p := fun c => decide (c ≠ ';')) (l := line)
  cases hdrop : line.dropWhile (· ≠ ';') with
  | nil => simpa using List.dropWhile_eq_nil_iff.mp hdrop ';' h
  | cons c rest =>
    have hnot := List.head?_dropWhile_not (fun c => decide (c ≠ ';')) line
    rw [hdrop] at hnot hsplit
    obtain rfl : c = ';' := by simpa using hnot
    exact ⟨rest, hsplit.symm⟩

namespace Field

variable {field : Field} {line : Text}

/-- The lines that are read as instance variables are those that spell one. -/
theorem parse?_eq_some_iff : parse? line = some field ↔ field.SpelledBy line := by
  unfold parse?
  constructor
  · intro h
    split_ifs at h with hsemicolon
    obtain ⟨hfront, rest, hline⟩ := exists_semicolon (hsemicolon)
    generalize line.takeWhile (· ≠ ';') = front at hfront hline h
    obtain ⟨htrim, hname, -⟩ := splitLastWord_eq_iff.mp (Eq.refl (splitLastWord (trim front)))
    generalize (splitLastWord (trim front)).1 = type at htrim h
    generalize (splitLastWord (trim front)).2 = name at htrim hname h
    obtain ⟨⟨hfirst, hne, hends⟩, h⟩ := Option.ite_none_right_eq_some.mp h
    obtain rfl := Option.some.inj h
    rw [hline]
    exact .mk hfront htrim ((Option.any_eq_true _ _).mp hfirst) ⟨hne, hname⟩
      (by simpa [Option.any_eq_true] using hends)
  · rintro @⟨front, rest, type, name, hfront, htrim, hfirst, hname, hends⟩
    have hsemicolon : ¬ ';' ∉ front ++ ';' :: rest := by simp
    have hlast : ∀ c ∈ type.getLast?, isWord c = false := by
      obtain ⟨c, hc, hseparator⟩ := hends
      intro d hd
      obtain rfl := Option.mem_unique hc hd
      exact isWord_of_separator hseparator
    have hsplit := splitLastWord_eq_iff.mpr ⟨htrim, hname.isWord, hlast⟩
    have hreads : (trim front).head?.any isWord = true ∧ name ≠ [] ∧
        type.getLast?.any (fun c => isSpace c || c == '*') = true :=
      ⟨(Option.any_eq_true _ _).mpr hfirst, hname.ne_nil, by simpa [Option.any_eq_true] using hends⟩
    simp only [if_neg hsemicolon, takeWhile_semicolon hfront, hsplit]
    exact if_pos hreads

end Field

end Swiftward
