import Mathlib.Logic.Function.Conjugate
import Swiftward.Proofs.Text.Reading
import Swiftward.Proofs.Text.Token

/-!
# Rewriting all words of a text at once

A rule says of each word whether it goes, together with the white space behind it, and what stands
in its place otherwise. `WordRule.Rewrites` reads a text once from left to right and applies the
rule to each longest run of word characters. A function that does the same is a pass of the rule
(`WordRule.IsPass`). Two passes after each other are one pass (`WordRule.IsPass.comp`): a word that
goes takes no sign other than white space with it, and what replaces a word is a word again, so
nothing that the first pass does makes, hides or joins words for the second.
-/

namespace Swiftward

lemma IsIdentifier.ofText_append {w s : Text} (hw : IsIdentifier w)
    (hs : ∀ c ∈ s.head?, Swiftward.isWord c = false) :
    Token.ofText (w ++ s) = .word w :: Token.ofText s := by
  have hword := Token.ofText_word (α := Char) hw.ne_nil hw.isWord
  rw [Symbol.ofText_char] at hword
  rw [Token.ofText_append (.inr hs), hword, List.singleton_append]

/-- What is to happen to the words of a text. -/
@[ext] structure WordRule where
  /-- The words that go if white space follows, with all of it. -/
  drops : Text → Bool
  /-- The word in place of one that stays. -/
  replace : Text → Text
  isIdentifier_replace : ∀ {w}, IsIdentifier w → IsIdentifier (replace w)

namespace WordRule

/-- The second text is the first with the rule applied to each word, and all signs between the words
kept. -/
inductive Rewrites (rule : WordRule) : Text → Text → Prop
  | nil : rule.Rewrites [] []
  | sign {c : Char} {s t : Text} (hc : isWord c = false) (h : rule.Rewrites s t) :
    rule.Rewrites (c :: s) (c :: t)
  | dropped {w gap s t : Text} (hw : IsIdentifier w) (hdrops : rule.drops w = true)
    (hne : gap ≠ []) (hgap : ∀ c ∈ gap, isSpace c = true) (hs : ∀ c ∈ s.head?, isSpace c = false)
    (h : rule.Rewrites s t) : rule.Rewrites (w ++ (gap ++ s)) t
  | word {w s t : Text} (hw : IsIdentifier w) (hs : ∀ c ∈ s.head?, isWord c = false)
    (hstays : rule.drops w = true → ∀ c ∈ s.head?, isSpace c = false) (h : rule.Rewrites s t) :
    rule.Rewrites (w ++ s) (rule.replace w ++ t)

/-- A function that applies the rule to each word of a text. -/
structure IsPass (rule : WordRule) (pass : Text → Text) : Prop where
  nil : pass [] = []
  sign : ∀ {c}, isWord c = false → ∀ s, pass (c :: s) = c :: pass s
  dropped : ∀ {w gap s}, IsIdentifier w → rule.drops w = true → gap ≠ [] →
    (∀ c ∈ gap, isSpace c = true) → (∀ c ∈ s.head?, isSpace c = false) →
      pass (w ++ (gap ++ s)) = pass s
  word : ∀ {w s}, IsIdentifier w → (∀ c ∈ s.head?, isWord c = false) →
    (rule.drops w = true → ∀ c ∈ s.head?, isSpace c = false) →
      pass (w ++ s) = rule.replace w ++ pass s

variable {rule rule' : WordRule} {pass pass' : Text → Text} {s t : Text}

/-- A text that begins with a word character begins with a word. -/
lemma exists_word {c : Char} (hc : isWord c = true) (s : Text) :
    ∃ w rest, IsIdentifier w ∧ (∀ d ∈ rest.head?, isWord d = false) ∧ c :: s = w ++ rest := by
  have hsome : nextWord? (c :: s) = some ((c :: s).takeWhile isWord, (c :: s).dropWhile isWord) := by
    unfold nextWord?
    split
    · next hnil => simp [hc] at hnil
    · rfl
  obtain ⟨hw, hrest, heq⟩ := nextWord?_eq_some_iff.mp hsome
  exact ⟨_, _, hw, hrest, heq⟩

/-- Every text can be read from left to right. The induction is on its length, since a word and the
white space behind it are read at once. -/
lemma exists_rewrites (rule : WordRule) (s : Text) : ∃ t, rule.Rewrites s t := by
  induction hlength : s.length using Nat.strong_induction_on generalizing s with
  | _ n ih =>
    obtain _ | ⟨c, s⟩ := s
    · exact ⟨[], .nil⟩
    · cases hc : isWord c with
      | false =>
        obtain ⟨t, ht⟩ := ih s.length (by simp [← hlength]) s rfl
        exact ⟨c :: t, .sign hc ht⟩
      | true =>
        obtain ⟨w, rest, hw, hrest, heq⟩ := exists_word hc s
        have hpos : 0 < w.length := List.length_pos_iff.mpr hw.ne_nil
        rw [heq, List.length_append] at hlength
        rw [heq]
        by_cases hdrops : rule.drops w = true ∧ trimStart rest ≠ rest
        · obtain ⟨gap, hgap, hgapped⟩ := exists_lead rest
          have hne : gap ≠ [] := by
            rintro rfl
            exact hdrops.2 hgapped.symm
          have hle := length_trimStart_le rest
          obtain ⟨t, ht⟩ := ih _ (by omega) (trimStart rest) rfl
          refine ⟨t, ?_⟩
          rw [hgapped]
          exact .dropped hw hdrops.1 hne hgap (head_trimStart rest) ht
        · obtain ⟨t, ht⟩ := ih _ (by omega) rest rfl
          refine ⟨rule.replace w ++ t, .word hw hrest ?_ ht⟩
          intro hdropped
          have hkept : trimStart rest = rest := by simpa [hdropped] using hdrops
          rw [← hkept]
          exact head_trimStart rest

/-- A pass is what the rule makes of each text, and there is only one. -/
theorem IsPass.rewrites_iff (hpass : rule.IsPass pass) : rule.Rewrites s t ↔ pass s = t := by
  have heq : ∀ {s t}, rule.Rewrites s t → pass s = t := by
    intro s t h
    induction h with
    | nil => exact hpass.nil
    | sign hc _ ih => rw [hpass.sign hc, ih]
    | dropped hw hdrops hne hgap hs _ ih => rw [hpass.dropped hw hdrops hne hgap hs, ih]
    | word hw hs hstays _ ih => rw [hpass.word hw hs hstays, ih]
  constructor
  · exact heq
  · rintro rfl
    obtain ⟨t, ht⟩ := exists_rewrites rule s
    rwa [heq ht]

lemma IsPass.rewrites (hpass : rule.IsPass pass) (s : Text) : rule.Rewrites s (pass s) :=
  hpass.rewrites_iff.mpr rfl

lemma IsPass.unique (hpass : rule.IsPass pass) (hpass' : rule.IsPass pass') : pass = pass' :=
  funext fun s => hpass.rewrites_iff.mp (hpass'.rewrites s)

/-- A text whose words all stay as they are is not changed. -/
lemma Rewrites.eq_self (h : rule.Rewrites s t)
    (hkept : ∀ w, .word w ∈ Token.ofText s → rule.drops w = false ∧ rule.replace w = w) :
    t = s := by
  induction h with
  | nil => rfl
  | sign hc _ ih =>
    rw [ofText_sign hc] at hkept
    rw [ih fun w hw => hkept w (List.mem_cons_of_mem _ hw)]
  | dropped hw hdrops hne hgap =>
    rw [hw.ofText_append (head_not_word_spaces_append hgap hne _)] at hkept
    simp [(hkept _ List.mem_cons_self).1] at hdrops
  | word hw hs _ _ ih =>
    rw [hw.ofText_append hs] at hkept
    rw [ih fun w hw => hkept w (List.mem_cons_of_mem _ hw), (hkept _ List.mem_cons_self).2]

/-! ### Two passes -/

/-- No white space comes to the front of a text. -/
lemma Rewrites.head_not_space (h : rule.Rewrites s t) (hs : ∀ c ∈ s.head?, isSpace c = false) :
    ∀ c ∈ t.head?, isSpace c = false := by
  induction h with
  | nil => exact hs
  | sign => exact hs
  | dropped _ _ _ _ hrest _ ih => exact ih hrest
  | word hw _ _ _ => exact (rule.isIdentifier_replace hw).head_not_space _

lemma IsPass.head_not_space (hpass : rule.IsPass pass) (hs : ∀ c ∈ s.head?, isSpace c = false) :
    ∀ c ∈ (pass s).head?, isSpace c = false :=
  (hpass.rewrites s).head_not_space hs

/-- No word comes to the front of a text that does not begin with one. -/
lemma IsPass.head_not_word (hpass : rule.IsPass pass) (hs : ∀ c ∈ s.head?, isWord c = false) :
    ∀ c ∈ (pass s).head?, isWord c = false := by
  cases s with
  | nil => rwa [hpass.nil]
  | cons c s =>
    have hc : isWord c = false := hs c rfl
    rwa [hpass.sign hc]

lemma IsPass.spaces (hpass : rule.IsPass pass) {gap : Text} (hgap : ∀ c ∈ gap, isSpace c = true)
    (s : Text) : pass (gap ++ s) = gap ++ pass s := by
  induction gap with
  | nil => rfl
  | cons c gap ih =>
    obtain ⟨hc, hgap⟩ := List.forall_mem_cons.mp hgap
    rw [List.cons_append, hpass.sign (Unicode.isWord_of_isSpace hc), ih hgap, List.cons_append]

/-- One rule after another. -/
protected def comp (rule' rule : WordRule) : WordRule where
  drops w := rule.drops w || rule'.drops (rule.replace w)
  replace w := rule'.replace (rule.replace w)
  isIdentifier_replace hw := rule'.isIdentifier_replace (rule.isIdentifier_replace hw)

/-- Two passes after each other are a single pass. -/
theorem IsPass.comp (hpass' : rule'.IsPass pass') (hpass : rule.IsPass pass) :
    (rule'.comp rule).IsPass (pass' ∘ pass) where
  nil := by rw [Function.comp_apply, hpass.nil, hpass'.nil]
  sign hc s := by simp only [Function.comp_apply, hpass.sign hc, hpass'.sign hc]
  dropped {w gap s} hw hdrops hne hgap hs := by
    simp only [Function.comp_apply]
    cases hfirst : rule.drops w with
    | true => rw [hpass.dropped hw hfirst hne hgap hs]
    | false =>
      have hsecond : rule'.drops (rule.replace w) = true := by
        simpa [WordRule.comp, hfirst] using hdrops
      rw [hpass.word hw (head_not_word_spaces_append hgap hne s) (by simp [hfirst]),
        hpass.spaces hgap,
        hpass'.dropped (rule.isIdentifier_replace hw) hsecond hne hgap (hpass.head_not_space hs)]
  word {w s} hw hs hstays := by
    simp only [WordRule.comp, Bool.or_eq_true] at hstays
    have hstays' : rule'.drops (rule.replace w) = true →
        ∀ c ∈ (pass s).head?, isSpace c = false := fun hdrops =>
      hpass.head_not_space (hstays (.inr hdrops))
    rw [Function.comp_apply, hpass.word hw hs (fun hdrops => hstays (.inl hdrops)),
      hpass'.word (rule.isIdentifier_replace hw) (hpass.head_not_word hs) hstays']
    rfl

/-- Rules that may be applied in either order have passes that may be. -/
lemma IsPass.commute (hpass' : rule'.IsPass pass') (hpass : rule.IsPass pass)
    (h : rule'.comp rule = rule.comp rule') : Function.Commute pass' pass := by
  intro s
  have hswapped := hpass.comp hpass'
  rw [← h] at hswapped
  exact congrFun ((hpass'.comp hpass).unique hswapped) s

/-! ### A text in two parts -/

/-- What stands before a word, or before a sign that is no white space, is rewritten on its own. -/
lemma Rewrites.append {front back before after : Text} (hfront : rule.Rewrites front before)
    (hback : rule.Rewrites back after) (hlast : ∀ c ∈ front.getLast?, isWord c = false)
    (hhead : ∀ c ∈ back.head?, isSpace c = false) :
    rule.Rewrites (front ++ back) (before ++ after) := by
  induction hfront with
  | nil => exact hback
  | @sign c s t hc _ ih =>
    refine .sign hc (ih ?_)
    intro d hd
    refine hlast d ?_
    rw [List.getLast?_cons, Option.mem_def.mp hd]
    rfl
  | @dropped w gap s t hw hdrops hne hgap hs _ ih =>
    rw [List.append_assoc, List.append_assoc]
    refine .dropped hw hdrops hne hgap ?_ (ih ?_)
    · cases s with
      | nil => exact hhead
      | cons => exact hs
    · intro d hd
      refine hlast d ?_
      rw [List.getLast?_append, List.getLast?_append, Option.mem_def.mp hd]
      rfl
  | @word w s t hw hs hstays _ ih =>
    -- a word at the very end of the front would go on in the text behind it
    have hne : s ≠ [] := by
      rintro rfl
      obtain ⟨init, c, rfl⟩ := List.eq_nil_or_concat w |>.resolve_left hw.ne_nil
      have hword := hw.isWord c (by simp)
      have hsign : Unicode.isWord c = false := hlast c (by simp)
      simp [hword] at hsign
    obtain ⟨c, s, rfl⟩ := List.exists_cons_of_ne_nil hne
    rw [List.append_assoc, List.append_assoc]
    refine .word hw hs hstays (ih ?_)
    intro d hd
    refine hlast d ?_
    rw [List.getLast?_append, Option.mem_def.mp hd]
    rfl

end WordRule

end Swiftward
