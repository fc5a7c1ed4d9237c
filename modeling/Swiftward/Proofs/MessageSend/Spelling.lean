import Swiftward.Proofs.MessageSend.Resolve
import Swiftward.Proofs.Text.Rewording

/-!
# Opaque symbols spelled out

A map from symbols to stretches of text *spells* the opaque symbols out if it keeps every character,
and if nothing in the stretch for an opaque symbol means anything to a stage: no white space, no
quote and no punctuation that a stage looks for, and no word that reaches beyond the stretch. Then
every stage commutes with the spelling: a text is cut at the same places, its sends are read in the
same way (`IsSpelling.resolveSend_flatMap`), and innermost pairs of brackets are found where they
were (`IsSpelling.bracketed_flatMap`).
-/

namespace Swiftward

variable {α β : Type} [Symbol α] [Symbol β]

/-- A symbol is a character, or it is opaque. -/
lemma Symbol.eq_ofChar_or (a : α) : (∃ c, a = Symbol.ofChar c) ∨ Symbol.char? a = none := by
  cases h : Symbol.char? a with
  | none => exact .inr rfl
  | some c => exact .inl ⟨c, Symbol.char?_eq_some_iff.mp h⟩

lemma Symbol.satisfies_eq_false {a : α} (h : Symbol.char? a = none) (p : Char → Bool) :
    Symbol.satisfies p a = false := by
  simp [Symbol.satisfies, h]

/-! ### Words -/

lemma exists_ofChar_of_isWord {a : α} (h : isWord a = true) : ∃ c, a = Symbol.ofChar c := by
  rcases Symbol.eq_ofChar_or a with hchar | hnone
  · exact hchar
  · simp [isWord, Symbol.satisfies_eq_false hnone] at h

/-- Word characters are characters. -/
lemma exists_word_of_forall {s : List α} (h : ∀ a ∈ s, isWord a = true) :
    ∃ w : Text, s = Symbol.ofText w ∧ ∀ c ∈ w, Unicode.isWord c = true := by
  induction s with
  | nil => exact ⟨[], rfl, by simp⟩
  | cons a s ih =>
    obtain ⟨ha, hs⟩ := List.forall_mem_cons.mp h
    obtain ⟨w, rfl, hw⟩ := ih hs
    obtain ⟨c, rfl⟩ := exists_ofChar_of_isWord ha
    exact ⟨c :: w, rfl, List.forall_mem_cons.mpr ⟨by simpa [isWord] using ha, hw⟩⟩

namespace Token

/-- A word character before anything but a word makes a word of its own. -/
lemma cons_word {c : Char} (hc : Unicode.isWord c = true) {tokens : List (Token α)}
    (h : ∀ w, tokens.head? ≠ some (word w)) :
    cons (Symbol.ofChar c) tokens = word [c] :: tokens := by
  rcases tokens with _ | ⟨w | b, tokens⟩
  · simp [cons, hc]
  · exact absurd rfl (h w)
  · simp [cons, hc]

/-- A symbol that belongs to no word is no word character. -/
lemma isWord_of_other_mem {s : List α} {a : α} (h : other a ∈ ofText s) : isWord a = false := by
  induction s with
  | nil => simp at h
  | cons b s ih =>
    rw [ofText_cons] at h
    cases hb : isWord b with
    | false =>
      rw [cons_of_not_isWord hb] at h
      rcases List.mem_cons.mp h with hfirst | hlater
      · obtain rfl : a = b := by simpa using hfirst
        exact hb
      · exact ih hlater
    | true =>
      obtain ⟨c, rfl⟩ := exists_ofChar_of_isWord hb
      have hc : Unicode.isWord c = true := by simpa [isWord] using hb
      apply ih
      rcases htokens : ofText s with _ | ⟨w | d, rest⟩
      · simp [htokens, cons, hc] at h
      · simpa [htokens, cons, hc] using h
      · simpa [htokens, cons, hc] using h

end Token

/-! ### Literals -/

/-- The characters that the stages look for. -/
def delimiters : Text := ['"', '\'', '\\', '[', ']', ':', ',']

/-- A symbol that no stage looks for where it stands in the middle of a text. -/
def isInert (b : β) : Bool :=
  !isSpace b && delimiters.all fun c => !isChar c b

lemma isChar_of_isInert {b : β} (h : isInert b = true) {c : Char}
    (hc : c ∈ delimiters) : isChar c b = false := by
  rw [isInert, Bool.and_eq_true, List.all_eq_true] at h
  simpa using h.2 c hc

lemma isSpace_of_isInert {b : β} (h : isInert b = true) : isSpace b = false := by
  rw [isInert, Bool.and_eq_true] at h
  simpa using h.1

lemma Quoting.Quoted.step_inert {q : Quoting} (h : q.Quoted) {b : β} (hb : isInert b = true) :
    q.step b = q.stepOpaque := by
  rcases Symbol.eq_ofChar_or b with ⟨c, rfl⟩ | hnone
  · have hne (d : Char) (hd : d ∈ delimiters) : c ≠ d := by
      simpa [isChar] using isChar_of_isInert hb hd
    have hstep : q.step (Symbol.ofChar c : β) = q.stepChar c := by simp [Quoting.step]
    rw [hstep]
    rcases q with _ | ⟨mark, _ | _⟩
    · simp [Quoting.stepChar, Quoting.stepOpaque, hne '"' (by decide), hne '\'' (by decide)]
    · have hmark : mark = '"' ∨ mark = '\'' := by
        have hquoted : isUnquoted mark = false := h
        simp only [isUnquoted, isChar_char, Bool.and_eq_false_iff, Bool.not_eq_false', beq_iff_eq]
          at hquoted
        exact hquoted
      rcases hmark with rfl | rfl
      · simp [Quoting.stepChar, Quoting.stepOpaque, hne '"' (by decide), hne '\\' (by decide)]
      · simp [Quoting.stepChar, Quoting.stepOpaque, hne '\'' (by decide), hne '\\' (by decide)]
    · rfl
  · simp [Quoting.step, hnone]

/-! ### Stretches that read like an opaque symbol -/

/-- A stretch of text in which no stage finds anything, and beyond which no word in it reaches. -/
structure ReadsOpaque (t : List β) : Prop where
  ne_nil : t ≠ []
  inert : ∀ b ∈ t, isInert b = true
  head_not_word : ∀ b ∈ t.head?, isWord b = false
  last_not_word : ∀ b ∈ t.getLast?, isWord b = false

namespace ReadsOpaque

variable {t : List β} (ht : ReadsOpaque t)

include ht

lemma run_eq {q : Quoting} (hq : q.Quoted) : q.run t = q.stepOpaque := by
  obtain ⟨hne, hinert, -, -⟩ := ht
  induction t generalizing q with
  | nil => exact absurd rfl hne
  | cons b t ih =>
    obtain ⟨hb, hrest⟩ := List.forall_mem_cons.mp hinert
    rw [Quoting.run_cons, hq.step_inert hb]
    by_cases hnil : t = []
    · rw [hnil, Quoting.run_nil]
    · have hquoted : q.stepOpaque.Quoted := by
        rw [← hq.step_inert hb]
        exact hq.step b
      rw [ih hquoted hnil hrest]
      cases q <;> rfl

lemma hasBareFrom_eq {c : Char} (hc : c ∈ delimiters) (q : Quoting) :
    hasBareFrom c q t = false := by
  apply hasBareFrom_of_forall_ne
  intro b hb
  exact isChar_of_isInert (ht.inert b hb) hc

lemma hasBareBracketFrom_eq (q : Quoting) : hasBareBracketFrom q t = false := by
  rw [Swiftward.hasBareBracketFrom_eq, ht.hasBareFrom_eq (by decide), ht.hasBareFrom_eq (by decide)]
  rfl

lemma not_space : ∀ b ∈ t, isSpace b = false := fun b hb => isSpace_of_isInert (ht.inert b hb)

/-- No keyword begins or ends in the stretch. -/
lemma cutAtKeywords_append (q : Quoting) (more : List (Token β)) :
    cutAtKeywords q (Token.ofText t ++ more) =
      (t ++ (cutAtKeywords (q.run t) more).1, (cutAtKeywords (q.run t) more).2) := by
  obtain ⟨init, b, rfl⟩ := List.eq_nil_or_concat t |>.resolve_left ht.ne_nil
  rw [List.concat_eq_append] at *
  have hword : isWord b = false := ht.last_not_word b (by simp)
  have hcolon : isChar ':' b = false := isChar_of_isInert (ht.inert b (by simp)) (by decide)
  have hbare : hasBareFrom ':' q init = false := by
    have hall := ht.hasBareFrom_eq (c := ':') (by decide) q
    rw [hasBareFrom_append, Bool.or_eq_false_iff] at hall
    exact hall.1
  have htokens : Token.ofText (init ++ [b]) = Token.ofText init ++ [.other b] := by
    rw [Token.ofText_append (.inr (by simpa using hword)), Token.ofText_cons,
      Token.cons_of_not_isWord hword, Token.ofText_nil]
  rw [htokens, List.append_assoc, Swiftward.cutAtKeywords_append
    (fun w hw => Token.isWord_of_mem_ofText hw)
    (hasKeywordFrom_of_colonless _ (by rwa [Token.textOf_ofText])) (by simpa using hcolon),
    Token.textOf_ofText]
  simp [cutAtKeywords]

end ReadsOpaque

/-! ### Spellings -/

/-- Characters stay what they are, and opaque symbols are spelled out. -/
structure IsSpelling (σ : α → List β) : Prop where
  ofChar_eq : ∀ c, σ (Symbol.ofChar c) = [Symbol.ofChar c]
  readsOpaque : ∀ a, Symbol.char? a = none → ReadsOpaque (σ a)

/-- A token spelled out. -/
def Token.spell (σ : α → List β) : Token α → List (Token β)
  | word w => [word w]
  | other a => ofText (σ a)

/-- Keywords with their arguments spelled out. -/
def spellKeywords (σ : α → List β) (keywords : List (Text × List α)) : List (Text × List β) :=
  keywords.map fun (k, argument) => (k, argument.flatMap σ)

/-- A send spelled out. -/
def MessageSend.spell (σ : α → List β) : MessageSend α → MessageSend β
  | unary receiver selector => unary (receiver.flatMap σ) selector
  | keyword receiver first argument more =>
    keyword (receiver.flatMap σ) first (argument.flatMap σ) (spellKeywords σ more)

/-- A pair of brackets spelled out, with the text before it. -/
def BracketPair.spell (σ : α → List β) (pair : BracketPair α) : BracketPair β :=
  ⟨pair.before.flatMap σ, pair.interior.flatMap σ⟩

/-- A cut text spelled out. -/
def Bracketed.spell (σ : α → List β) (cut : Bracketed α) : Bracketed β :=
  ⟨cut.pairs.map (BracketPair.spell σ), cut.tail.flatMap σ⟩

namespace IsSpelling

variable {σ : α → List β} (hσ : IsSpelling σ)

include hσ

lemma flatMap_ofText (t : Text) : (Symbol.ofText t).flatMap σ = Symbol.ofText t := by
  induction t with
  | nil => rfl
  | cons c t ih =>
    rw [Symbol.ofText] at ih
    rw [Symbol.ofText, List.map_cons, List.flatMap_cons, hσ.ofChar_eq, ih]
    rfl

lemma ne_nil (a : α) : σ a ≠ [] := by
  rcases Symbol.eq_ofChar_or a with ⟨c, rfl⟩ | hnone
  · simp [hσ.ofChar_eq]
  · exact (hσ.readsOpaque a hnone).ne_nil

lemma flatMap_eq_nil_iff {s : List α} : s.flatMap σ = [] ↔ s = [] := by
  cases s with
  | nil => simp
  | cons a s => simp [hσ.ne_nil a]

/-! ### Literals and brackets -/

lemma run_symbol {q : Quoting} (hq : q.Quoted) (a : α) : q.run (σ a) = q.step a := by
  rcases Symbol.eq_ofChar_or a with ⟨c, rfl⟩ | hnone
  · simp [hσ.ofChar_eq, Quoting.step]
  · rw [(hσ.readsOpaque a hnone).run_eq hq]
    simp [Quoting.step, hnone]

lemma hasBareBracketFrom_flatMap {q : Quoting} (hq : q.Quoted) (s : List α) :
    hasBareBracketFrom q (s.flatMap σ) = hasBareBracketFrom q s := by
  induction s generalizing q with
  | nil => rfl
  | cons a s ih =>
    rw [List.flatMap_cons, hasBareBracketFrom_append, hσ.run_symbol hq, ih (hq.step a),
      hasBareBracketFrom]
    congr 1
    rcases Symbol.eq_ofChar_or a with ⟨c, rfl⟩ | hnone
    · simp [hσ.ofChar_eq, hasBareBracketFrom, Quoting.bare_ofChar]
    · rw [(hσ.readsOpaque a hnone).hasBareBracketFrom_eq]
      simp [Quoting.bare, isChar, Symbol.satisfies_eq_false hnone]

lemma interior?_flatMap {q : Quoting} (hq : q.Quoted) (s : List α) :
    interior? q (s.flatMap σ) =
      (interior? q s).map fun (inside, rest) => (inside.flatMap σ, rest.flatMap σ) := by
  induction s generalizing q with
  | nil => rfl
  | cons a s ih =>
    rw [List.flatMap_cons]
    rcases Symbol.eq_ofChar_or a with ⟨c, rfl⟩ | hnone
    · have hstep : q.step (Symbol.ofChar c : β) = q.step (Symbol.ofChar c : α) := by
        simp [Quoting.step]
      rw [hσ.ofChar_eq, List.singleton_append, interior?, interior?, Quoting.bare_ofChar,
        Quoting.bare_ofChar, Quoting.bare_ofChar, Quoting.bare_ofChar, hstep, ih (hq.step _)]
      split_ifs
      · rfl
      · rfl
      · rw [Option.map_map, Option.map_map]
        simp [Function.comp_def, hσ.ofChar_eq]
    · have hbare (c : Char) : q.bare c a = false := by
        simp [Quoting.bare, isChar, Symbol.satisfies_eq_false hnone]
      rw [interior?_append ((hσ.readsOpaque a hnone).hasBareBracketFrom_eq q), hσ.run_symbol hq,
        ih (hq.step a), interior?, hbare, hbare, Option.map_map]
      simp only [Bool.false_eq_true, if_false, Option.map_map]
      rfl

lemma ofTextFrom_flatMap {q : Quoting} (hq : q.Quoted) (s : List α) :
    Bracketed.ofTextFrom q (s.flatMap σ) = (Bracketed.ofTextFrom q s).spell σ := by
  fun_induction Bracketed.ofTextFrom q s with
  | case1 q =>
    rw [List.flatMap_nil, Bracketed.ofTextFrom]
    rfl
  | case2 q a s inside rest hopened later ih =>
    split_ifs at hopened with ha
    obtain ⟨rfl, rfl⟩ := Quoting.bare_iff.mp ha
    have hopen : Quoting.code.bare '[' (Symbol.ofChar '[' : β) = true := Quoting.bare_iff.mpr ⟨rfl, rfl⟩
    have hinterior := hσ.interior?_flatMap Quoting.quoted_code s
    rw [hopened, Option.map_some] at hinterior
    rw [List.flatMap_cons, hσ.ofChar_eq, List.singleton_append, Bracketed.ofTextFrom]
    split
    · next inside' rest' heq =>
      rw [if_pos hopen, hinterior, Option.some.injEq, Prod.mk.injEq] at heq
      obtain ⟨rfl, rfl⟩ := heq
      rw [ih Quoting.quoted_code]
      rfl
    · next heq => simp [hopen, hinterior] at heq
  | case3 q a s hopened ih =>
    have hprepend : ((Bracketed.ofTextFrom (q.step a) s).spell σ).prepend (σ a) =
        ((Bracketed.ofTextFrom (q.step a) s).cons a).spell σ := by
      obtain ⟨_ | ⟨pair, pairs⟩, tail⟩ := Bracketed.ofTextFrom (q.step a) s <;> rfl
    rw [← hprepend, ← ih (hq.step a), List.flatMap_cons]
    rcases Symbol.eq_ofChar_or a with ⟨c, rfl⟩ | hnone
    · have hstep : q.step (Symbol.ofChar c : β) = q.step (Symbol.ofChar c : α) := by
        simp [Quoting.step]
      rw [hσ.ofChar_eq, List.singleton_append, Bracketed.ofTextFrom_cons, hstep]
      intro ha
      rw [Quoting.bare_ofChar] at ha
      rw [hσ.interior?_flatMap hq, show interior? q s = none by
        simpa [Quoting.bare_ofChar, ha] using hopened]
      rfl
    · rw [Bracketed.ofTextFrom_append ((hσ.readsOpaque a hnone).hasBareBracketFrom_eq q),
        hσ.run_symbol hq]

/-- The innermost pairs are where they were, however the opaque symbols are spelled. -/
theorem bracketed_flatMap (s : List α) :
    Bracketed.ofText (s.flatMap σ) = (Bracketed.ofText s).spell σ :=
  hσ.ofTextFrom_flatMap Quoting.quoted_code s

/-! ### White space -/

lemma isSpace_of_mem {a : α} {b : β} (hb : b ∈ σ a) : isSpace b = isSpace a := by
  rcases Symbol.eq_ofChar_or a with ⟨c, rfl⟩ | hnone
  · rw [hσ.ofChar_eq, List.mem_singleton] at hb
    simp [hb, isSpace]
  · rw [(hσ.readsOpaque a hnone).not_space b hb, isSpace, Symbol.satisfies_eq_false hnone]

lemma takeWhile_flatMap {p : α → Bool} {p' : β → Bool} (h : ∀ a, ∀ b ∈ σ a, p' b = p a)
    (s : List α) : (s.flatMap σ).takeWhile p' = (s.takeWhile p).flatMap σ := by
  induction s with
  | nil => rfl
  | cons a s ih =>
    rw [List.flatMap_cons]
    cases ha : p a with
    | true =>
      have hall : ∀ b ∈ σ a, p' b = true := fun b hb => (h a b hb).trans ha
      rw [List.takeWhile_append_of_pos hall, ih, List.takeWhile_cons_of_pos ha, List.flatMap_cons]
    | false =>
      obtain ⟨b, t, hspelled⟩ := List.exists_cons_of_ne_nil (hσ.ne_nil a)
      have hb : p' b = false := (h a b (by simp [hspelled])).trans ha
      rw [hspelled, List.cons_append, List.takeWhile_cons_of_neg (by simp [hb]),
        List.takeWhile_cons_of_neg (by simp [ha]), List.flatMap_nil]

lemma dropWhile_flatMap {p : α → Bool} {p' : β → Bool} (h : ∀ a, ∀ b ∈ σ a, p' b = p a)
    (s : List α) : (s.flatMap σ).dropWhile p' = (s.dropWhile p).flatMap σ := by
  have hsplit : (s.takeWhile p).flatMap σ ++ (s.dropWhile p).flatMap σ = s.flatMap σ := by
    rw [← List.flatMap_append, List.takeWhile_append_dropWhile]
  have hsplit' := List.takeWhile_append_dropWhile (p := p') (l := s.flatMap σ)
  rw [hσ.takeWhile_flatMap h] at hsplit'
  exact List.append_cancel_left (hsplit'.trans hsplit.symm)

lemma trimStart_flatMap (s : List α) : trimStart (s.flatMap σ) = (trimStart s).flatMap σ :=
  hσ.dropWhile_flatMap (fun _ _ hb => hσ.isSpace_of_mem hb) s

lemma trimEnd_flatMap (s : List α) : trimEnd (s.flatMap σ) = (trimEnd s).flatMap σ := by
  induction s with
  | nil => rfl
  | cons a s ih =>
    rw [List.flatMap_cons]
    by_cases hnil : trimEnd s = []
    · rw [hnil, List.flatMap_nil] at ih
      rw [trimEnd_append_spaces _ (isSpace_of_trimEnd_eq_nil ih), trimEnd, hnil]
      cases ha : isSpace a with
      | true =>
        have hspaces : ∀ b ∈ σ a, isSpace b = true := fun b hb => (hσ.isSpace_of_mem hb).trans ha
        rw [trimEnd_spaces hspaces]
        rfl
      | false =>
        have hnone : ∀ b ∈ σ a, isSpace b = false := fun b hb => (hσ.isSpace_of_mem hb).trans ha
        rw [(Trimmed.of_forall hnone).trimEnd]
        simp
    · have hne : trimEnd (s.flatMap σ) ≠ [] := by rwa [ih, ne_eq, hσ.flatMap_eq_nil_iff]
      rw [trimEnd_append_of_ne_nil hne, ih, trimEnd_cons_of_ne_nil hnil, List.flatMap_cons]

lemma trim_flatMap (s : List α) : trim (s.flatMap σ) = (trim s).flatMap σ := by
  rw [trim, trim, hσ.trimStart_flatMap, hσ.trimEnd_flatMap]

/-! ### Words and keywords -/

lemma head_not_word {a : α} (ha : isWord a = false) : ∀ b ∈ (σ a).head?, isWord b = false := by
  rcases Symbol.eq_ofChar_or a with ⟨c, rfl⟩ | hnone
  · simpa [hσ.ofChar_eq, isWord] using ha
  · exact (hσ.readsOpaque a hnone).head_not_word

lemma last_not_word {a : α} (ha : isWord a = false) : ∀ b ∈ (σ a).getLast?, isWord b = false := by
  rcases Symbol.eq_ofChar_or a with ⟨c, rfl⟩ | hnone
  · simpa [hσ.ofChar_eq, isWord] using ha
  · exact (hσ.readsOpaque a hnone).last_not_word

lemma word?_flatMap (s : List α) : word? (s.flatMap σ) = word? s := by
  by_cases hword : ∃ a ∈ s, isWord a = false
  · obtain ⟨a, ha, hnot⟩ := hword
    obtain ⟨b, t, hspelled⟩ := List.exists_cons_of_ne_nil (hσ.ne_nil a)
    have hb : b ∈ s.flatMap σ := List.mem_flatMap.mpr ⟨a, ha, by simp [hspelled]⟩
    rw [word?_eq_none hb (hσ.head_not_word hnot b (by simp [hspelled])), word?_eq_none ha hnot]
  · obtain ⟨w, rfl, hw⟩ := exists_word_of_forall (s := s) (by simpa using hword)
    rw [hσ.flatMap_ofText]
    by_cases hnil : w = []
    · rw [hnil]
      rfl
    · rw [word?_word hnil hw, word?_word hnil hw]

lemma head_not_bare {q : Quoting} {a : α} (ha : q.bare ':' a = false) :
    ∀ b ∈ (σ a).head?, q.bare ':' b = false := by
  rcases Symbol.eq_ofChar_or a with ⟨c, rfl⟩ | hnone
  · simpa [hσ.ofChar_eq, Quoting.bare_ofChar] using ha
  · intro b hb
    have hinert := (hσ.readsOpaque a hnone).inert b (List.mem_of_mem_head? hb)
    rw [Quoting.bare, isChar_of_isInert hinert (by decide), Bool.and_false]

lemma cutAtKeywords_symbol {q : Quoting} (hq : q.Quoted) {a : α} (ha : isWord a = false)
    (more : List (Token β)) :
    cutAtKeywords q (Token.ofText (σ a) ++ more) =
      (σ a ++ (cutAtKeywords (q.step a) more).1, (cutAtKeywords (q.step a) more).2) := by
  rcases Symbol.eq_ofChar_or a with ⟨c, rfl⟩ | hnone
  · have hword : isWord (Symbol.ofChar c : β) = false := by simpa [isWord] using ha
    have hstep : q.step (Symbol.ofChar c : β) = q.step (Symbol.ofChar c : α) := by
      simp [Quoting.step]
    rw [hσ.ofChar_eq, Token.ofText_cons, Token.cons_of_not_isWord hword, List.singleton_append,
      ← hstep]
    rfl
  · rw [(hσ.readsOpaque a hnone).cutAtKeywords_append, hσ.run_symbol hq]

lemma tokens_flatMap (s : List α) :
    Token.ofText (s.flatMap σ) = (Token.ofText s).flatMap (Token.spell σ) := by
  induction s with
  | nil => rfl
  | cons a s ih =>
    rw [List.flatMap_cons, Token.ofText_cons]
    cases ha : isWord a with
    | false =>
      rw [Token.ofText_append (.inl (hσ.last_not_word ha)), ih, Token.cons_of_not_isWord ha]
      rfl
    | true =>
      obtain ⟨c, rfl⟩ := exists_ofChar_of_isWord ha
      have hc : Unicode.isWord c = true := by simpa [isWord] using ha
      rw [hσ.ofChar_eq, List.singleton_append, Token.ofText_cons, ih]
      rcases htokens : Token.ofText s with _ | ⟨w | b, rest⟩
      · rw [List.flatMap_nil, Token.cons_word hc (by simp), Token.cons_word hc (by simp)]
        rfl
      · simp [Token.cons, Token.spell, hc]
      · have hb : isWord b = false := Token.isWord_of_other_mem (s := s) (by simp [htokens])
        obtain ⟨b', t, hspelled⟩ := List.exists_cons_of_ne_nil (hσ.ne_nil b)
        have hb' : isWord b' = false := hσ.head_not_word hb b' (by simp [hspelled])
        have hhead (w : Text) :
            ((Token.other b :: rest).flatMap (Token.spell σ)).head? ≠ some (.word w) := by
          simp [Token.spell, hspelled, Token.ofText_cons, Token.cons_of_not_isWord hb']
        rw [Token.cons_word hc hhead, Token.cons_word hc (by simp)]
        rfl

lemma cutAtKeywords_spell {q : Quoting} (hq : q.Quoted) {tokens : List (Token α)}
    (hothers : ∀ a, .other a ∈ tokens → isWord a = false) :
    cutAtKeywords q (tokens.flatMap (Token.spell σ)) =
      ((cutAtKeywords q tokens).1.flatMap σ, spellKeywords σ (cutAtKeywords q tokens).2) := by
  fun_induction cutAtKeywords q tokens with
  | case1 q => rfl
  | case2 q a rest lead keywords heq ih =>
    have ih := ih (hq.step a) fun b hb => hothers b (List.mem_cons_of_mem _ hb)
    rw [heq] at ih
    rw [List.flatMap_cons, Token.spell, hσ.cutAtKeywords_symbol hq (hothers a (by simp)), ih]
    rfl
  | case3 q w a rest lead keywords heq hcolon ih =>
    obtain ⟨rfl, rfl⟩ := Quoting.bare_iff.mp hcolon
    have hquoted : (Quoting.code.run w).Quoted := Quoting.quoted_code.run w
    have ih := ih (hquoted.step _) fun b hb => hothers b (by simp [hb])
    have hword : isWord (Symbol.ofChar ':' : β) = false := by
      rw [isWord_ofChar]
      decide
    have hcolon' : Quoting.code.bare ':' (Symbol.ofChar ':' : β) = true :=
      Quoting.bare_iff.mpr ⟨rfl, rfl⟩
    have hstep : (Quoting.code.run w).step (Symbol.ofChar ':' : β) =
        (Quoting.code.run w).step (Symbol.ofChar ':' : α) := by
      simp [Quoting.step]
    rw [heq] at ih
    rw [List.flatMap_cons, List.flatMap_cons, Token.spell, Token.spell, hσ.ofChar_eq,
      Token.ofText_cons, Token.cons_of_not_isWord hword, List.singleton_append, Token.ofText_nil,
      List.singleton_append, cutAtKeywords, hstep, ih]
    simp [hcolon', spellKeywords]
  | case4 q w a rest lead keywords heq hcolon ih =>
    have hquoted : (q.run w).Quoted := hq.run w
    have ih := ih (hquoted.step a) fun b hb => hothers b (by simp [hb])
    rw [heq] at ih
    have ha : isWord a = false := hothers a (by simp)
    have hhead : ∀ b, ((Token.other a :: rest).flatMap (Token.spell σ)).head? = some (.other b) →
        q.bare ':' b = false := by
      obtain ⟨b', t, hspelled⟩ := List.exists_cons_of_ne_nil (hσ.ne_nil a)
      have hword : isWord b' = false := hσ.head_not_word ha b' (by simp [hspelled])
      have hbare : q.bare ':' b' = false :=
        hσ.head_not_bare (by simpa using hcolon) b' (by simp [hspelled])
      simpa [Token.spell, hspelled, Token.ofText_cons, Token.cons_of_not_isWord hword] using hbare
    rw [List.flatMap_cons, Token.spell, List.singleton_append, cutAtKeywords_word w hhead,
      List.flatMap_cons, Token.spell, hσ.cutAtKeywords_symbol hquoted ha, ih]
    simp [hσ.flatMap_ofText]
  | case5 q w rest hother lead keywords heq ih =>
    have ih := ih (hq.run w) fun b hb => hothers b (List.mem_cons_of_mem _ hb)
    rw [heq] at ih
    have hhead : ∀ b, (rest.flatMap (Token.spell σ)).head? = some (.other b) →
        q.bare ':' b = false := by
      rcases rest with _ | ⟨v | a, rest⟩
      · simp
      · simp [Token.spell]
      · exact absurd rfl (hother a rest)
    rw [List.flatMap_cons, Token.spell, List.singleton_append, cutAtKeywords_word w hhead, ih]
    simp [hσ.flatMap_ofText]

lemma cutAtKeywords_flatMap (s : List α) :
    cutAtKeywords .code (Token.ofText (s.flatMap σ)) =
      ((cutAtKeywords .code (Token.ofText s)).1.flatMap σ,
        spellKeywords σ (cutAtKeywords .code (Token.ofText s)).2) := by
  rw [hσ.tokens_flatMap]
  exact hσ.cutAtKeywords_spell Quoting.quoted_code
    fun _ ha => Token.isWord_of_other_mem ha

/-! ### Sends -/

lemma isChar_last {c : Char} (hc : c ∈ delimiters) {a : α} {b : β}
    (hb : b ∈ (σ a).getLast?) : isChar c b = isChar c a := by
  rcases Symbol.eq_ofChar_or a with ⟨d, rfl⟩ | hnone
  · obtain rfl : Symbol.ofChar d = b := by simpa [hσ.ofChar_eq] using hb
    simp [isChar]
  · have hinert := (hσ.readsOpaque a hnone).inert b (List.mem_of_mem_getLast? hb)
    rw [isChar_of_isInert hinert hc, isChar, Symbol.satisfies_eq_false hnone]

lemma unary?_flatMap (s : List α) :
    MessageSend.unary? (s.flatMap σ) = (MessageSend.unary? s).map (MessageSend.spell σ) := by
  have hspace : ∀ a, ∀ b ∈ σ a, (!isSpace b) = !isSpace a := by
    intro a b hb
    rw [hσ.isSpace_of_mem hb]
  unfold MessageSend.unary?
  dsimp only
  rw [hσ.takeWhile_flatMap hspace, hσ.dropWhile_flatMap hspace, hσ.trimStart_flatMap,
    hσ.word?_flatMap]
  generalize s.takeWhile (!isSpace ·) = receiver
  rcases List.eq_nil_or_concat receiver with rfl | ⟨init, a, rfl⟩
  · rfl
  · obtain ⟨t, b, hspelled⟩ := List.eq_nil_or_concat (σ a) |>.resolve_left (hσ.ne_nil a)
    have hb : b ∈ (σ a).getLast? := by simp [hspelled]
    have hlast : ((init.concat a).flatMap σ).getLast? = some b := by simp [hspelled]
    rw [hlast, List.concat_eq_append, List.getLast?_concat]
    cases word? (trimStart (s.dropWhile (!isSpace ·))) with
    | none => rfl
    | some selector =>
      dsimp only
      rw [hσ.isChar_last (by decide) hb, hσ.isChar_last (by decide) hb]
      split_ifs <;> rfl

lemma keyword?_flatMap (s : List α) :
    MessageSend.keyword? (s.flatMap σ) = (MessageSend.keyword? s).map (MessageSend.spell σ) := by
  unfold MessageSend.keyword?
  rw [hσ.cutAtKeywords_flatMap, hasBareBracket,
    hσ.hasBareBracketFrom_flatMap Quoting.quoted_code, ← hasBareBracket]
  generalize cutAtKeywords .code (Token.ofText s) = cut
  obtain ⟨lead, keywords⟩ := cut
  have harguments : (spellKeywords σ keywords).map (fun (k, argument) => (k, trim argument)) =
      spellKeywords σ (keywords.map fun (k, argument) => (k, trim argument)) := by
    simp [spellKeywords, hσ.trim_flatMap]
  dsimp only
  rw [hσ.trim_flatMap, harguments]
  generalize trim lead = receiver, keywords.map (fun (k, argument) => (k, trim argument)) = arguments
  have hcons (a : α) (t : List α) : ∃ b u, (a :: t).flatMap σ = b :: u :=
    List.exists_cons_of_ne_nil (by simp [hσ.ne_nil])
  rcases receiver with _ | ⟨a, receiver⟩
  · rfl
  · obtain ⟨b, u, hreceiver⟩ := hcons a receiver
    rw [hreceiver]
    rcases arguments with _ | ⟨⟨first, _ | ⟨a', argument⟩⟩, _ | ⟨second, more⟩⟩
    · rfl
    · rfl
    · simp only [spellKeywords, List.map_cons]
      split_ifs
      · rfl
      · simp [MessageSend.spell, spellKeywords, ← hreceiver]
    · obtain ⟨b', u', hargument⟩ := hcons a' argument
      simp only [spellKeywords, List.map_cons, List.map_nil, hargument]
      split_ifs
      · rfl
      · simp only [Option.map_some, MessageSend.spell, hreceiver, hargument, spellKeywords,
          List.map_nil]
    · simp only [spellKeywords, List.map_cons]
      split_ifs
      · rfl
      · simp only [Option.map_some, MessageSend.spell, hreceiver, spellKeywords, List.map_cons]

lemma flatMap_labelled (more : List (Text × List α)) :
    (spellKeywords σ more).flatMap MessageSend.labelled =
      (more.flatMap MessageSend.labelled).flatMap σ := by
  induction more with
  | nil => rfl
  | cons k more ih =>
    rw [spellKeywords] at ih
    simp [spellKeywords, MessageSend.labelled, hσ.flatMap_ofText, ih]

lemma render_flatMap (send : MessageSend α) : (send.spell σ).render = send.render.flatMap σ := by
  cases send with
  | unary receiver selector =>
    rw [MessageSend.spell, MessageSend.render, MessageSend.render]
    split_ifs <;> simp [hσ.flatMap_ofText]
  | keyword receiver first argument more =>
    simp [MessageSend.spell, MessageSend.render, hσ.flatMap_ofText, hσ.flatMap_labelled]

/-- A send is resolved to the same call, however the opaque symbols in it are spelled. -/
theorem resolveSend_flatMap (s : List α) :
    resolveSend (s.flatMap σ) = (resolveSend s).map (List.flatMap σ) := by
  have hparse : MessageSend.parse? (s.flatMap σ) =
      (MessageSend.parse? s).map (MessageSend.spell σ) := by
    rw [MessageSend.parse?, MessageSend.parse?, hσ.trim_flatMap, hσ.unary?_flatMap,
      hσ.keyword?_flatMap]
    cases MessageSend.unary? (trim s) <;> rfl
  rw [resolveSend, resolveSend, hparse, Option.map_map, Option.map_map]
  congr 1
  funext send
  exact hσ.render_flatMap send

end IsSpelling

end Swiftward
