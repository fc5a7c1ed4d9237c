import Swiftward.Proofs.MessageSend.Paren
import Swiftward.Proofs.Statement.Rewording

/-!
# Headers whose condition has sends

Nothing before the condition of an `if` is changed when the sends of the line are converted, the
parenthesis behind the condition still closes the one before it, and what follows stays blank if it
is. So a header whose body follows on later lines remains one
(`Conditional.exists_parse?_collapseSends`).
-/

namespace Swiftward

variable {s u front : Text} {c d : Char}

/-! ### Reading up to a sign -/

lemma trimStart_append_cons (hc : isSpace c = false) (u s : Text) :
    trimStart (u ++ c :: s) = trimStart u ++ c :: s := by
  induction u with
  | nil => exact trimStart_cons hc s
  | cons d u ih =>
    by_cases hd : isSpace d = true
    · rw [List.cons_append, trimStart_cons_space hd, trimStart_cons_space hd, ih]
    · rw [Bool.not_eq_true] at hd
      rw [List.cons_append, trimStart_cons hd, trimStart_cons hd, List.cons_append]

lemma strip?_append_cons {lead : Text} (hc : c ∉ lead) (u s : Text) :
    strip? lead (u ++ c :: s) = (strip? lead u).map (· ++ c :: s) := by
  induction lead generalizing u with
  | nil => rfl
  | cons d lead ih =>
    obtain ⟨hne, hlead⟩ : c ≠ d ∧ c ∉ lead := by simpa using hc
    cases u with
    | nil => exact if_neg hne.symm
    | cons e u =>
      rw [List.cons_append, strip?, strip?]
      split_ifs
      · exact ih hlead u
      · rfl

lemma after?_append_cons {lead : String} (hc : c ∉ lead.toList) (u s : Text) :
    after? lead (u ++ c :: s) = (after? lead u).map (· ++ c :: s) :=
  strip?_append_cons hc u s

lemma afterSpace?_append_cons (hc : isSpace c = false) (u s : Text) :
    afterSpace? (u ++ c :: s) = (afterSpace? u).map (· ++ c :: s) := by
  cases u with
  | nil => simp [afterSpace?, hc]
  | cons d u =>
    rw [List.cons_append, afterSpace?, afterSpace?]
    split_ifs
    · rw [trimStart_append_cons hc, Option.map_some]
    · rfl

namespace Conditional

lemma skipClosingBrace_append_paren (u s : Text) :
    skipClosingBrace (u ++ '(' :: s) = skipClosingBrace u ++ '(' :: s := by
  rw [skipClosingBrace, skipClosingBrace, after?_append_cons (by decide)]
  cases after? "\x7d" u <;> rfl

lemma afterIf?_append_paren (u s : Text) :
    afterIf? (u ++ '(' :: s) = (afterIf? u).map (· ++ '(' :: s) := by
  have helse (text : Text) : (after? "else" (text ++ '(' :: s)).bind afterSpace? =
      ((after? "else" text).bind afterSpace?).map (· ++ '(' :: s) := by
    rw [after?_append_cons (by decide)]
    cases after? "else" text with
    | none => rfl
    | some rest => exact afterSpace?_append_cons (by decide) rest s
  unfold afterIf?
  rw [skipClosingBrace_append_paren, trimStart_append_cons (by decide)]
  dsimp only
  rw [helse]
  generalize trimStart (skipClosingBrace u) = text
  cases (after? "else" text).bind afterSpace? with
  | none => exact after?_append_cons (by decide) text s
  | some rest => exact after?_append_cons (by decide) rest s

/-- The text is the start of an `if` up to the parenthesis before the condition. -/
def IsIfLead (front : Text) : Prop :=
  ∃ gap, afterIf? (trimStart front) = some gap ∧ trimStart gap = []

/-- The condition of an `if` is looked for at the first parenthesis. -/
lemma fromParen?_eq_some_iff {line rest : Text} :
    fromParen? line = some rest ↔
      ∃ front s, IsIfLead front ∧ line = front ++ '(' :: s ∧ rest = '(' :: s := by
  constructor
  · intro h
    obtain ⟨front, -, hline⟩ := (Skips.trimStart line).trans (skips_fromParen? h)
    obtain ⟨text, hif, hparen⟩ := Option.bind_eq_some_iff.mp h
    split at hparen
    · next s htext =>
      obtain rfl := Option.some.inj hparen
      refine ⟨front, s, ?_, hline, rfl⟩
      rw [hline, trimStart_append_cons (by decide), afterIf?_append_paren] at hif
      obtain ⟨gap, hgap, rfl⟩ := Option.map_eq_some_iff.mp hif
      rw [trimStart_append_cons (by decide)] at htext
      exact ⟨gap, hgap, by simpa using htext⟩
    · cases hparen
  · rintro ⟨front, s, ⟨gap, hgap, hnil⟩, rfl, rfl⟩
    have hif : afterIf? (trimStart (front ++ '(' :: s)) = some (gap ++ '(' :: s) := by
      rw [trimStart_append_cons (by decide), afterIf?_append_paren, hgap, Option.map_some]
    have hparen : trimStart (gap ++ '(' :: s) = '(' :: s := by
      rw [trimStart_append_cons (by decide), hnil, List.nil_append]
    rw [fromParen?, hif]
    simp [hparen]

/-! ### What is skipped -/

/-- Whether no reader of a header skips the character. -/
def isKept (c : Char) : Bool := !isSpace c && !"\x7delsif".toList.contains c

variable {t : Text}

lemma notMem_of_isKept {word : Text} (hd : isKept d = true) (hword : word.any isKept = false) :
    d ∉ word :=
  fun hmem => List.any_eq_false.mp hword d hmem hd

lemma isSpace_of_isKept (hd : isKept d = true) : isSpace d = false := by
  simp only [isKept, Bool.and_eq_true, Bool.not_eq_true'] at hd
  exact hd.1

lemma mem_after? {lead : String} (hd : isKept d = true)
    (hlead : lead.toList.any isKept = false) (h : after? lead s = some t) (hmem : d ∈ s) :
    d ∈ t := by
  rw [after?_eq_some_iff.mp h] at hmem
  exact (List.mem_append.mp hmem).resolve_left (notMem_of_isKept hd hlead)

lemma mem_trimStart (hd : isKept d = true) (hmem : d ∈ s) : d ∈ trimStart s :=
  mem_dropWhile_of_not hmem (isSpace_of_isKept hd)

lemma mem_skipClosingBrace (hd : isKept d = true) (hmem : d ∈ s) : d ∈ skipClosingBrace s := by
  unfold skipClosingBrace
  cases h : after? "\x7d" s with
  | none => exact hmem
  | some rest => exact mem_after? hd (by decide) h hmem

lemma mem_afterIf? (hd : isKept d = true) (h : afterIf? s = some t) (hmem : d ∈ s) : d ∈ t := by
  have hstart := mem_trimStart hd (mem_skipClosingBrace hd hmem)
  refine mem_after? hd (by decide) h ?_
  cases helse : (after? "else" (trimStart (skipClosingBrace s))).bind afterSpace? with
  | none => exact hstart
  | some rest =>
    obtain ⟨behind, hword, hspace⟩ := Option.bind_eq_some_iff.mp helse
    have hbehind := mem_after? hd (by decide) hword hstart
    cases behind with
    | nil => cases hspace
    | cons e behind =>
      rw [afterSpace?] at hspace
      split_ifs at hspace with he
      obtain rfl := Option.some.inj hspace
      refine mem_trimStart hd ((List.mem_cons.mp hbehind).resolve_left ?_)
      rintro rfl
      rw [isSpace_of_isKept hd] at he
      cases he

lemma mem_afterElse? (hd : isKept d = true) (h : afterElse? s = some t) (hmem : d ∈ s) : d ∈ t := by
  simp only [afterElse?, Option.bind_eq_bind, Option.bind_eq_some_iff] at h
  obtain ⟨behind, hword, hends⟩ := h
  split_ifs at hends
  obtain rfl := Option.some.inj hends
  exact mem_after? hd (by decide) hword (mem_trimStart hd (mem_skipClosingBrace hd hmem))

/-- There is neither a quote nor a bracket before the condition. -/
lemma IsIfLead.plain (h : IsIfLead front) : Plain front := by
  obtain ⟨gap, hgap, hblank⟩ := h
  have hnot {d : Char} (hd : isKept d = true) : ∀ c ∈ front, isChar d c = false := by
    intro c hc
    by_contra hne
    obtain rfl : c = d := by simpa using hne
    have hmem := mem_trimStart hd (mem_afterIf? hd hgap (mem_trimStart hd hc))
    rw [hblank] at hmem
    cases hmem
  refine .of_forall fun c hc => ⟨?_, hnot (by decide) c hc, hnot (by decide) c hc⟩
  rw [isUnquoted, hnot (by decide) c hc, hnot (by decide) c hc]
  rfl

/-! ### Headers whose body follows -/

/-- Where the body follows on later lines, nothing but white space stands behind the condition. -/
lemma isSpace_of_follows (h : ConditionalBody.ofText s = .follows) : ∀ c ∈ s, isSpace c = true := by
  unfold ConditionalBody.ofText at h
  split at h
  · next hnil =>
    obtain ⟨u, v, hu, hv, heq⟩ := exists_trim s
    rw [hnil, List.append_nil, ← Symbol.ofText_append, Symbol.ofText_char] at heq
    rw [heq]
    exact List.forall_mem_append.mpr ⟨hu, hv⟩
  · cases h
  · cases h

/-- A header with a condition is what stands before it, the condition and what follows. -/
lemma exists_of_parse? {line rest : Text} {c : Conditional} (h : parse? line = some c)
    (hparen : fromParen? line = some rest) :
    ∃ front inside behind, IsIfLead front ∧ line = front ++ '(' :: inside ++ ')' :: behind ∧
      Closed inside ∧ nesting? .code 0 inside = some 0 ∧ c.body = .ofText behind := by
  obtain ⟨front, s, hfront, rfl, rfl⟩ := fromParen?_eq_some_iff.mp hparen
  have hbefore : before (front ++ '(' :: s) ('(' :: s) = front := by simp [before]
  rw [parse?, hparen] at h
  obtain ⟨⟨inside, behind⟩, hcut, rfl⟩ := Option.map_eq_some_iff.mp h
  rw [hbefore] at hcut
  obtain ⟨hrest, hclosed, hnest⟩ := (parenthesized?_eq_some_iff hfront.plain.closed).mp hcut
  refine ⟨front, inside, behind, hfront, ?_, hclosed, hnest, rfl⟩
  rw [hrest, List.cons_append, List.append_assoc, List.cons_append]

/-- What a header with a condition is read as. -/
lemma parse?_condition (hfront : IsIfLead front) {inside : Text} (hclosed : Closed inside)
    (hnest : nesting? .code 0 inside = some 0) (behind : Text) :
    parse? (front ++ '(' :: inside ++ ')' :: behind) =
      some ⟨front.takeWhile isSpace, trimEnd (trimStart front), some (trim inside), .ofText behind⟩ := by
  have hline : front ++ '(' :: inside ++ ')' :: behind = front ++ '(' :: (inside ++ ')' :: behind) :=
    List.append_assoc ..
  have hparen := fromParen?_eq_some_iff.mpr ⟨front, inside ++ ')' :: behind, hfront, rfl, rfl⟩
  have hbefore : before (front ++ '(' :: (inside ++ ')' :: behind))
      ('(' :: (inside ++ ')' :: behind)) = front := by simp [before]
  have hkeyword : keywordBefore (front ++ '(' :: (inside ++ ')' :: behind))
      ('(' :: (inside ++ ')' :: behind)) = trimStart front := by
    rw [keywordBefore, trimStart_append_cons (by decide)]
    simp [before]
  have hcut : parenthesized? front ('(' :: (inside ++ ')' :: behind)) = some (inside, behind) :=
    (parenthesized?_eq_some_iff hfront.plain.closed).mpr ⟨rfl, hclosed, hnest⟩
  have hindent : (front ++ '(' :: (inside ++ ')' :: behind)).takeWhile isSpace =
      front.takeWhile isSpace := by
    apply takeWhile_append_of_stop
    right
    rintro c ⟨⟩
    decide
  rw [hline, parse?, hparen]
  dsimp only
  rw [hbefore, hcut, hkeyword, hindent, Option.map_some]

/-- A header whose body follows on later lines remains one when its sends are converted. -/
theorem exists_parse?_collapseSends {line : Text} {c : Conditional} (h : parse? line = some c)
    (hbody : c.body = .follows) :
    ∃ c', parse? (collapseSends line) = some c' ∧ c'.body = .follows := by
  cases hparen : fromParen? line with
  | none =>
    -- The header is `else` with white space around it, and perhaps a brace.
    have hbracket : '[' ∉ line := by
      intro hmem
      rw [parse?, hparen] at h
      obtain ⟨rest, helse, hrest⟩ := Option.bind_eq_some_iff.mp h
      split_ifs at hrest
      obtain rfl := Option.some.inj hrest
      have hkept : isKept '[' = true := by decide
      have hbehind := mem_afterElse? hkept helse (mem_trimStart hkept hmem)
      exact absurd (isSpace_of_follows hbody '[' hbehind) (by decide)
    rw [collapseSends, if_pos (.inl hbracket)]
    exact ⟨c, h, hbody⟩
  | some rest =>
    obtain ⟨front, inside, behind, hfront, rfl, hclosed, hnest, hbehind⟩ := exists_of_parse? h hparen
    by_cases hmark : Cell.markOpen ∈ front ++ '(' :: inside ++ ')' :: behind
    · rw [collapseSends, if_pos (.inr hmark)]
      exact ⟨c, h, hbody⟩
    · -- Brackets can only stand inside the parentheses.
      rw [hbody] at hbehind
      have hlead : Plain (front ++ ['(']) := hfront.plain.append (by decide)
      have hblank : Plain behind := plain_space (isSpace_of_follows hbehind.symm)
      have hclose : Plain [')'] := by decide
      have hbare : hasBareBracket (')' :: behind) = false := (hclose.append hblank).bracketless
      have hline : front ++ '(' :: inside ++ ')' :: behind =
          front ++ ['('] ++ inside ++ ')' :: behind := by simp
      rw [hline] at hmark
      have hcollapse := collapseSends_between hlead (by simp) hclosed hbare hmark
      rw [hline, hcollapse]
      have hnest' := keepsNesting_collapseSends inside 0 0 hnest
      have hparse := parse?_condition hfront hclosed.collapseSends hnest' behind
      refine ⟨_, Eq.trans ?_ hparse, hbehind.symm⟩
      simp

end Conditional

end Swiftward
