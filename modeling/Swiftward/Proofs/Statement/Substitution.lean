import Swiftward.Proofs.Text.Rewording
import Swiftward.Proofs.Text.Token
import Swiftward.Statement.Substitution

/-!
# Substitutions and literals

The word substitutions apply to a whole line, and so also inside its literals, each of which they
rewrite on its own (`actsBetweenQuotes_substituteWords`). Markers go from in front of literals, and
the semicolon at the end of a line stands in code. So the literals of a line after all
substitutions are those of the line, each with its words substituted (`literalTexts_substitute`),
unless a literal is broken by that or has a marker at its own end.
-/

namespace Swiftward

/-! ### Words -/

/-- The word substitutions alone. -/
def substituteWords (s : Text) : Text :=
  let s := dropBlock s
  let s := replaceWords ["NO"] "false" s
  let s := replaceWords ["YES"] "true" s
  let s := replaceWords ["NSLog"] "println" s
  replaceWords ["NSAssert", "NSCAssert", "NSParameterAssert"] "assert" s

lemma substitute_eq (s : Text) :
    substitute s = substituteWords (dropSemicolon (stripMarkers s)) := rfl

lemma isWord_of_quote {mark : Char} (h : isUnquoted mark = false) : Unicode.isWord mark = false := by
  cases hword : Unicode.isWord mark with
  | false => rfl
  | true =>
    rw [isUnquoted_of_isWord hword] at h
    exact absurd h (by decide)

lemma isSpace_of_quote {mark : Char} (h : isUnquoted mark = false) : isSpace mark = false := by
  cases hspace : isSpace mark with
  | false => rfl
  | true =>
    rw [isUnquoted_of_isSpace hspace] at h
    exact absurd h (by decide)

lemma dropBlock_cons {c : Char} (hc : isWord c = false) (s : Text) :
    dropBlock (c :: s) = c :: dropBlock s := by
  rw [dropBlock, ofText_sign hc, dropBlockTokens, if_neg (by simp)]
  rfl

lemma replaceWords_cons {c : Char} (hc : isWord c = false) (words : List String)
    (replacement : String) (s : Text) :
    replaceWords words replacement (c :: s) = c :: replaceWords words replacement s := by
  rw [replaceWords, ofText_sign hc]
  rfl

lemma substituteWords_cons {c : Char} (hc : isWord c = false) (s : Text) :
    substituteWords (c :: s) = c :: substituteWords s := by
  simp only [substituteWords, dropBlock_cons hc, replaceWords_cons hc]

/-- No word reaches across a quote. -/
lemma ofText_quote (s : Text) {mark : Char} (t : Text) (h : isUnquoted mark = false) :
    Token.ofText (s ++ mark :: t) = Token.ofText s ++ .other mark :: Token.ofText t := by
  have hword : isWord mark = false := isWord_of_quote h
  rw [Token.ofText_append (.inr (by simpa using hword)), ofText_sign hword]

lemma dropBlockTokens_append {c : Char} (hc : isSpace c = false) (dropping : Bool)
    (tokens more : List (Token Char)) :
    dropBlockTokens dropping (tokens ++ .other c :: more) =
      dropBlockTokens dropping tokens ++ .other c :: dropBlockTokens false more := by
  fun_induction dropBlockTokens dropping tokens with
  | case1 dropping => simp [dropBlockTokens, hc]
  | case2 dropping d rest hspace ih =>
    rw [List.cons_append, dropBlockTokens, if_pos hspace, ih]
  | case3 dropping d rest hspace ih =>
    rw [List.cons_append, dropBlockTokens, if_neg hspace, ih, List.cons_append]
  | case4 dropping w rest hblock ih =>
    have hhead : (rest ++ .other c :: more).head? = rest.head? := by
      cases rest with
      | nil => simp at hblock
      | cons => rfl
    rw [List.cons_append, dropBlockTokens, hhead, if_pos hblock, ih]
  | case5 dropping w rest hblock ih =>
    have hkept : ¬ (w = "__block".toList ∧
        (rest ++ .other c :: more).head?.any (fun t => t.toText.any isSpace) = true) := by
      cases rest with
      | nil => simp [Token.toText, hc]
      | cons => exact hblock
    rw [List.cons_append, dropBlockTokens, if_neg hkept, ih, List.cons_append]

lemma sublist_dropBlockTokens (dropping : Bool) (tokens : List (Token Char)) :
    (dropBlockTokens dropping tokens).Sublist tokens := by
  fun_induction dropBlockTokens dropping tokens with
  | case1 => exact .slnil
  | case2 dropping c rest _ ih => exact ih.cons _
  | case3 dropping c rest _ ih => exact ih.cons_cons _
  | case4 dropping w rest _ ih => exact ih.cons _
  | case5 dropping w rest _ ih => exact ih.cons_cons _

/-- What stands in a token stands in the text. -/
lemma toText_subset_of_mem_ofText {s : Text} {t : Token Char} (h : t ∈ Token.ofText s) :
    t.toText ⊆ s := by
  intro c hc
  rw [← Token.textOf_ofText s]
  exact List.mem_flatMap.mpr ⟨t, h, hc⟩

lemma actsBetweenQuotes_dropBlock : ActsBetweenQuotes dropBlock where
  nil := rfl
  unquoted hs c hc := by
    obtain ⟨t, ht, hc⟩ := List.mem_flatMap.mp hc
    exact hs c (toText_subset_of_mem_ofText ((sublist_dropBlockTokens _ _).subset ht) hc)
  quote s mark t hmark := by
    rw [dropBlock, ofText_quote s t hmark, dropBlockTokens_append (isSpace_of_quote hmark)]
    simp [dropBlock, Token.textOf, Token.toText]

lemma actsBetweenQuotes_replaceWords (words : List String) {replacement : String}
    (h : Unquoted replacement.toList) : ActsBetweenQuotes (replaceWords words replacement) where
  nil := rfl
  unquoted hs c hc := by
    obtain ⟨t, ht, hc⟩ := List.mem_flatMap.mp hc
    have hsubset := toText_subset_of_mem_ofText ht
    cases t with
    | word w =>
      simp only at hc
      split at hc
      · exact h c hc
      · exact hs c (hsubset (by simpa [Token.toText] using hc))
    | other d => exact hs c (hsubset hc)
  quote s mark t hmark := by
    rw [replaceWords, ofText_quote s t hmark, List.flatMap_append, List.flatMap_cons]
    rfl

theorem actsBetweenQuotes_substituteWords : ActsBetweenQuotes substituteWords :=
  (((actsBetweenQuotes_replaceWords _ (by decide)).comp
    (actsBetweenQuotes_replaceWords _ (by decide))).comp
      (actsBetweenQuotes_replaceWords _ (by decide))).comp
        ((actsBetweenQuotes_replaceWords _ (by decide)).comp actsBetweenQuotes_dropBlock)

/-! ### Markers -/

lemma getLast?_or_some (s : Text) (c : Char) (previous : Option Char) :
    s.getLast?.or (some c) = (c :: s).getLast?.or previous := by
  rw [List.getLast?_cons]
  cases s.getLast? <;> rfl

lemma stripMarkersAfter_append (previous : Option Char) {s : Text} (hs : s.getLast? ≠ some '@')
    (t : Text) :
    stripMarkersAfter previous (s ++ t) =
      stripMarkersAfter previous s ++ stripMarkersAfter (s.getLast?.or previous) t := by
  induction s generalizing previous with
  | nil => rfl
  | cons c s ih =>
    cases s with
    | nil =>
      have hc : c ≠ '@' := by simpa using hs
      simp [stripMarkersAfter, hc]
    | cons d s =>
      have ih := ih (some c) (by simpa using hs)
      rw [getLast?_or_some _ c previous] at ih
      by_cases hmarker : c = '@' ∧ (d :: s).head? = some '"' ∧ previous ≠ some '%'
      · have hlonger : c = '@' ∧ (d :: s ++ t).head? = some '"' ∧ previous ≠ some '%' := hmarker
        rw [List.cons_append, stripMarkersAfter, if_pos hlonger, ih, stripMarkersAfter.eq_2 _ c,
          if_pos hmarker]
      · have hlonger : ¬ (c = '@' ∧ (d :: s ++ t).head? = some '"' ∧ previous ≠ some '%') := hmarker
        rw [List.cons_append, stripMarkersAfter, if_neg hlonger, ih, stripMarkersAfter.eq_2 _ c,
          if_neg hmarker, List.cons_append]

/-- In front of a text, markers go and other characters stay. -/
lemma exists_stripMarkersAfter (previous : Option Char) (u t : Text) :
    ∃ v : Text, v ⊆ u ∧ stripMarkersAfter previous (u ++ t) =
      v ++ stripMarkersAfter (u.getLast?.or previous) t := by
  induction u generalizing previous with
  | nil => exact ⟨[], by simp, rfl⟩
  | cons c u ih =>
    obtain ⟨v, hv, heq⟩ := ih (some c)
    rw [getLast?_or_some u c previous] at heq
    rw [List.cons_append, stripMarkersAfter, heq]
    split
    · exact ⟨v, List.Subset.trans hv (List.subset_cons_self c u), rfl⟩
    · exact ⟨c :: v, List.cons_subset_cons c hv, rfl⟩

/-- Markers are told by what stands right before them, which is not so for a quote. -/
lemma stripMarkersAfter_quote {mark : Char} (h : isUnquoted mark = false) (previous : Option Char)
    (s : Text) : stripMarkersAfter previous (mark :: s) = stripMarkers (mark :: s) := by
  have hat : mark ≠ '@' := by
    rintro rfl
    exact absurd h (by decide)
  simp [stripMarkers, stripMarkersAfter, hat]

/-- Markers go from in front of literals. -/
lemma literalTexts_stripMarkers {s : Text} (hs : Closed s)
    (hl : ∀ l ∈ literalTexts s, stripMarkers l = l) :
    Closed (stripMarkers s) ∧ literalTexts (stripMarkers s) = literalTexts s := by
  have hdivided := hs.divided
  clear hs
  rw [stripMarkers]
  generalize (none : Option Char) = previous
  induction hdivided generalizing previous with
  | @unquoted u hu =>
    obtain ⟨v, hv, heq⟩ := exists_stripMarkersAfter previous u []
    have hunquoted : Unquoted v := hu.subset hv
    have hnil (p : Option Char) : stripMarkersAfter p [] = [] := rfl
    rw [List.append_nil, hnil, List.append_nil] at heq
    rw [heq]
    exact ⟨hunquoted.closed, by rw [hunquoted.literalTexts_eq, hu.literalTexts_eq]⟩
  | @literal u mark body t hu hmark hliteral _ ih =>
    have htexts : literalTexts (u ++ (mark :: body ++ [mark]) ++ t) =
        (mark :: body ++ [mark]) :: literalTexts t := by
      rw [literalTexts_append (hu.closed.append hliteral.closed), literalTexts_append hu.closed,
        hu.literalTexts_eq, hliteral.literalTexts_eq]
      rfl
    rw [htexts, List.forall_mem_cons] at hl
    obtain ⟨hfirst, hlater⟩ := hl
    have hat : (mark :: body ++ [mark]).getLast? ≠ some '@' := by
      rw [List.getLast?_concat]
      rintro heq
      obtain rfl := Option.some.inj heq
      exact absurd hmark (by decide)
    obtain ⟨v, hv, heq⟩ := exists_stripMarkersAfter previous u (mark :: body ++ [mark] ++ t)
    have hunquoted : Unquoted v := hu.subset hv
    obtain ⟨hclosed, hlits⟩ := ih hlater
      ((mark :: body ++ [mark]).getLast?.or (u.getLast?.or previous))
    rw [List.append_assoc, heq, stripMarkersAfter_append _ hat, List.cons_append,
      stripMarkersAfter_quote hmark, ← List.cons_append, hfirst]
    refine ⟨hunquoted.closed.append (hliteral.closed.append hclosed), ?_⟩
    rw [literalTexts_append hunquoted.closed, literalTexts_append hliteral.closed, hlits,
      hunquoted.literalTexts_eq, hliteral.literalTexts_eq, ← List.append_assoc u, htexts]
    rfl

/-! ### The semicolon -/

/-- The semicolon at the end of a text stands in code. -/
lemma rewords_dropSemicolon {s : Text} (hs : Closed s) : Rewords s (dropSemicolon s) := by
  unfold dropSemicolon before?
  split
  · next hlast =>
    apply Rewords.of_trimEnd
    have htrim := hs.trimEnd
    rcases List.eq_nil_or_concat (trimEnd s) with hnil | ⟨init, c, hconcat⟩
    · simp [hnil] at hlast
    · rw [List.concat_eq_append] at hconcat
      obtain rfl : c = ';' := by simpa [hconcat] using hlast
      rw [hconcat] at htrim ⊢
      have hunquoted : Unquoted [';'] := by decide
      have hinit : Closed init := htrim.of_append_right hunquoted
      have hsemicolon : Rewords [';'] ([] : Text) := .of_texts hunquoted unquoted_nil
      simpa using (Rewords.refl hinit).append hsemicolon
  · exact .refl hs

/-! ### All substitutions -/

/-- The literals of a line after the substitutions are its literals with their words substituted,
if none of them ends in a marker and each of them is still a literal then. -/
theorem literalTexts_substitute {code : Text} (hcode : Closed code)
    (hmarkers : ∀ l ∈ literalTexts code, stripMarkers l = l)
    (hwords : ∀ l ∈ literalTexts code, IsLiteral (substituteWords l)) :
    Closed (substitute code) ∧
      literalTexts (substitute code) = (literalTexts code).map substituteWords := by
  obtain ⟨hstripped, hstrip⟩ := literalTexts_stripMarkers hcode hmarkers
  have hsemicolon := rewords_dropSemicolon hstripped
  have hliterals : literalTexts (dropSemicolon (stripMarkers code)) = literalTexts code :=
    hsemicolon.literalTexts_eq.trans hstrip
  rw [substitute_eq, ← hliterals]
  rw [← hliterals] at hwords
  exact actsBetweenQuotes_substituteWords.literalTexts hsemicolon.closed hwords

end Swiftward
