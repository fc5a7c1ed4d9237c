import Swiftward.Proofs.Conversion.Derivation
import Swiftward.Proofs.Declaration.Spelling
import Swiftward.Proofs.Statement.Indentation
import Swiftward.Proofs.Statement.LineFeed
import Swiftward.Proofs.Statement.OpenHeader

/-!
# Lines that are headers of conditionals

The header of a conditional begins with a closing brace, an `i` or an `e`, which no declaration
begins with. Substitutions cannot bring this about, for they leave a sign at the start of a line
where it is. So a line whose code is such a header after the substitutions is a statement
(`Construct.ofCode_of_parse?`), and no lone brace. Whether a body follows is judged before the sends
of the line are converted, and is right of the header that it becomes (`exists_isConstruct_of_opens`).
-/

namespace Swiftward

/-! ### The first character of a line -/

/-- A character in front that is no white space, belongs to no word and is no semicolon is left in
place. -/
def KeepsSign (g : Text → Text) : Prop :=
  ∀ (c : Char) (s : Text), isWord c = false → isSpace c = false → c ≠ ';' → ∃ t, g (c :: s) = c :: t

lemma KeepsSign.comp {g h : Text → Text} (hg : KeepsSign g) (hh : KeepsSign h) :
    KeepsSign fun s => g (h s) := by
  intro c s hword hspace hsemicolon
  obtain ⟨t, ht⟩ := hh c s hword hspace hsemicolon
  dsimp only
  rw [ht]
  exact hg c t hword hspace hsemicolon

lemma keepsSign_dropSemicolon : KeepsSign dropSemicolon := by
  intro c s _ hspace hsemicolon
  rw [dropSemicolon, trimEnd_cons_of_not_space hspace]
  cases hbefore : before? ';' (c :: trimEnd s) with
  | none => exact ⟨s, rfl⟩
  | some front =>
    have heq := before?_eq_some_iff.mp hbefore
    cases front with
    | nil => exact absurd (List.cons.inj heq).1 hsemicolon
    | cons d front =>
      obtain rfl := (List.cons.inj heq).1
      exact ⟨front, rfl⟩

lemma keepsSign_substituteWords : KeepsSign substituteWords := by
  intro c s hword _ _
  exact ⟨_, substituteWords_cons hword s⟩

/-- Substitutions leave a sign in front in place, unless it marks a string. -/
lemma exists_substitute_sign {c : Char} {s : Text} (hword : isWord c = false)
    (hspace : isSpace c = false) (hsemicolon : c ≠ ';') (hmarker : ¬(c = '@' ∧ s.head? = some '"')) :
    ∃ t, substitute (c :: s) = c :: t := by
  have hstrip : stripMarkers (c :: s) = c :: stripMarkersAfter (some c) s := by
    rw [stripMarkers, stripMarkersAfter, if_neg fun h => hmarker ⟨h.1, h.2.1⟩]
  have hothers := keepsSign_substituteWords.comp keepsSign_dropSemicolon
  rw [substitute_eq, hstrip]
  exact hothers c _ hword hspace hsemicolon

namespace Conditional

variable {line code : Text} {c : Conditional}

/-- The characters that the header of a conditional begins with. -/
def leads : List Char := ['\x7d', 'i', 'e']

lemma head?_of_after? {lead : String} {d : Char} (hlead : lead.toList.head? = some d) {s rest : Text}
    (h : after? lead s = some rest) : s.head? = some d := by
  rw [after?_eq_some_iff.mp h, List.head?_append, hlead]
  rfl

lemma trimStart_skipClosingBrace {s : Text} (hs : s.head? ≠ some '\x7d') :
    trimStart (skipClosingBrace s) = trimStart s := by
  rw [skipClosingBrace, after?_eq_none_of_head rfl hs]
  rfl

lemma head?_of_afterIf? {s rest : Text} (h : afterIf? s = some rest) :
    s.head? = some '\x7d' ∨ ∃ d ∈ ['i', 'e'], (trimStart s).head? = some d := by
  by_cases hbrace : s.head? = some '\x7d'
  · exact .inl hbrace
  · right
    rw [afterIf?, trimStart_skipClosingBrace hbrace] at h
    cases helse : (after? "else" (trimStart s)).bind afterSpace? with
    | some more =>
      obtain ⟨behind, helse, -⟩ := Option.bind_eq_some_iff.mp helse
      exact ⟨'e', by decide, head?_of_after? rfl helse⟩
    | none =>
      rw [helse] at h
      exact ⟨'i', by decide, head?_of_after? rfl h⟩

lemma head?_of_afterElse? {s rest : Text} (h : afterElse? s = some rest) :
    s.head? = some '\x7d' ∨ (trimStart s).head? = some 'e' := by
  by_cases hbrace : s.head? = some '\x7d'
  · exact .inl hbrace
  · right
    simp only [afterElse?, Option.bind_eq_bind, Option.bind_eq_some_iff] at h
    obtain ⟨behind, helse, -⟩ := h
    rw [trimStart_skipClosingBrace hbrace] at helse
    exact head?_of_after? rfl helse

lemma exists_lead_of_parse? (h : parse? line = some c) :
    ∃ d ∈ leads, (trimStart line).head? = some d := by
  have htrim : trimStart (trimStart line) = trimStart line :=
    trimStart_append (List.forall_mem_nil _) (head_trimStart line)
  unfold parse? at h
  split at h
  · next rest hparen =>
    obtain ⟨s, hif, -⟩ := Option.bind_eq_some_iff.mp hparen
    obtain hbrace | ⟨d, hd, hhead⟩ := head?_of_afterIf? hif
    · exact ⟨_, by decide, hbrace⟩
    · rw [htrim] at hhead
      exact ⟨d, List.mem_cons_of_mem _ hd, hhead⟩
  · obtain ⟨rest, helse, -⟩ := Option.bind_eq_some_iff.mp h
    obtain hbrace | hhead := head?_of_afterElse? helse
    · exact ⟨_, by decide, hbrace⟩
    · rw [htrim] at hhead
      exact ⟨_, by decide, hhead⟩

/-- Before the substitutions, the header of a conditional begins with no sign but a closing brace,
and it is not empty. -/
lemma exists_front_of_parse? (h : parse? (substitute code) = some c) :
    ∃ d s, trimStart code = d :: s ∧
      (isWord d = false → d ≠ ';' → ¬(d = '@' ∧ s.head? = some '"') → d = '\x7d') := by
  obtain ⟨lead, hlead, hcode⟩ := exists_lead code
  obtain ⟨d, hd, hhead⟩ := exists_lead_of_parse? h
  have hspaces : ∀ s : Text, trimStart (lead ++ s) = trimStart s := fun s =>
    List.dropWhile_append_of_pos hlead
  rw [hcode, keepsIndent_substitute.append hlead, hspaces] at hhead
  cases hfront : trimStart code with
  | nil =>
    have hnil : (trimStart (substitute [])).head? = none := by decide
    rw [hfront, hnil] at hhead
    cases hhead
  | cons e s =>
    refine ⟨e, s, rfl, fun hword hsemicolon hmarker => ?_⟩
    have hspace : isSpace e = false := head_trimStart code e (by rw [hfront]; rfl)
    obtain ⟨t, ht⟩ := exists_substitute_sign hword hspace hsemicolon hmarker
    rw [hfront, ht, trimStart_cons hspace] at hhead
    obtain rfl : e = d := Option.some.inj hhead
    have hsigns : leads.all fun d => isWord d || d == '\x7d' := by decide
    have hsign := List.all_eq_true.mp hsigns e hd
    rw [hword, Bool.false_or] at hsign
    exact eq_of_beq hsign

end Conditional

/-- A line whose code is the header of a conditional after the substitutions is a statement. -/
lemma Construct.ofCode_of_parse? {code : Text} {c : Conditional}
    (h : Conditional.parse? (substitute code) = some c) : ofCode code = .statement (.ofCode code) := by
  obtain ⟨d, s, hfront, hsign⟩ := Conditional.exists_front_of_parse? h
  have himport : Import.parse? code = none := by
    rw [Import.parse?, hfront, after?_eq_none_of_head rfl]
    · rfl
    · rintro heq
      obtain rfl : d = '#' := Option.some.inj heq
      exact absurd (hsign (by decide) (by decide) fun hat => absurd hat.1 (by decide)) (by decide)
  -- The other leads stand at the margin, where nothing is trimmed.
  have hmargin {e : Char} {rest : Text} (hcode : code = e :: rest) (hspace : isSpace e = false) :
      e = d ∧ rest = s := by
    rw [hcode, trimStart_cons hspace] at hfront
    exact List.cons.inj hfront
  have hleads : ∀ lead ∈ keywordLeads, after? lead code = none := by
    have hshape : ∀ lead ∈ keywordLeads, lead.toList = '@' :: lead.toList.tail ∧
        lead.toList.tail ≠ [] ∧ lead.toList.tail.head? ≠ some '"' := by decide
    intro lead hlead
    obtain ⟨hat, hne, hquote⟩ := hshape lead hlead
    refine Option.eq_none_iff_forall_ne_some.mpr fun rest hrest => ?_
    rw [after?_eq_some_iff, hat, List.cons_append] at hrest
    obtain ⟨rfl, rfl⟩ := hmargin hrest (by decide)
    have hmarker : (lead.toList.tail ++ rest).head? ≠ some '"' := by
      rwa [List.head?_append_of_ne_nil _ hne]
    exact absurd (hsign (by decide) (by decide) fun hquoted => hmarker hquoted.2) (by decide)
  have hsigil : MethodHeader.sigil? code = none := by
    refine Option.eq_none_iff_forall_ne_some.mpr ?_
    rintro ⟨isClassMethod, rest⟩ hrest
    have hcode := MethodHeader.sigil?_eq_some_iff.mp hrest
    cases isClassMethod with
    | true =>
      obtain ⟨rfl, rfl⟩ := hmargin hcode (by decide)
      exact absurd (hsign (by decide) (by decide) fun hat => absurd hat.1 (by decide)) (by decide)
    | false =>
      obtain ⟨rfl, rfl⟩ := hmargin hcode (by decide)
      exact absurd (hsign (by decide) (by decide) fun hat => absurd hat.1 (by decide)) (by decide)
  rw [ofCode_of_no_lead himport hleads, hsigil]
  rfl

/-- A line that is a header before its sends are converted is the header that it is afterwards. -/
lemma isConstruct_conditional {line : Text} {c c' : Conditional}
    (hparse : Conditional.parse? (substitute (splitComment line).1) = some c)
    (hconverted : Conditional.parse? (collapseSends (substitute (splitComment line).1)) = some c') :
    IsConstruct line (.statement (.conditional c')) (splitComment line).2 where
  code_ne_nil hnil := by
    obtain ⟨d, s, hfront, -⟩ := Conditional.exists_front_of_parse? hparse
    rw [hnil] at hfront
    cases hfront
  ofCode := by
    rw [Construct.ofCode_of_parse? hparse]
    unfold Statement.ofCode
    simp only [hconverted]
  comment_eq := rfl

/-- A line that looks like the header of a conditional whose body follows is converted as one. -/
theorem exists_isConstruct_of_opens {line : Text} (h : opensUnbracedConditional line = true) :
    ∃ c, c.body = .follows ∧
      IsConstruct line (.statement (.conditional c)) (splitComment line).2 := by
  rw [opensUnbracedConditional] at h
  cases hparse : Conditional.parse? (substitute (splitComment line).1) with
  | none =>
    rw [hparse] at h
    cases h
  | some c =>
    rw [hparse] at h
    have hbody : c.body = .follows := of_decide_eq_true h
    obtain ⟨c', hconverted, hbody'⟩ := Conditional.exists_parse?_collapseSends hparse hbody
    exact ⟨c', hbody', isConstruct_conditional hparse hconverted⟩

/-! ### Headers without brackets -/

/-- The line has no bracket, and its code is the header of a conditional whose body follows. -/
structure IsOpenHeader (line : Text) (c : Conditional) : Prop where
  bracketless : '[' ∉ line
  parse?_eq : Conditional.parse? (substitute (splitComment line).1) = some c
  body_eq : c.body = .follows

namespace IsOpenHeader

variable {line : Text} {c : Conditional}

lemma not_isSelfGuard (h : IsOpenHeader line c) : c.isSelfGuard = false := by
  simp [Conditional.isSelfGuard, h.body_eq]

lemma opensUnbracedConditional (h : IsOpenHeader line c) : opensUnbracedConditional line = true := by
  simp [Swiftward.opensUnbracedConditional, h.parse?_eq, h.body_eq]

/-- Without a bracket there are no sends to convert. -/
lemma isConstruct (h : IsOpenHeader line c) :
    IsConstruct line (.statement (.conditional c)) (splitComment line).2 := by
  have hbracket : '[' ∉ substitute (splitComment line).1 := by
    intro hmem
    rcases mem_substitute hmem with hcode | hword
    · exact h.bracketless (code_append_comment line ▸ List.mem_append_left _ hcode)
    · exact absurd hword (by decide)
  refine isConstruct_conditional h.parse?_eq ?_
  rw [collapseSends, if_pos (.inl hbracket)]
  exact h.parse?_eq

lemma not_isLoneBrace (h : IsOpenHeader line c) : isLoneBrace line = false := by
  obtain ⟨d, s, hfront, hsign⟩ := Conditional.exists_front_of_parse? h.parse?_eq
  obtain ⟨lead, hlead, hcode⟩ := exists_lead (splitComment line).1
  have hspace : isSpace d = false := head_trimStart _ d (by rw [hfront]; rfl)
  have hwhole : line = lead ++ d :: (s ++ (splitComment line).2) := by
    rw [← List.cons_append, ← List.append_assoc, ← hfront, ← hcode, code_append_comment]
  have hline : trimStart line = d :: (s ++ (splitComment line).2) := by
    conv_lhs => rw [hwhole, trimStart, List.dropWhile_append_of_pos hlead]
    exact trimStart_cons hspace _
  refine Bool.eq_false_iff.mpr fun hbrace => ?_
  have htrim : trim line = ['\x7b'] := of_decide_eq_true hbrace
  rw [trim, hline, trimEnd_cons_of_not_space hspace] at htrim
  obtain rfl : d = '\x7b' := (List.cons.inj htrim).1
  exact absurd (hsign (by decide) (by decide) fun hat => absurd hat.1 (by decide)) (by decide)

end IsOpenHeader

end Swiftward
