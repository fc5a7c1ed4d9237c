import Swiftward.Proofs.MessageSend.LineFeed
import Swiftward.Proofs.Statement.Rewording
import Swiftward.Proofs.Statement.Substitution

/-!
# Line feeds and statements

The words that substitutions write, and the keywords and braces of Swift, have no line feed. All
else that a statement becomes is taken from its line. So an unbroken line becomes an unbroken
statement (`Unbroken.statement`).
-/

namespace Swiftward

lemma Unbroken.indent {line : Text} (h : Unbroken line) : Unbroken (line.takeWhile isSpace) :=
  h.subset (List.takeWhile_subset _)

lemma Skips.subset {s rest : Text} (h : Skips s rest) : rest ⊆ s := by
  obtain ⟨front, -, rfl⟩ := h
  exact List.subset_append_right _ _

/-! ### Substitutions -/

lemma stripMarkersAfter_subset (previous : Option Char) (s : Text) :
    stripMarkersAfter previous s ⊆ s := by
  induction s generalizing previous with
  | nil => exact List.Subset.refl _
  | cons c s ih =>
    rw [stripMarkersAfter]
    split_ifs
    · exact List.subset_cons_of_subset c (ih _)
    · exact List.cons_subset_cons c (ih _)

lemma dropSemicolon_subset (s : Text) : dropSemicolon s ⊆ s := by
  unfold dropSemicolon
  cases h : before? ';' (trimEnd s) with
  | none => exact List.Subset.refl _
  | some front => exact List.Subset.trans (before?_subset h) (trimEnd_subset s)

lemma dropBlock_subset (s : Text) : dropBlock s ⊆ s := by
  intro c hc
  obtain ⟨t, ht, hc⟩ := List.mem_flatMap.mp hc
  exact toText_subset_of_mem_ofText ((sublist_dropBlockTokens _ _).subset ht) hc

lemma mem_replaceWords {words : List String} {replacement : String} {s : Text} {c : Char}
    (h : c ∈ replaceWords words replacement s) : c ∈ s ∨ c ∈ replacement.toList := by
  obtain ⟨t, ht, hc⟩ := List.mem_flatMap.mp h
  have hsubset := toText_subset_of_mem_ofText ht
  cases t with
  | word w =>
    dsimp only at hc
    split_ifs at hc
    · exact .inr hc
    · exact .inl (hsubset (by simpa [Token.toText] using hc))
  | other d => exact .inl (hsubset hc)

/-- Substitutions write nothing but words. -/
lemma mem_substitute {s : Text} {c : Char} (h : c ∈ substitute s) :
    c ∈ s ∨ Unicode.isWord c = true := by
  have hreplaced {words : List String} {replacement : String} {t : Text}
      (hword : replacement.toList.all Unicode.isWord = true)
      (h : c ∈ replaceWords words replacement t) : c ∈ t ∨ Unicode.isWord c = true :=
    (mem_replaceWords h).imp_right (List.all_eq_true.mp hword c)
  rcases hreplaced (by decide) h with h | hword
  · rcases hreplaced (by decide) h with h | hword
    · rcases hreplaced (by decide) h with h | hword
      · rcases hreplaced (by decide) h with h | hword
        · exact .inl (stripMarkersAfter_subset none s (dropSemicolon_subset _ (dropBlock_subset _ h)))
        · exact .inr hword
      · exact .inr hword
    · exact .inr hword
  · exact .inr hword

lemma Unbroken.substitute {s : Text} (h : Unbroken s) : Unbroken (substitute s) := by
  intro hmem
  rcases mem_substitute hmem with hs | hword
  · exact h hs
  · exact absurd hword (by decide)

/-! ### Conditionals -/

namespace Conditional

lemma unbroken_bodyText {s : Text} (h : Unbroken s) : Unbroken (bodyText (.ofText s)) := by
  have htrim : Unbroken (trim s) := h.subset (trim_subset s)
  unfold ConditionalBody.ofText
  split
  · decide
  · next hbrace => exact (hbrace ▸ htrim).cons (by decide)
  · have hopen : Unbroken " \x7b ".toList := by decide
    exact (hopen.append htrim).append (by decide)

lemma keywordBefore_subset (line rest : Text) : keywordBefore line rest ⊆ line :=
  List.Subset.trans (List.take_subset _ _) (trimStart_subset line)

/-- The header of a conditional is unbroken in Swift if its line is. -/
lemma unbroken_render {line : Text} {c : Conditional} (hline : Unbroken line)
    (h : parse? line = some c) : Unbroken c.render := by
  have hkeyword (rest : Text) : Unbroken (keywordBefore line rest) :=
    hline.subset (keywordBefore_subset line rest)
  rw [render_eq]
  unfold parse? at h
  split at h
  · next rest hparen =>
    obtain ⟨⟨inside, behind⟩, hcut, rfl⟩ := Option.map_eq_some_iff.mp h
    have hskips : Skips line rest := (Skips.trimStart line).trans (skips_fromParen? hparen)
    have hrest : Unbroken rest := hline.subset hskips.subset
    have hparens := ((parenthesized?_eq_some_iff hskips.before_eq.1.closed).mp hcut).1
    rw [hparens, unbroken_append, unbroken_cons, unbroken_cons] at hrest
    obtain ⟨⟨-, hinside⟩, -, hbehind⟩ := hrest
    have hcondition : Unbroken (' ' :: trim inside) :=
      (hinside.subset (trim_subset inside)).cons (by decide)
    exact ((hline.indent.append ((hkeyword rest).subset (trimEnd_subset _))).append
      hcondition).append (unbroken_bodyText hbehind)
  · obtain ⟨rest, helse, hbody⟩ := Option.bind_eq_some_iff.mp h
    split at hbody
    · simp at hbody
    · obtain rfl := Option.some.inj hbody
      have hrest : Unbroken rest :=
        (hline.subset (trimStart_subset line)).subset (skips_afterElse? helse).subset
      exact (hline.indent.append (hkeyword rest)).append (unbroken_bodyText hrest)

end Conditional

/-! ### Delegations and declarations -/

lemma Unbroken.nameInitializer {call : Text} (h : Unbroken call) :
    Unbroken (nameInitializer call) := by
  unfold Swiftward.nameInitializer
  split
  · next arguments _ hsuper =>
    have hinitializer : Unbroken "super.init(".toList := by decide
    exact hinitializer.append (h.subset (after?_subset hsuper))
  · next arguments hself =>
    have hinitializer : Unbroken "self.init(".toList := by decide
    exact hinitializer.append (h.subset (after?_subset hself))
  · exact h

lemma Unbroken.dropSelfAssignment? {line call : Text} (hline : Unbroken line)
    (h : dropSelfAssignment? line = some call) : Unbroken call := by
  obtain ⟨⟨indent, value⟩, hassignment, hcall⟩ := Option.bind_eq_some_iff.mp h
  have hvalue : Unbroken value := hline.subset (selfAssignment?_eq hassignment).2.subset
  simp only [selfAssignment?, Option.bind_eq_bind, Option.bind_eq_some_iff] at hassignment
  obtain ⟨_, -, _, -, hindent⟩ := hassignment
  obtain ⟨rfl, -⟩ := Prod.mk.inj (Option.some.inj hindent)
  simp only at hcall
  split at hcall
  · simp at hcall
  · obtain rfl := Option.some.inj hcall
    exact hline.indent.append (hvalue.subset (trimEnd_subset value)).nameInitializer

lemma Unbroken.swiftType {spelling : Text} (h : Unbroken spelling) :
    Unbroken (swiftType spelling) := by
  intro hmem
  rcases mem_swiftType hmem with hc | hword | heq
  · exact h hc
  · exact absurd hword (by decide)
  · exact absurd heq (by decide)

/-- The declaration of a local variable is unbroken in Swift if its line is. -/
lemma LocalDeclaration.unbroken_render {line : Text} {d : LocalDeclaration} (hline : Unbroken line)
    (h : parse? line = some d) : Unbroken d.render := by
  obtain ⟨l, rfl, -, rfl⟩ := exists_of_parse? h
  obtain ⟨front, head, value, htext, hrender, -, hhead⟩ :=
    l.exists_render (· ≠ '\n') (fun _ hc _ => hline.ne_of_mem hc)
      (fun _ hc => ne_of_class hc (by decide)) (by simp [declarationSigns])
  rw [htext, unbroken_append] at hline
  rw [hrender]
  have hwritten : Unbroken head := fun hc => hhead '\n' hc rfl
  exact hwritten.append (hline.2.subset (trim_subset value))

/-! ### Statements -/

/-- A statement is unbroken in Swift if its line is. -/
lemma Unbroken.statement {code : Text} (h : Unbroken code) : Unbroken (Statement.ofCode code).text := by
  have hconverted : Unbroken (Swiftward.collapseSends (Swiftward.substitute code)) :=
    h.substitute.collapseSends
  unfold Statement.ofCode
  simp only
  generalize Swiftward.collapseSends (Swiftward.substitute code) = converted at hconverted
  split
  · next header hparse => exact Conditional.unbroken_render hconverted hparse
  · split
    · rw [Statement.text]
      cases hcall : Swiftward.dropSelfAssignment? converted with
      | none => exact hconverted
      | some call => exact hconverted.dropSelfAssignment? hcall
    · split
      · next declaration hparse => exact LocalDeclaration.unbroken_render hconverted hparse
      · exact hconverted

end Swiftward
