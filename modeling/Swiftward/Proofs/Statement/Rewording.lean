import Swiftward.Conversion.Construct
import Swiftward.Proofs.MessageSend.Literal
import Swiftward.Proofs.Statement.LocalDeclaration
import Swiftward.Proofs.Text.Paren
import Swiftward.Proofs.Text.Reading

/-!
# Statements as rewordings

Once its sends are converted, a statement is read as the header of a conditional, as the delegation
of an initializer or as a declaration, and written out again in Swift. However it is read, words
and punctuation are found in code only, and what is written out is a rewording of what was read
(`Statement.rewords_ofCode`).
-/

namespace Swiftward

/-! ### Reading from the front -/

/-- The second text is the first without a stretch at its front that has no quote. -/
def Skips (s t : Text) : Prop := ∃ u, Unquoted u ∧ s = u ++ t

namespace Skips

variable {s t u : Text}

lemma refl (s : Text) : Skips s s := ⟨[], unquoted_nil, rfl⟩

lemma trans (h : Skips s t) (h' : Skips t u) : Skips s u := by
  obtain ⟨front, hfront, rfl⟩ := h
  obtain ⟨more, hmore, rfl⟩ := h'
  exact ⟨front ++ more, hfront.append hmore, (List.append_assoc ..).symm⟩

lemma closed (h : Skips s t) (hs : Closed s) : Closed t := by
  obtain ⟨front, hfront, rfl⟩ := h
  exact hfront.closed.of_append_left hs

lemma unquoted (h : Skips s []) : Unquoted s := by
  obtain ⟨front, hfront, rfl⟩ := h
  rwa [List.append_nil]

/-- The stretch that is skipped. -/
lemma before_eq (h : Skips s t) : Unquoted (before s t) ∧ s = before s t ++ t := by
  obtain ⟨front, hfront, rfl⟩ := h
  have hbefore : before (front ++ t) t = front := by simp [before]
  rw [hbefore]
  exact ⟨hfront, rfl⟩

/-- What is skipped may be written anew. -/
lemma rewords {v w : Text} (h : Skips s t) (hv : Unquoted v) (ht : Rewords t w) :
    Rewords s (v ++ w) := by
  obtain ⟨front, hfront, rfl⟩ := h
  exact (Rewords.of_texts hfront hv).append ht

lemma trimStart (s : Text) : Skips s (trimStart s) := by
  obtain ⟨lead, hlead, hs⟩ := exists_lead s
  exact ⟨lead, unquoted_space hlead, hs⟩

lemma after? {lead : String} (hlead : Unquoted lead.toList) (h : after? lead s = some t) :
    Skips s t :=
  ⟨lead.toList, hlead, after?_eq_some_iff.mp h⟩

lemma afterSpace? (h : afterSpace? s = some t) : Skips s t := by
  obtain ⟨lead, hlead, -, hs⟩ := exists_of_afterSpace? h
  exact ⟨lead, unquoted_space hlead, hs⟩

end Skips

lemma unquoted_indent (line : Text) : Unquoted (line.takeWhile isSpace) := by
  intro c hc
  exact isUnquoted_of_isSpace (List.mem_takeWhile_imp hc)

lemma Unquoted.trimEnd {s : Text} (h : Unquoted s) : Unquoted (trimEnd s) := by
  obtain ⟨u, -, heq⟩ := exists_trimEnd s
  rw [heq, unquoted_append] at h
  exact h.1

/-! ### Conditionals -/

namespace Conditional

lemma skips_skipClosingBrace (s : Text) : Skips s (skipClosingBrace s) := by
  unfold skipClosingBrace
  cases h : after? "\x7d" s with
  | none => exact .refl s
  | some rest => exact .after? (by decide) h

lemma skips_fromParen? {line rest : Text} (h : fromParen? line = some rest) :
    Skips (trimStart line) rest := by
  simp only [fromParen?, afterIf?, Option.bind_eq_bind, Option.bind_eq_some_iff] at h
  obtain ⟨s, hif, hparen⟩ := h
  have hbrace := (skips_skipClosingBrace (trimStart line)).trans (.trimStart _)
  generalize trimStart (skipClosingBrace (trimStart line)) = text at hif hbrace
  have helse : Skips text (((after? "else" text).bind afterSpace?).getD text) := by
    cases he : (after? "else" text).bind afterSpace? with
    | none => exact .refl text
    | some more =>
      obtain ⟨behind, helse, hspace⟩ := Option.bind_eq_some_iff.mp he
      exact (Skips.after? (by decide) helse).trans (.afterSpace? hspace)
  have hbehind := (hbrace.trans helse).trans ((Skips.after? (by decide) hif).trans (.trimStart s))
  split at hparen
  · next text htext =>
    rw [htext] at hbehind
    rwa [← Option.some.inj hparen]
  · simp at hparen

lemma skips_afterElse? {s rest : Text} (h : afterElse? s = some rest) : Skips s rest := by
  simp only [afterElse?, Option.bind_eq_bind, Option.bind_eq_some_iff] at h
  obtain ⟨behind, helse, hword⟩ := h
  split at hword
  · obtain rfl := Option.some.inj hword
    exact ((skips_skipClosingBrace s).trans (.trimStart _)).trans (.after? (by decide) helse)
  · simp at hword

/-- What stands behind the condition, in Swift. -/
def bodyText : ConditionalBody → Text
  | .follows => " \x7b".toList
  | .braced text => ' ' :: text
  | .statement text => " \x7b ".toList ++ text ++ " \x7d".toList

lemma render_eq (c : Conditional) : c.render = c.header ++ bodyText c.body := by
  unfold render
  cases c.body with
  | follows => rfl
  | braced text => rfl
  | statement text => simp only [bodyText, List.append_assoc]

lemma rewords_body {s : Text} (hs : Closed s) : Rewords s (bodyText (.ofText s)) := by
  apply Rewords.of_trim
  have htrim := hs.trim
  unfold ConditionalBody.ofText
  split
  · next hnil =>
    rw [hnil]
    exact .of_texts unquoted_nil (by decide)
  · next rest hbrace =>
    rw [hbrace] at htrim ⊢
    have hspace : Rewords ([] : Text) [' '] := .of_texts unquoted_nil (by decide)
    exact hspace.append (.refl htrim)
  · have hopen : Rewords ([] : Text) " \x7b ".toList := .of_texts unquoted_nil (by decide)
    have hclose : Rewords ([] : Text) " \x7d".toList := .of_texts unquoted_nil (by decide)
    simpa [bodyText] using (hopen.append (.refl htrim)).append hclose

/-- The header of a conditional in Swift is a rewording of the line. -/
lemma rewords_render {line : Text} {c : Conditional} (hs : Closed line)
    (h : parse? line = some c) : Rewords line c.render := by
  have hindent := unquoted_indent line
  have hline : line.takeWhile isSpace ++ trimStart line = line := List.takeWhile_append_dropWhile
  unfold parse? at h
  split at h
  · next rest hparen =>
    obtain ⟨⟨inside, behind⟩, hcut, rfl⟩ := Option.map_eq_some_iff.mp h
    have hskips := skips_fromParen? hparen
    have hwhole : Skips line rest := (Skips.trimStart line).trans hskips
    obtain ⟨hinside, hclosed, -⟩ :=
      (parenthesized?_eq_some_iff hwhole.before_eq.1.closed).mp hcut
    have hkeyword : Unquoted (keywordBefore line rest) := hskips.before_eq.1
    have hparenthesis : Skips line (inside ++ ')' :: behind) :=
      hwhole.trans ⟨['('], by decide, by rw [hinside]; rfl⟩
    have hrest : Closed (')' :: behind) :=
      hclosed.of_append_left (hparenthesis.closed hs)
    have hbehind : Skips (')' :: behind) behind := ⟨[')'], by decide, rfl⟩
    have hbody : Rewords (')' :: behind) ([] ++ bodyText (.ofText behind)) :=
      hbehind.rewords unquoted_nil (rewords_body (hbehind.closed hrest))
    have hlead : Unquoted (line.takeWhile isSpace ++ trimEnd (keywordBefore line rest) ++ [' ']) :=
      (hindent.append hkeyword.trimEnd).append (by decide)
    have := hparenthesis.rewords hlead ((Rewords.trim hclosed).append hbody)
    rw [render_eq]
    simpa [header] using this
  · obtain ⟨rest, helse, hbody⟩ := Option.bind_eq_some_iff.mp h
    split at hbody
    · simp at hbody
    · obtain rfl := Option.some.inj hbody
      have hskips := skips_afterElse? helse
      have hwhole : Skips line rest := (Skips.trimStart line).trans hskips
      have hkeyword : Unquoted (keywordBefore line rest) := hskips.before_eq.1
      have := hwhole.rewords (hindent.append hkeyword)
        (rewords_body (hwhole.closed hs))
      rw [render_eq]
      simpa [header] using this

end Conditional

/-! ### Delegations -/

lemma selfAssignment?_eq {line indent value : Text}
    (h : selfAssignment? line = some (indent, value)) :
    Unquoted indent ∧ Skips line value := by
  simp only [selfAssignment?, Option.bind_eq_bind, Option.bind_eq_some_iff] at h
  obtain ⟨s, hself, t, hequals, heq⟩ := h
  obtain ⟨rfl, rfl⟩ := Prod.mk.inj (Option.some.inj heq)
  refine ⟨unquoted_indent line, ?_⟩
  have hfront := (Skips.trimStart line).trans (.after? (by decide) hself)
  exact (hfront.trans (.trimStart s)).trans ((Skips.after? (by decide) hequals).trans (.trimStart t))

lemma rewords_nameInitializer {call : Text} (h : Closed call) :
    Rewords call (nameInitializer call) := by
  have hrename {lead : String} {initializer arguments : Text} (hlead : Unquoted lead.toList)
      (hinitializer : Unquoted initializer) (hcall : after? lead call = some arguments) :
      Rewords call (initializer ++ arguments) := by
    have hskips := Skips.after? hlead hcall
    exact hskips.rewords hinitializer (.refl (hskips.closed h))
  unfold nameInitializer
  cases hsuper : after? "super(" call with
  | some arguments => exact hrename (by decide) (by decide) hsuper
  | none =>
    cases hself : after? "self(" call with
    | some arguments => exact hrename (by decide) (by decide) hself
    | none => exact .refl h

/-- A delegation without its assignment is a rewording of the line. -/
lemma rewords_of_dropSelfAssignment? {line call : Text} (hs : Closed line)
    (h : dropSelfAssignment? line = some call) : Rewords line call := by
  obtain ⟨⟨indent, value⟩, hassignment, hcall⟩ := Option.bind_eq_some_iff.mp h
  simp only at hcall
  split at hcall
  · simp at hcall
  · obtain rfl := Option.some.inj hcall
    obtain ⟨hindent, hskips⟩ := selfAssignment?_eq hassignment
    have hvalue := (hskips.closed hs).trimEnd
    exact hskips.rewords hindent (.of_trimEnd (rewords_nameInitializer hvalue))

/-! ### Declarations -/

/-- A declaration in Swift is a rewording of the line. -/
lemma LocalDeclaration.rewords_render {line : Text} {d : LocalDeclaration} (hs : Closed line)
    (h : parse? line = some d) : Rewords line d.render := by
  obtain ⟨l, rfl, -, rfl⟩ := exists_of_parse? h
  obtain ⟨front, head, value, htext, hrender, hfront, hhead⟩ :=
    l.exists_render (isUnquoted · = true) (fun _ _ => isUnquoted_of_isSpace)
      (fun _ => isUnquoted_of_isWord) (List.all_eq_true.mp (by decide))
  rw [htext] at hs ⊢
  rw [hrender]
  exact (Rewords.of_texts hfront hhead).append (.trim (Unquoted.closed hfront |>.of_append_left hs))

/-! ### Statements -/

/-- A statement in Swift. -/
def Statement.text : Statement → Text
  | conditional header => header.render
  | done text => text

/-- However a statement is read, what is written out is a rewording of it, with its sends
converted. -/
theorem Statement.rewords_ofCode {code : Text} (h : Closed (substitute code)) :
    Rewords (collapseSends (substitute code)) (ofCode code).text := by
  have hconverted := h.collapseSends
  unfold ofCode
  simp only
  generalize collapseSends (substitute code) = converted at hconverted
  split
  · next header hparse => exact Conditional.rewords_render hconverted hparse
  · split
    · cases hcall : dropSelfAssignment? converted with
      | none => exact .refl hconverted
      | some call => exact rewords_of_dropSelfAssignment? hconverted hcall
    · split
      · next declaration hparse => exact LocalDeclaration.rewords_render hconverted hparse
      · exact .refl hconverted

end Swiftward
