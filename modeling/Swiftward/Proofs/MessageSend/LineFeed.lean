import Swiftward.Proofs.MessageSend.Piece
import Swiftward.Proofs.Text.LineFeed

/-!
# Line feeds and sends

A call is made of parts of what stood between the brackets, of words, and of punctuation, none of
which brings a line feed. So a pass over an unbroken line leaves it unbroken, and so does converting
its sends (`Unbroken.collapseSends`).
-/

namespace Swiftward

lemma Unbroken.downcaseFirst {word : Text} (h : Unbroken word) : Unbroken (downcaseFirst word) := by
  unfold Swiftward.downcaseFirst
  split
  · exact h
  · split
    · exact h
    · rw [unbroken_cons] at h
      refine .append ?_ h.2
      intro hmem
      rcases eq_or_isLowerForm_of_mem_lowercase hmem with heq | hform
      · exact h.1 heq.symm
      · exact absurd hform (by decide)

lemma Unbroken.callHead {first : Text} (h : Unbroken first) :
    Unbroken (MessageSend.callHead first) := by
  unfold MessageSend.callHead
  split
  · exact (h.cons (by decide)).append (by decide)
  · next rest hinit =>
    split
    · next c label hwith =>
      have hlabel : Unbroken (c :: label) :=
        (h.subset (after?_subset hinit)).subset (after?_subset hwith)
      exact (hlabel.downcaseFirst.cons (by decide)).append (by decide)
    · decide

/-! ### Calls -/

section Symbols

variable {α : Type} [Symbol α] {ok : α → Prop}

/-- All characters but the line feed are in the class. -/
def AdmitsUnbroken (ok : α → Prop) : Prop := ∀ c : Char, c ≠ '\n' → ok (Symbol.ofChar c)

namespace AdmitsUnbroken

lemma ofText (hok : AdmitsUnbroken ok) {t : Text} (ht : Unbroken t) :
    ∀ a ∈ (Symbol.ofText t : List α), ok a := by
  intro a ha
  obtain ⟨c, hc, rfl⟩ := List.mem_map.mp ha
  exact hok c (ht.ne_of_mem hc)

lemma render_unary (hok : AdmitsUnbroken ok) {receiver : List α} {selector : Text}
    (hreceiver : ∀ a ∈ receiver, ok a) (hselector : Unbroken selector) :
    ∀ a ∈ (MessageSend.unary receiver selector).render, ok a := by
  rw [MessageSend.render]
  split_ifs
  · exact hreceiver
  · exact List.forall_mem_append.mpr ⟨hreceiver, hok.ofText (by decide)⟩
  · exact List.forall_mem_append.mpr
      ⟨hreceiver, hok.ofText ((hselector.cons (by decide)).append (by decide))⟩

lemma render_keyword (hok : AdmitsUnbroken ok) {receiver argument : List α} {first : Text}
    {more : List (Text × List α)} (hreceiver : ∀ a ∈ receiver, ok a) (hfirst : Unbroken first)
    (hargument : ∀ a ∈ argument, ok a) (hmore : ∀ k ∈ more, Unbroken k.1 ∧ ∀ a ∈ k.2, ok a) :
    ∀ a ∈ (MessageSend.keyword receiver first argument more).render, ok a := by
  have hlabels : ∀ a ∈ more.flatMap MessageSend.labelled, ok a := by
    intro a ha
    obtain ⟨k, hk, ha⟩ := List.mem_flatMap.mp ha
    obtain ⟨hlabel, hvalue⟩ := hmore k hk
    have hcomma : Unbroken ", ".toList := by decide
    exact List.forall_mem_append.mpr
      ⟨hok.ofText ((hcomma.append hlabel).append (by decide)), hvalue⟩ a ha
  simp only [MessageSend.render, List.forall_mem_append]
  exact ⟨⟨⟨⟨hreceiver, hok.ofText hfirst.callHead⟩, hargument⟩, hlabels⟩, hok.ofText (by decide)⟩

/-- A call brings no line feed that was not there. -/
lemma resolveSend (hok : AdmitsUnbroken ok) {s call : List α} (hs : ∀ a ∈ s, ok a)
    (h : resolveSend s = some call) : ∀ a ∈ call, ok a := by
  obtain ⟨send, hsend, rfl⟩ := Option.map_eq_some_iff.mp h
  simp only [MessageSend.parse?, Option.orElse_eq_orElse, Option.orElse_eq_or,
    Option.or_eq_some_iff] at hsend
  have hs : ∀ a ∈ trim s, ok a := fun a ha => hs a (trim_subset s ha)
  generalize trim s = text at hs hsend
  rcases hsend with hunary | ⟨-, hkeyword⟩
  · obtain ⟨receiver, gap, selector, rfl, -, hselector, rfl⟩ := MessageSend.unary?_cases hunary
    exact hok.render_unary (List.forall_mem_append.mp hs).1 (unbroken_of_isWord hselector)
  · obtain ⟨htext, hkeywords⟩ := cutAtKeywords_eq (Token.wellFormed_ofText text) .code
    obtain ⟨first, argument, more, heq, rfl⟩ := MessageSend.keyword?_cases hkeyword
    rw [Token.textOf_ofText] at htext
    rw [htext, List.forall_mem_append] at hs
    obtain ⟨hlead, hparts⟩ := hs
    have hpart : ∀ k ∈ (cutAtKeywords .code (Token.ofText text)).2,
        Unbroken k.1 ∧ ∀ a ∈ trim k.2, ok a := by
      intro k hk
      refine ⟨unbroken_of_isWord (hkeywords k hk), fun a ha => hparts a ?_⟩
      exact List.mem_flatMap.mpr ⟨k, hk, List.mem_append_right _ (trim_subset _ ha)⟩
    rw [heq] at hpart
    obtain ⟨⟨hfirst, hargument⟩, hmore⟩ := List.forall_mem_cons.mp hpart
    refine hok.render_keyword (fun a ha => hlead a (trim_subset _ ha)) hfirst hargument ?_
    intro k hk
    obtain ⟨k', hk', rfl⟩ := List.mem_map.mp hk
    exact hmore k' hk'

lemma whole (hok : AdmitsUnbroken ok) {before interior : List α} (hs : ∀ a ∈ interior, ok a) :
    ∀ a ∈ BracketPair.whole ⟨before, interior⟩, ok a := by
  have hopen : ok (Symbol.ofChar '[') := hok '[' (by decide)
  have hclose : ok (Symbol.ofChar ']') := hok ']' (by decide)
  simpa [BracketPair.whole, or_imp, forall_and, hopen, hclose] using hs

lemma part? (hok : AdmitsUnbroken ok) {role : BracketRole} {interior part : List α}
    (hs : ∀ a ∈ interior, ok a) (h : role.part? interior = some part) : ∀ a ∈ part, ok a := by
  have hwhole : ∀ a ∈ BracketPair.whole ⟨[], interior⟩, ok a := hok.whole hs
  cases role with
  | literal =>
    obtain rfl := Option.some.inj h
    exact hwhole
  | subscript =>
    obtain rfl := Option.some.inj h
    exact hwhole
  | trailing =>
    obtain rfl := Option.some.inj h
    cases hsend : Swiftward.resolveSend interior with
    | none => exact hwhole
    | some call => exact hok.resolveSend hs hsend
  | send => exact hok.resolveSend hs h

end AdmitsUnbroken

end Symbols

/-! ### Lines of pieces -/

namespace Piece

/-- The text that a piece stands for has no line feed. -/
def IsUnbroken (a : Piece) : Prop := Unbroken a.text

lemma admitsUnbroken : AdmitsUnbroken IsUnbroken := fun _ hc => unbroken_cons.mpr ⟨hc, unbroken_nil⟩

lemma unbroken_textOf {line : List Piece} : Unbroken (textOf line) ↔ ∀ a ∈ line, a.IsUnbroken :=
  unbroken_flatMap

lemma keepsParts_isUnbroken : KeepsParts IsUnbroken := fun hinterior hdone =>
  unbroken_textOf.mpr (admitsUnbroken.part? hinterior hdone)

end Piece

/-- Converting the sends of an unbroken line leaves it unbroken. -/
lemma Unbroken.collapseSends {line : Text} (h : Unbroken line) : Unbroken (collapseSends line) := by
  by_cases hmark : Cell.markOpen ∈ line
  · rwa [Swiftward.collapseSends, if_pos (.inr hmark)]
  · obtain ⟨done, hsettles, heq⟩ := collapseSends_eq_textOf hmark
    rw [heq, Piece.unbroken_textOf]
    exact hsettles.forall Piece.keepsParts_isUnbroken (Piece.admitsUnbroken.ofText h)

end Swiftward
