import Swiftward.Proofs.MessageSend.Balance
import Swiftward.Proofs.MessageSend.LineFeed

/-!
# White space around sends

A pair of brackets has no white space at either end, and neither has the part that it becomes. So
converting the sends of a text brings no white space to its ends and takes none away
(`sameSpaces_collapseSends`), and what follows a sign at its start is blank only if it was
(`exists_collapseSends_cons`).
-/

namespace Swiftward

variable {α β γ : Type} [Symbol α] [Symbol β] [Symbol γ]

/-! ### The same white space at the ends -/

/-- Both texts or neither begin with white space, end with it, and are made of it. -/
structure SameSpaces (s : List α) (t : List β) : Prop where
  head?_eq : t.head?.map isSpace = s.head?.map isSpace
  getLast?_eq : t.getLast?.map isSpace = s.getLast?.map isSpace
  all_eq : t.all isSpace = s.all isSpace

namespace SameSpaces

lemma refl (s : List α) : SameSpaces s s := ⟨rfl, rfl, rfl⟩

lemma trans {s : List α} {t : List β} {u : List γ} (h : SameSpaces s t) (h' : SameSpaces t u) :
    SameSpaces s u :=
  ⟨h'.head?_eq.trans h.head?_eq, h'.getLast?_eq.trans h.getLast?_eq, h'.all_eq.trans h.all_eq⟩

lemma append {s s' : List α} {t t' : List β} (h : SameSpaces s t) (h' : SameSpaces s' t') :
    SameSpaces (s ++ s') (t ++ t') where
  head?_eq := by simp only [List.head?_append, Option.map_or, h.head?_eq, h'.head?_eq]
  getLast?_eq := by simp only [List.getLast?_append, Option.map_or, h.getLast?_eq, h'.getLast?_eq]
  all_eq := by simp only [List.all_append, h.all_eq, h'.all_eq]

lemma trimmed {s : List α} {t : List β} (h : SameSpaces s t) (hs : Trimmed s) : Trimmed t := by
  have hends {a : Option α} {b : Option β} (heq : b.map isSpace = a.map isSpace)
      (ha : ∀ x ∈ a, isSpace x = false) : ∀ y ∈ b, isSpace y = false := by
    rintro y rfl
    obtain ⟨x, rfl, hx⟩ := Option.map_eq_some_iff.mp heq.symm
    rw [← hx]
    exact ha x rfl
  exact ⟨hends h.head?_eq hs.head_not_space, hends h.getLast?_eq hs.last_not_space⟩

end SameSpaces

/-- A text with no white space at either end that is not empty. -/
structure Firm (s : List α) : Prop where
  ne_nil : s ≠ []
  trimmed : Trimmed s

namespace Firm

lemma ends {s : List α} (h : Firm s) :
    s.head?.map isSpace = some false ∧ s.getLast?.map isSpace = some false := by
  obtain ⟨a, rest, rfl⟩ := List.exists_cons_of_ne_nil h.ne_nil
  have hlast := List.getLast?_eq_some_getLast (List.cons_ne_nil a rest)
  constructor
  · exact congrArg some (h.trimmed.head_not_space a rfl)
  · rw [hlast, Option.map_some, h.trimmed.last_not_space _ hlast]

/-- Of two such texts neither has white space at its ends. -/
lemma sameSpaces {s : List α} {t : List β} (hs : Firm s) (ht : Firm t) : SameSpaces s t := by
  have hall {γ : Type} [Symbol γ] {u : List γ} (hu : Firm u) : u.all isSpace = false := by
    obtain ⟨a, rest, rfl⟩ := List.exists_cons_of_ne_nil hu.ne_nil
    rw [List.all_cons, hu.trimmed.head_not_space a rfl, Bool.false_and]
  exact ⟨ht.ends.1.trans hs.ends.1.symm, ht.ends.2.trans hs.ends.2.symm,
    (hall ht).trans (hall hs).symm⟩

lemma append {s t : List α} (hs : Firm s) (u : List α) (ht : Firm t) : Firm (s ++ u ++ t) :=
  ⟨by simp [hs.ne_nil], hs.trimmed.append hs.ne_nil ht.trimmed ht.ne_nil u⟩

end Firm

lemma firm_singleton {a : α} (h : isSpace a = false) : Firm [a] :=
  ⟨List.cons_ne_nil a [], .of_forall (by simpa using h)⟩

lemma isSpace_ofChar (c : Char) : isSpace (Symbol.ofChar c : α) = isSpace c :=
  Symbol.satisfies_ofChar ..

lemma firm_sign {c : Char} (h : isSpace c = false) : Firm [(Symbol.ofChar c : α)] :=
  firm_singleton (by rwa [isSpace_ofChar])

lemma firm_whole (before interior : List α) : Firm (BracketPair.whole ⟨before, interior⟩) :=
  (firm_sign (c := '[') (by decide)).append interior (firm_sign (c := ']') (by decide))

/-! ### Calls -/

/-- What begins like a text without white space at its start and ends with a parenthesis. -/
lemma Firm.append_paren {s : List α} (h : Firm s) (u : List α) :
    Firm (s ++ u ++ Symbol.ofText [')']) :=
  h.append u (firm_sign (by decide))

namespace MessageSend

lemma firm_render_unary {receiver : List α} (h : Firm receiver) (selector : Text) :
    Firm (unary receiver selector).render := by
  rw [render]
  split_ifs
  · exact h
  · simpa [Symbol.ofText] using h.append_paren (Symbol.ofText ['('])
  · simpa [Symbol.ofText] using h.append_paren (Symbol.ofText ('.' :: selector ++ ['(']))

lemma firm_of_unary? {s : List α} {send : MessageSend α} (h : unary? s = some send) :
    Firm send.render := by
  simp only [unary?] at h
  split at h
  · next a selector hlast hword =>
    split_ifs at h
    obtain rfl := Option.some.inj h
    have hspaceless : ∀ a ∈ s.takeWhile (!isSpace ·), isSpace a = false := by
      intro a ha
      simpa using List.mem_takeWhile_imp ha
    have hne : s.takeWhile (!isSpace ·) ≠ [] := by
      intro hnil
      rw [hnil] at hlast
      cases hlast
    exact firm_render_unary ⟨hne, .of_forall hspaceless⟩ selector
  · cases h

lemma firm_of_keyword? {s : List α} {send : MessageSend α} (h : keyword? s = some send) :
    Firm send.render := by
  simp only [keyword?] at h
  generalize hreceiver : trim (cutAtKeywords .code (Token.ofText s)).1 = receiver at h
  split at h
  · cases h
  · cases h
  · cases h
  · next receiver _ _ first argument more _ hne _ =>
    split_ifs at h
    obtain rfl := Option.some.inj h
    have hfirm : Firm receiver := ⟨hne, hreceiver ▸ trimmed_trim _⟩
    have hcall := hfirm.append_paren
      (Symbol.ofText (callHead first) ++ argument ++ more.flatMap labelled)
    rwa [← List.append_assoc, ← List.append_assoc] at hcall

end MessageSend

/-- A call has no white space at either end. -/
lemma firm_of_resolveSend {s call : List α} (h : resolveSend s = some call) : Firm call := by
  obtain ⟨send, hsend, rfl⟩ := Option.map_eq_some_iff.mp h
  simp only [MessageSend.parse?, Option.orElse_eq_orElse, Option.orElse_eq_or,
    Option.or_eq_some_iff] at hsend
  rcases hsend with hunary | ⟨-, hkeyword⟩
  · exact MessageSend.firm_of_unary? hunary
  · exact MessageSend.firm_of_keyword? hkeyword

lemma BracketRole.firm_of_part? {role : BracketRole} {interior done : List α}
    (h : role.part? interior = some done) : Firm done := by
  cases role with
  | literal =>
    obtain rfl := Option.some.inj h
    exact firm_whole [] interior
  | subscript =>
    obtain rfl := Option.some.inj h
    exact firm_whole [] interior
  | trailing =>
    obtain rfl := Option.some.inj h
    cases hsend : resolveSend interior with
    | none => exact firm_whole [] interior
    | some call => exact firm_of_resolveSend hsend
  | send => exact firm_of_resolveSend h

/-! ### Lines of pieces -/

namespace Piece

/-- The piece is white space, or has it at an end, as its text is or has. -/
def IsFaithful (a : Piece) : Prop := SameSpaces [a] a.text

lemma isFaithful_char (c : Char) : IsFaithful (.char c) := ⟨rfl, rfl, rfl⟩

lemma isFaithful_of_mem_ofText {s : Text} : ∀ a ∈ (Symbol.ofText s : List Piece), a.IsFaithful := by
  intro a ha
  obtain ⟨c, -, rfl⟩ := List.mem_map.mp ha
  exact isFaithful_char c

lemma sameSpaces_textOf {line : List Piece} (h : ∀ a ∈ line, a.IsFaithful) :
    SameSpaces line (textOf line) := by
  induction line with
  | nil => exact ⟨rfl, rfl, rfl⟩
  | cons a line ih =>
    obtain ⟨ha, hline⟩ := List.forall_mem_cons.mp h
    have happend : SameSpaces ([a] ++ line) (a.text ++ textOf line) := ha.append (ih hline)
    exact happend

lemma firm_part (text : Text) : Firm [part text] := firm_singleton rfl

lemma keepsParts_isFaithful : KeepsParts IsFaithful := by
  intro role interior done hinterior hdone
  have hadmits : AdmitsUnbroken IsFaithful := fun c _ => isFaithful_char c
  have hpieces := hadmits.part? hinterior hdone
  have hfirm := BracketRole.firm_of_part? hdone
  exact ((firm_part (textOf done)).sameSpaces hfirm).trans (sameSpaces_textOf hpieces)

variable {previous : Option Piece}

lemma sameSpaces_ofPair (pair : BracketPair Piece) :
    SameSpaces (pair.before ++ pair.whole) (ofPair previous pair).1 := by
  have hwhole : Firm pair.whole := firm_whole pair.before pair.interior
  unfold ofPair
  dsimp only
  split
  · next done hdone =>
    have hpart := hwhole.sameSpaces (firm_part (textOf done))
    split_ifs with hrole
    · -- The mark of an array literal goes with the pair behind it.
      have hlast := eq_at_of_roleBehind hrole
      rcases List.eq_nil_or_concat pair.before with hnil | ⟨init, a, hbefore⟩
      · rw [hnil]
        exact hpart
      · rw [List.concat_eq_append] at hbefore
        rw [hbefore, List.getLast?_concat] at hlast
        obtain rfl : a = .char '@' := by simpa using hlast
        have hat : Firm ([Piece.char '@'] ++ [] ++ pair.whole) :=
          (firm_sign (c := '@') (by decide)).append [] hwhole
        rw [hbefore, List.dropLast_concat, List.append_assoc]
        exact (SameSpaces.refl init).append (hat.sameSpaces (firm_part _))
    · exact (SameSpaces.refl _).append hpart
  · exact .refl _

lemma sameSpaces_ofPairs (previous : Option Piece) (pairs : List (BracketPair Piece)) :
    SameSpaces (pairs.flatMap fun pair => pair.before ++ pair.whole) (ofPairs previous pairs).1 := by
  induction pairs generalizing previous with
  | nil => exact .refl []
  | cons pair pairs ih => exact (sameSpaces_ofPair pair).append (ih _)

lemma sameSpaces_pass (line : List Piece) : SameSpaces line (pass line).1 := by
  have hpass := (sameSpaces_ofPairs none (Bracketed.ofText line).pairs).append
    (.refl (Bracketed.ofText line).tail)
  rw [← Bracketed.toText, Bracketed.toText_ofText] at hpass
  exact hpass

lemma Settles.sameSpaces {line line' : List Piece} (h : Settles line line') :
    SameSpaces line line' := by
  induction h with
  | done _ => exact sameSpaces_pass _
  | again _ _ ih => exact (sameSpaces_pass _).trans ih

/-! ### Behind a sign -/

/-- It is the same for a pair whether the piece behind which it stands belongs to it. -/
lemma ofPair_cons {a : Piece} (hrole : roleBehind (some a) ≠ .literal) (pair : BracketPair Piece) :
    ofPair none { pair with before := a :: pair.before } =
      (a :: (ofPair (some a) pair).1, (ofPair (some a) pair).2) := by
  by_cases hbefore : pair.before = []
  · have hwhole : BracketPair.whole { pair with before := [a] } = pair.whole := rfl
    have hlast : (([a] : List Piece).getLast? <|> none) = some a := rfl
    have hnone : (([] : List Piece).getLast? <|> some a) = some a := rfl
    unfold ofPair
    rw [hbefore]
    dsimp only
    rw [hwhole, hlast, hnone, if_neg hrole, if_neg hrole]
    split <;> rfl
  · have hcons := ofPair_of_before none [a] hbefore
    have hprevious := ofPair_of_before (some a) [] hbefore
    simp only [List.nil_append, List.singleton_append] at hcons hprevious
    rw [hcons, hprevious]

/-- A piece that is no quote, no bracket and no mark of an array literal stays where it is. -/
lemma exists_pass_cons {a : Piece} (ha : Plain [a]) (hrole : roleBehind (some a) ≠ .literal)
    (s : List Piece) : ∃ t, (pass (a :: s)).1 = a :: t ∧ SameSpaces s t := by
  have htext := Bracketed.toText_ofText s
  rw [pass, ← List.singleton_append, Bracketed.ofText_append ha]
  generalize Bracketed.ofText s = cut at htext
  obtain ⟨_ | ⟨pair, pairs⟩, tail⟩ := cut
  · exact ⟨tail, rfl, by rw [← htext]; exact .refl _⟩
  · have hpairs := (sameSpaces_ofPairs (some a) (pair :: pairs)).append (.refl tail)
    refine ⟨_, ?_, by rw [← htext]; exact hpairs⟩
    simp [Bracketed.prepend, ofPairs, ofPair_cons hrole]

lemma Settles.exists_cons {a : Piece} (ha : Plain [a]) (hrole : roleBehind (some a) ≠ .literal)
    {s line' : List Piece} (h : Settles (a :: s) line') :
    ∃ t, line' = a :: t ∧ SameSpaces s t := by
  generalize hline : a :: s = line at h
  induction h generalizing s with
  | done _ =>
    subst hline
    exact exists_pass_cons ha hrole s
  | again _ _ ih =>
    subst hline
    obtain ⟨t, ht, hspaces⟩ := exists_pass_cons ha hrole s
    obtain ⟨u, hu, hspaces'⟩ := ih ht.symm
    exact ⟨u, hu, hspaces.trans hspaces'⟩

end Piece

/-! ### Texts -/

lemma sameSpaces_ofText (s : Text) : SameSpaces s (Symbol.ofText s : List α) := by
  constructor
  · simp [Symbol.ofText, Function.comp_def, isSpace_ofChar]
  · simp [Symbol.ofText, Function.comp_def, isSpace_ofChar]
  · simp [Symbol.ofText, Function.comp_def, isSpace_ofChar]

/-- A text has the same white space at its ends when its sends are converted. -/
theorem sameSpaces_collapseSends {line : Text} (hmark : Cell.markOpen ∉ line) :
    SameSpaces line (collapseSends line) := by
  obtain ⟨done, hsettles, heq⟩ := collapseSends_eq_textOf hmark
  have hfaithful := hsettles.forall Piece.keepsParts_isFaithful Piece.isFaithful_of_mem_ofText
  rw [heq]
  exact ((sameSpaces_ofText line).trans hsettles.sameSpaces).trans
    (Piece.sameSpaces_textOf hfaithful)

/-- A sign that is no quote, no bracket and no mark of an array literal stays in front. -/
theorem exists_collapseSends_cons {c : Char} (hc : Plain [c]) (hat : c ≠ '@') {s : Text}
    (hmark : Cell.markOpen ∉ c :: s) :
    ∃ t, collapseSends (c :: s) = c :: t ∧ SameSpaces s t := by
  obtain ⟨done, hsettles, heq⟩ := collapseSends_eq_textOf hmark
  have hplain : Plain [Piece.char c] := plain_ofText.mpr hc
  have hrole : Piece.roleBehind (some (.char c)) ≠ .literal := by
    intro hrole
    exact hat (by simpa using Piece.eq_at_of_roleBehind hrole)
  obtain ⟨t, rfl, hspaces⟩ := hsettles.exists_cons hplain hrole
  have hfaithful := hsettles.forall Piece.keepsParts_isFaithful Piece.isFaithful_of_mem_ofText
  exact ⟨Piece.textOf t, heq, ((sameSpaces_ofText s).trans hspaces).trans
    (Piece.sameSpaces_textOf (List.forall_mem_cons.mp hfaithful).2)⟩

end Swiftward
