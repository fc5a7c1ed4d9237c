import Swiftward.MessageSend.Fragment
import Swiftward.Proofs.MessageSend.Resolve
import Swiftward.Proofs.Text.Rewording

/-!
# What calls are made of

A call is what stood between the brackets with some stretches written anew: selector and keywords,
the punctuation around them, and white space. All of this is made of a small class of characters, to
which no quote, no brace and no reserved character belongs (`respells_of_resolveSend`).
-/

namespace Swiftward

/-! ### Lower-case forms -/

/-- Whether a character is a lower-case letter of ASCII, or one that no stage looks for. -/
def isLowerForm (c : Char) : Bool :=
  c.isLower || c.toNat == 0 || (decide (127 < c.toNat) && c != Cell.markOpen)

lemma forall_lowercaseShifts : ∀ entry ∈ Unicode.lowercaseShifts,
    127 < (entry.1.first : Int) + entry.2 ∧
        ((entry.1.last : Int) + entry.2 < 0xE000 ∨ 0xE000 < (entry.1.first : Int) + entry.2) ∨
      entry.1.first = entry.1.last ∧ (Char.ofNat (entry.1.first + entry.2).toNat).isLower = true := by
  decide +kernel

/-- A number that is no code point gives the first character of all. -/
lemma toNat_ofNat_or (n : Nat) : (Char.ofNat n).toNat = n ∨ (Char.ofNat n).toNat = 0 := by
  by_cases hvalid : n.isValidChar
  · exact .inl (congrArg Char.toNat (dif_pos hvalid))
  · exact .inr (congrArg Char.toNat (dif_neg hvalid))

lemma isLowerForm_ofNat {n : Nat} (h : 127 < n) (hne : n ≠ 0xE000) : isLowerForm (Char.ofNat n) = true := by
  rcases toNat_ofNat_or n with hn | hn
  · have hmark : Char.ofNat n ≠ Cell.markOpen := by
      intro heq
      rw [heq] at hn
      exact hne hn.symm
    simp [isLowerForm, hn, h, hmark]
  · simp [isLowerForm, hn]

/-- In lower case, a character stays or becomes one that no stage looks for. -/
lemma eq_or_isLowerForm_of_mem_lowercase {c d : Char} (h : d ∈ Unicode.lowercase c) :
    d = c ∨ isLowerForm d = true := by
  unfold Unicode.lowercase at h
  split at h
  · next hascii =>
    have hall : ∀ n : Fin 128, (Char.ofNat n).toLower = Char.ofNat n ∨
        isLowerForm (Char.ofNat n).toLower = true := by decide
    have hlower := hall ⟨c.toNat, hascii⟩
    rw [Char.ofNat_toNat] at hlower
    rwa [List.mem_singleton.mp h]
  · split at h
    · have hall : ['i', '\u0307'].all isLowerForm = true := by decide
      exact .inr (List.all_eq_true.mp hall d h)
    · split at h
      · next entry shift hfind =>
        obtain rfl := List.mem_singleton.mp h
        have hcontains := List.find?_some hfind
        simp only [Unicode.SteppedRange.contains, Bool.and_eq_true, decide_eq_true_eq] at hcontains
        right
        rcases forall_lowercaseShifts _ (List.mem_of_find?_eq_some hfind) with hlarge | ⟨hone, hlower⟩
        · simp only at hlarge
          apply isLowerForm_ofNat <;> omega
        · simp only at hone hlower
          have hc : c.toNat = entry.first := by omega
          simp [isLowerForm, hc, hlower]
      · exact .inl (List.mem_singleton.mp h)

/-! ### Texts of calls -/

/-- Whether a character may stand in what is written anew for a call. -/
def isCallChar (c : Char) : Bool :=
  Unicode.isWord c || isSpace c || isLowerForm c || ".(:,)".toList.contains c

/-- The text is made of characters that may stand in what is written anew for a call. -/
def IsCallText (s : Text) : Prop := ∀ c ∈ s, isCallChar c = true

instance (s : Text) : Decidable (IsCallText s) :=
  List.decidableBAll (fun c => isCallChar c = true) s

lemma isCallText_nil : IsCallText [] := by simp [IsCallText]

lemma IsCallText.append {s t : Text} (hs : IsCallText s) (ht : IsCallText t) :
    IsCallText (s ++ t) :=
  List.forall_mem_append.mpr ⟨hs, ht⟩

lemma isCallText_word {s : Text} (h : ∀ c ∈ s, Unicode.isWord c = true) : IsCallText s := by
  intro c hc
  simp [isCallChar, h c hc]

lemma isCallText_space {s : Text} (h : ∀ c ∈ s, isSpace c = true) : IsCallText s := by
  intro c hc
  simp [isCallChar, h c hc]

lemma IsCallText.after? {lead : String} {s rest : Text} (hs : IsCallText s)
    (h : after? lead s = some rest) : IsCallText rest := by
  rw [after?_eq_some_iff.mp h] at hs
  exact (List.forall_mem_append.mp hs).2

lemma IsCallText.downcaseFirst {word : Text} (h : IsCallText word) :
    IsCallText (downcaseFirst word) := by
  unfold Swiftward.downcaseFirst
  split
  · exact h
  · split
    · exact h
    · obtain ⟨hfirst, hrest⟩ := List.forall_mem_cons.mp h
      refine .append ?_ hrest
      intro d hd
      rcases eq_or_isLowerForm_of_mem_lowercase hd with rfl | hform
      · exact hfirst
      · simp [isCallChar, hform]

lemma IsCallText.callHead {first : Text} (h : IsCallText first) :
    IsCallText (MessageSend.callHead first) := by
  unfold MessageSend.callHead
  split
  · have hdot : IsCallText ['.'] := by decide
    exact (hdot.append h).append (by decide)
  · next rest hinit =>
    split
    · next c label hwith =>
      have hparenthesis : IsCallText ['('] := by decide
      have hlabel : IsCallText (c :: label) := (h.after? hinit).after? hwith
      exact (hparenthesis.append hlabel.downcaseFirst).append (by decide)
    · decide

/-! ### Stretches written anew -/

variable {α : Type} [Symbol α]

/-- The second list is the first with stretches written anew, all of them texts of calls. -/
inductive Respells : List α → List α → Prop
  | nil : Respells [] []
  | keep (a : α) {s t : List α} (h : Respells s t) : Respells (a :: s) (a :: t)
  | write {u v : Text} (hu : IsCallText u) (hv : IsCallText v) {s t : List α} (h : Respells s t) :
      Respells (Symbol.ofText u ++ s) (Symbol.ofText v ++ t)

namespace Respells

variable {s s' t t' : List α}

lemma append (h : Respells s t) (h' : Respells s' t') : Respells (s ++ s') (t ++ t') := by
  induction h with
  | nil => exact h'
  | keep a _ ih => exact .keep a ih
  | write hu hv _ ih =>
    rw [List.append_assoc, List.append_assoc]
    exact .write hu hv ih

lemma refl (s : List α) : Respells s s := by
  induction s with
  | nil => exact .nil
  | cons a s ih => exact .keep a ih

lemma of_texts {u v : Text} (hu : IsCallText u) (hv : IsCallText v) :
    Respells (Symbol.ofText u : List α) (Symbol.ofText v) := by
  have h : Respells (Symbol.ofText u ++ [] : List α) (Symbol.ofText v ++ []) := .write hu hv .nil
  rwa [List.append_nil, List.append_nil] at h

/-- What becomes of the trimmed text is what becomes of the text. -/
lemma of_trim (h : Respells (Swiftward.trim s) t) : Respells s t := by
  obtain ⟨u, v, hu, hv, heq⟩ := exists_trim s
  have h := ((of_texts (isCallText_space hu) isCallText_nil).append h).append
    (of_texts (isCallText_space hv) isCallText_nil)
  rwa [← heq, Symbol.ofText_nil, List.append_nil] at h

lemma trim (s : List α) : Respells s (Swiftward.trim s) := of_trim (refl _)

end Respells

/-! ### The parts of a send -/

/-- A keyword with the text behind it, as it stands in a text. -/
def keywordText (k : Text × List α) : List α := Symbol.ofText (k.1 ++ [':']) ++ k.2

/-- Nothing is lost when a text is cut at its keywords, each of which is a word. -/
lemma cutAtKeywords_eq {tokens : List (Token α)} (hwords : Token.WellFormed tokens) (q : Quoting) :
    Token.textOf tokens =
        (cutAtKeywords q tokens).1 ++ (cutAtKeywords q tokens).2.flatMap keywordText ∧
      ∀ k ∈ (cutAtKeywords q tokens).2, ∀ c ∈ k.1, Unicode.isWord c = true := by
  fun_induction cutAtKeywords q tokens with
  | case1 q => simp
  | case2 q a rest lead keywords heq ih =>
    obtain ⟨htext, hkeywords⟩ := ih hwords.tail
    rw [heq] at htext hkeywords
    exact ⟨by rw [Token.textOf_cons, htext]; rfl, hkeywords⟩
  | case3 q w a rest lead keywords heq hcolon ih =>
    obtain ⟨rfl, rfl⟩ := Quoting.bare_iff.mp hcolon
    obtain ⟨htext, hkeywords⟩ := ih hwords.tail.tail
    rw [heq] at htext hkeywords
    constructor
    · rw [Token.textOf_cons, Token.textOf_cons, htext]
      simp [Token.toText, keywordText, Symbol.ofText]
    · exact List.forall_mem_cons.mpr ⟨hwords w (by simp), hkeywords⟩
  | case4 q w a rest lead keywords heq hcolon ih =>
    obtain ⟨htext, hkeywords⟩ := ih hwords.tail.tail
    rw [heq] at htext hkeywords
    refine ⟨?_, hkeywords⟩
    rw [Token.textOf_cons, Token.textOf_cons, htext]
    simp [Token.toText]
  | case5 q w rest hrest lead keywords heq ih =>
    obtain ⟨htext, hkeywords⟩ := ih hwords.tail
    rw [heq] at htext hkeywords
    refine ⟨?_, hkeywords⟩
    rw [Token.textOf_cons, htext]
    simp [Token.toText]

namespace MessageSend

/-- The text of a single word. -/
lemma eq_of_word? {s : List α} {w : Text} (h : word? s = some w) :
    s = Symbol.ofText w ∧ ∀ c ∈ w, Unicode.isWord c = true := by
  unfold word? at h
  split at h
  · next v htokens =>
    obtain rfl : v = w := by simpa using h
    constructor
    · rw [← Token.textOf_ofText s, htokens]
      simp [Token.toText]
    · exact (Token.isWord_of_mem_ofText (s := s) (w := v) (by simp [htokens])).2
  · simp at h

lemma keyword?_cases {s : List α} {send : MessageSend α} (h : keyword? s = some send) :
    ∃ first argument more, (cutAtKeywords .code (Token.ofText s)).2 = (first, argument) :: more ∧
      send = .keyword (trim (cutAtKeywords .code (Token.ofText s)).1) first (trim argument)
        (more.map fun (k, argument) => (k, trim argument)) := by
  simp only [keyword?] at h
  generalize hmap : (cutAtKeywords .code (Token.ofText s)).2.map (fun (k, argument) =>
    (k, trim argument)) = keywords at h
  split at h
  · simp at h
  · simp at h
  · simp at h
  · next first argument more _ _ =>
    split at h
    · simp at h
    · obtain ⟨⟨k, text⟩, rest, hrest, heq, hmore⟩ := List.map_eq_cons_iff.mp hmap
      simp only [Prod.mk.injEq] at heq
      obtain ⟨rfl, rfl⟩ := heq
      exact ⟨k, text, rest, hrest, by rw [← Option.some.inj h, ← hmore]⟩

/-- A call is its receiver, followed by a stretch written anew. -/
lemma exists_render_unary (receiver : List α) {selector : Text} (h : IsCallText selector) :
    ∃ v : Text, IsCallText v ∧ (unary receiver selector).render = receiver ++ Symbol.ofText v := by
  by_cases halloc : selector = "alloc".toList
  · exact ⟨[], isCallText_nil, by rw [render, if_pos halloc, Symbol.ofText_nil, List.append_nil]⟩
  · by_cases hinit : selector = "init".toList
    · exact ⟨"()".toList, by decide, by rw [render, if_neg halloc, if_pos hinit]⟩
    · have hdot : IsCallText ['.'] := by decide
      exact ⟨'.' :: selector ++ "()".toList, (hdot.append h).append (by decide),
        by rw [render, if_neg halloc, if_neg hinit]⟩

lemma unary?_cases {s : List α} {send : MessageSend α} (h : unary? s = some send) :
    ∃ (receiver : List α) (gap selector : Text), s = receiver ++ Symbol.ofText (gap ++ selector) ∧
      (∀ c ∈ gap, isSpace c = true) ∧ (∀ c ∈ selector, Unicode.isWord c = true) ∧
      send = unary receiver selector := by
  simp only [unary?] at h
  split at h
  · next a selector hlast hword =>
    split at h
    · simp at h
    · obtain ⟨hselector, hchars⟩ := eq_of_word? hword
      obtain ⟨gap, hgap, hrest⟩ := exists_trimStart (s.dropWhile (!isSpace ·))
      refine ⟨s.takeWhile (!isSpace ·), gap, selector, ?_, hgap, hchars, (Option.some.inj h).symm⟩
      rw [Symbol.ofText_append, ← hselector, ← hrest, List.takeWhile_append_dropWhile]
  · simp at h

lemma respells_of_unary? {s : List α} {send : MessageSend α} (h : unary? s = some send) :
    Respells s send.render := by
  obtain ⟨receiver, gap, selector, rfl, hgap, hselector, rfl⟩ := unary?_cases h
  have hword := isCallText_word hselector
  obtain ⟨v, hv, hrender⟩ := exists_render_unary receiver hword
  rw [hrender]
  exact (Respells.refl receiver).append (.of_texts ((isCallText_space hgap).append hword) hv)

/-- Keywords as they stand in a text become labels. -/
lemma respells_labelled {more : List (Text × List α)} (h : ∀ k ∈ more, IsCallText k.1) :
    Respells (more.flatMap keywordText)
      ((more.map fun (k, argument) => (k, trim argument)).flatMap labelled) := by
  induction more with
  | nil => exact .nil
  | cons k more ih =>
    obtain ⟨hkeyword, hmore⟩ := List.forall_mem_cons.mp h
    obtain ⟨keyword, argument⟩ := k
    have hcomma : IsCallText ", ".toList := by decide
    have hlabel : Respells (Symbol.ofText (keyword ++ [':']) : List α)
        (Symbol.ofText (", ".toList ++ keyword ++ ": ".toList)) :=
      .of_texts (.append hkeyword (by decide)) ((hcomma.append hkeyword).append (by decide))
    exact (hlabel.append (.trim argument)).append (ih hmore)

lemma respells_of_keyword? {s : List α} {send : MessageSend α} (h : keyword? s = some send) :
    Respells s send.render := by
  obtain ⟨htext, hkeywords⟩ := cutAtKeywords_eq (Token.wellFormed_ofText s) .code
  obtain ⟨first, argument, more, heq, rfl⟩ := keyword?_cases h
  rw [heq] at hkeywords
  obtain ⟨hword, hmore⟩ := List.forall_mem_cons.mp hkeywords
  have hfirst : IsCallText first := isCallText_word hword
  have hhead : Respells (Symbol.ofText (first ++ [':']) : List α) (Symbol.ofText (callHead first)) :=
    .of_texts (hfirst.append (by decide)) hfirst.callHead
  have hclose : Respells (Symbol.ofText [] : List α) (Symbol.ofText [')']) :=
    .of_texts isCallText_nil (by decide)
  have hlead : Respells (cutAtKeywords .code (Token.ofText s)).1 _ := .trim _
  have hlabels := respells_labelled fun k hk => isCallText_word (hmore k hk)
  have hcall := (((hlead.append hhead).append (.trim argument)).append hlabels).append hclose
  rw [Token.textOf_ofText, heq, List.flatMap_cons, keywordText] at htext
  simp only [List.append_assoc, Symbol.ofText_nil, List.append_nil] at htext hcall
  rw [← htext] at hcall
  simpa [render] using hcall

end MessageSend

/-- A call is what stood between the brackets with some stretches written anew. -/
theorem respells_of_resolveSend {s call : List α} (h : resolveSend s = some call) :
    Respells s call := by
  obtain ⟨send, hsend, rfl⟩ := Option.map_eq_some_iff.mp h
  apply Respells.of_trim
  simp only [MessageSend.parse?, Option.orElse_eq_orElse, Option.orElse_eq_or,
    Option.or_eq_some_iff] at hsend
  rcases hsend with hunary | ⟨-, hkeyword⟩
  · exact MessageSend.respells_of_unary? hunary
  · exact MessageSend.respells_of_keyword? hkeyword

end Swiftward
