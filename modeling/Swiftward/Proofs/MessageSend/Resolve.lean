import Mathlib.Data.List.TakeWhile
import Swiftward.Proofs.Text.Closed
import Swiftward.Proofs.Text.Token
import Swiftward.Proofs.Text.Trim

/-!
# Sends that are resolved

The interior of a pair of brackets is resolved to a call exactly as it was written if receiver and
arguments are *operands*: trimmed, with all their literals closed, and with neither a square
bracket nor a keyword outside them (`resolveSend_keywords`, `resolveSend_unary`).
-/

namespace Swiftward

variable {α : Type} [Symbol α]

/-! ### Cutting at keywords -/

/-- Word characters do not change the state outside literals. -/
lemma closed_word {w : Text} (hw : ∀ c ∈ w, Unicode.isWord c = true) : Closed w := by
  apply closed_of_forall_isUnquoted
  intro c hc
  exact isUnquoted_of_isWord (hw c hc)

/-- Whether a keyword ends in a text that is read in state `q`: a colon outside literals, right behind
a word. The text itself may stand behind a word. -/
def hasKeywordFrom (q : Quoting) (behindWord : Bool) : List α → Bool
  | [] => false
  | a :: s => behindWord && q.bare ':' a || hasKeywordFrom (q.step a) (isWord a) s

/-- Whether there is a keyword in a text. -/
def hasKeyword (s : List α) : Bool := hasKeywordFrom .code false s

lemma hasKeywordFrom_of_colonless {q : Quoting} {s : List α} (behindWord : Bool)
    (h : hasBareFrom ':' q s = false) : hasKeywordFrom q behindWord s = false := by
  induction s generalizing q behindWord with
  | nil => rfl
  | cons a s ih =>
    simp only [hasBareFrom, Bool.or_eq_false_iff] at h
    rw [hasKeywordFrom, h.1, ih _ h.2, Bool.and_false]
    rfl

/-- What is no keyword behind a word is none anywhere else. -/
lemma hasKeywordFrom_of_behindWord {q : Quoting} {s : List α} {behindWord : Bool}
    (h : hasKeywordFrom q behindWord s = false) : hasKeywordFrom q false s = false := by
  cases s with
  | nil => rfl
  | cons a s =>
    rw [hasKeywordFrom, Bool.or_eq_false_iff] at h
    rw [hasKeywordFrom, h.2]
    rfl

lemma hasKeywordFrom_word {q : Quoting} (behindWord : Bool) {w : Text} (hne : w ≠ [])
    (hw : ∀ c ∈ w, Unicode.isWord c = true) (s : List α) :
    hasKeywordFrom q behindWord (Symbol.ofText w ++ s) = hasKeywordFrom (q.run w) true s := by
  induction w generalizing q behindWord with
  | nil => exact absurd rfl hne
  | cons c w ih =>
    obtain ⟨hc, hw⟩ := List.forall_mem_cons.mp hw
    have hbare : q.bare ':' (Symbol.ofChar c : α) = false := by
      rw [Quoting.bare_ofChar, Quoting.bare, isChar_eq_false hc (by decide), Bool.and_false]
    have hstep : q.step (Symbol.ofChar c : α) = q.step c := by simp [Quoting.step]
    have hword : isWord (Symbol.ofChar c : α) = true := by simpa [isWord] using hc
    have hcons : hasKeywordFrom q behindWord (Symbol.ofText (c :: w) ++ s) =
        hasKeywordFrom (q.step c) true (Symbol.ofText w ++ s) := by
      rw [Symbol.ofText, List.map_cons, List.cons_append, hasKeywordFrom, hbare, hstep, hword,
        Bool.and_false, Bool.false_or]
      rfl
    rw [hcons, Quoting.run_cons]
    cases w with
    | nil => rfl
    | cons d w => exact ih true (List.cons_ne_nil d w) hw

/-- A word that is no keyword belongs to what stands behind the last keyword. -/
lemma cutAtKeywords_word {q : Quoting} (w : Text) {tokens : List (Token α)}
    (h : ∀ a, tokens.head? = some (.other a) → q.bare ':' a = false) :
    cutAtKeywords q (.word w :: tokens) =
      (Symbol.ofText w ++ (cutAtKeywords (q.run w) tokens).1,
        (cutAtKeywords (q.run w) tokens).2) := by
  rcases tokens with _ | ⟨v | a, tokens⟩
  · rfl
  · rfl
  · simp [cutAtKeywords, h a rfl]

/-- Tokens without a keyword are passed over, unless a colon follows. -/
lemma cutAtKeywords_append {q : Quoting} {tokens more : List (Token α)}
    (hwords : ∀ w, .word w ∈ tokens → w ≠ [] ∧ ∀ c ∈ w, Unicode.isWord c = true)
    (hnone : hasKeywordFrom q false (Token.textOf tokens) = false)
    (hmore : ∀ a, more.head? = some (.other a) → isChar ':' a = false) :
    cutAtKeywords q (tokens ++ more) =
      (Token.textOf tokens ++ (cutAtKeywords (q.run (Token.textOf tokens)) more).1,
        (cutAtKeywords (q.run (Token.textOf tokens)) more).2) := by
  fun_induction cutAtKeywords q tokens with
  | case1 q => simp
  | case2 q a rest lead keywords heq ih =>
    have hrest : ∀ w, .word w ∈ rest → w ≠ [] ∧ ∀ c ∈ w, Unicode.isWord c = true :=
      fun w hw => hwords w (List.mem_cons_of_mem _ hw)
    simp only [Token.textOf_cons, Token.toText, List.singleton_append, hasKeywordFrom,
      Bool.or_eq_false_iff] at hnone
    rw [List.cons_append, cutAtKeywords, ih hrest (hasKeywordFrom_of_behindWord hnone.2)]
    simp [Token.toText]
  | case3 q w a rest lead keywords heq hcolon ih =>
    -- the colon would stand outside literals
    exfalso
    obtain ⟨rfl, -⟩ := Quoting.bare_iff.mp hcolon
    obtain ⟨hne, hw⟩ := hwords w (by simp)
    rw [Token.textOf_cons, Token.toText, hasKeywordFrom_word _ hne hw, closed_word hw] at hnone
    simp [Token.toText, hasKeywordFrom, hcolon] at hnone
  | case4 q w a rest lead keywords heq hcolon ih =>
    obtain ⟨hne, hw⟩ := hwords w (by simp)
    have hrest : ∀ w, .word w ∈ rest → w ≠ [] ∧ ∀ c ∈ w, Unicode.isWord c = true :=
      fun w hw => hwords w (by simp [hw])
    rw [Token.textOf_cons, Token.toText, hasKeywordFrom_word _ hne hw] at hnone
    simp only [Token.textOf_cons, Token.toText, List.singleton_append, hasKeywordFrom,
      Bool.or_eq_false_iff] at hnone
    rw [List.cons_append, List.cons_append, cutAtKeywords,
      ih hrest (hasKeywordFrom_of_behindWord hnone.2)]
    simp [Token.toText, hcolon, Quoting.run_ofText]
  | case5 q w rest hother lead keywords heq ih =>
    obtain ⟨hne, hw⟩ := hwords w (by simp)
    have hrest : ∀ w, .word w ∈ rest → w ≠ [] ∧ ∀ c ∈ w, Unicode.isWord c = true :=
      fun w hw => hwords w (List.mem_cons_of_mem _ hw)
    rw [Token.textOf_cons, Token.toText, hasKeywordFrom_word _ hne hw] at hnone
    have ih := ih hrest (hasKeywordFrom_of_behindWord hnone)
    have hhead : ∀ a, (rest ++ more).head? = some (.other a) → q.bare ':' a = false := by
      rcases rest with _ | ⟨v | a, rest⟩
      · intro a ha
        simp [Quoting.bare, hmore a ha]
      · simp
      · exact absurd rfl (hother a rest)
    rw [List.cons_append, cutAtKeywords_word w hhead, ih]
    simp [Token.toText, Quoting.run_ofText]

/-- A stretch without a keyword is passed over. -/
lemma cutAtKeywords_ofText {s t : List α} (hs : Closed s) (hnone : hasKeyword s = false)
    (ht : ∀ a ∈ t.head?, isWord a = false ∧ isChar ':' a = false) :
    cutAtKeywords .code (Token.ofText (s ++ t)) =
      (s ++ (cutAtKeywords .code (Token.ofText t)).1, (cutAtKeywords .code (Token.ofText t)).2) := by
  have hmore (a : α) (ha : (Token.ofText t).head? = some (.other a)) : isChar ':' a = false := by
    cases t with
    | nil => simp at ha
    | cons b t =>
      obtain ⟨hword, hcolon⟩ := ht b rfl
      rw [Token.ofText_cons, Token.cons_of_not_isWord hword] at ha
      obtain rfl : b = a := by simpa using ha
      exact hcolon
  have hword : ∀ a ∈ t.head?, isWord a = false := by
    intro a ha
    exact (ht a ha).1
  rw [Token.ofText_append (.inr hword), cutAtKeywords_append
    (fun w hw => Token.isWord_of_mem_ofText hw) (by rwa [Token.textOf_ofText]) hmore,
    Token.textOf_ofText, hs]

/-! ### Operands -/

/-- A trimmed stretch of text, with its literals closed, that has neither a square bracket nor a
keyword outside them. -/
structure IsOperand (s : List α) : Prop where
  ne_nil : s ≠ []
  trimmed : Trimmed s
  plain : Plain s
  keywordless : hasKeyword s = false

instance (s : List α) [DecidableEq α] : Decidable (IsOperand s) :=
  decidable_of_iff (s ≠ [] ∧ Trimmed s ∧ Plain s ∧ hasKeyword s = false)
    ⟨fun ⟨hne, ht, hp, hk⟩ => ⟨hne, ht, hp, hk⟩, fun ⟨hne, ht, hp, hk⟩ => ⟨hne, ht, hp, hk⟩⟩

/-- A keyword that an argument follows. -/
structure IsKeyword (k : Text × List α) : Prop where
  ne_nil : k.1 ≠ []
  isWord : ∀ c ∈ k.1, Unicode.isWord c = true
  argument : IsOperand k.2

/-- Keywords and arguments as they are written behind a receiver. -/
def writeKeywords (keywords : List (Text × List α)) : List α :=
  keywords.flatMap fun (k, argument) =>
    Symbol.ofChar ' ' :: Symbol.ofText k ++ Symbol.ofChar ':' :: argument

lemma writeKeywords_cons (k : Text) (argument : List α) (more : List (Text × List α)) :
    writeKeywords ((k, argument) :: more) =
      Symbol.ofChar ' ' :: (Symbol.ofText k ++ Symbol.ofChar ':' :: (argument ++
        writeKeywords more)) := by
  simp [writeKeywords]

lemma isSpace_space : isSpace (Symbol.ofChar ' ' : α) = true := by
  simp only [isSpace, Symbol.satisfies_ofChar]
  decide

lemma isWord_ofChar (c : Char) : isWord (Symbol.ofChar c : α) = Unicode.isWord c := by
  simp [isWord]

lemma cutAtKeywords_space (s : List α) :
    cutAtKeywords .code (Token.ofText (Symbol.ofChar ' ' :: s)) =
      (Symbol.ofChar ' ' :: (cutAtKeywords .code (Token.ofText s)).1,
        (cutAtKeywords .code (Token.ofText s)).2) := by
  have hword : isWord (Symbol.ofChar ' ' : α) = false := by
    rw [isWord_ofChar]
    decide
  have hstep : Quoting.code.step (Symbol.ofChar ' ' : α) = .code := by
    apply Quoting.step_code_of_isUnquoted
    simp [isUnquoted, isChar]
  rw [Token.ofText_cons, Token.cons_of_not_isWord hword, cutAtKeywords, hstep]

lemma cutAtKeywords_keyword {k : Text} (hne : k ≠ []) (hk : ∀ c ∈ k, Unicode.isWord c = true)
    (s : List α) :
    cutAtKeywords .code (Token.ofText (Symbol.ofText k ++ Symbol.ofChar ':' :: s)) =
      ([], (k, (cutAtKeywords .code (Token.ofText s)).1) ::
        (cutAtKeywords .code (Token.ofText s)).2) := by
  have hword : isWord (Symbol.ofChar ':' : α) = false := by
    rw [isWord_ofChar]
    decide
  have hcolon : Quoting.code.bare ':' (Symbol.ofChar ':' : α) = true := Quoting.bare_iff.mpr ⟨rfl, rfl⟩
  have hrun : (Quoting.code.run k).step (Symbol.ofChar ':' : α) = .code := by
    rw [closed_word hk]
    apply Quoting.step_code_of_isUnquoted
    simp [isUnquoted, isChar]
  rw [Token.ofText_append (.inr (by simpa using hword)), Token.ofText_word hne hk, Token.ofText_cons,
    Token.cons_of_not_isWord hword, List.singleton_append, cutAtKeywords, hrun]
  simp [hcolon]

/-- A receiver and its keywords are found as they were written. -/
lemma cutAtKeywords_write {receiver : List α} (hr : IsOperand receiver)
    {keywords : List (Text × List α)} (hks : ∀ k ∈ keywords, IsKeyword k) :
    trim (cutAtKeywords .code (Token.ofText (receiver ++ writeKeywords keywords))).1 = receiver ∧
      (cutAtKeywords .code (Token.ofText (receiver ++ writeKeywords keywords))).2.map
        (fun (k, argument) => (k, trim argument)) = keywords := by
  induction keywords generalizing receiver with
  | nil =>
    rw [writeKeywords, List.flatMap_nil,
      cutAtKeywords_ofText hr.plain.closed hr.keywordless (by simp)]
    simp [cutAtKeywords, hr.trimmed.trim]
  | cons keyword more ih =>
    obtain ⟨k, argument⟩ := keyword
    obtain ⟨hk, hmore⟩ := List.forall_mem_cons.mp hks
    obtain ⟨htrim, hmap⟩ := ih hk.argument hmore
    rw [writeKeywords_cons, cutAtKeywords_ofText hr.plain.closed hr.keywordless,
      cutAtKeywords_space, cutAtKeywords_keyword hk.ne_nil hk.isWord]
    · refine ⟨hr.trimmed.trim_append_space isSpace_space, ?_⟩
      simp only [List.map_cons, htrim, hmap]
    · simp only [List.head?_cons, Option.mem_some_iff, forall_eq', isWord_ofChar]
      exact ⟨by decide, by simp [isChar]⟩

lemma trimmed_write {receiver : List α} (hr : IsOperand receiver)
    {keywords : List (Text × List α)} (hks : ∀ k ∈ keywords, IsKeyword k) :
    Trimmed (receiver ++ writeKeywords keywords) := by
  rcases List.eq_nil_or_concat keywords with rfl | ⟨init, ⟨k, argument⟩, rfl⟩
  · simpa [writeKeywords] using hr.trimmed
  · have hk := hks (k, argument) (by simp)
    have := hr.trimmed.append hr.ne_nil hk.argument.trimmed hk.argument.ne_nil
      (writeKeywords init ++ Symbol.ofChar ' ' :: Symbol.ofText k ++ [Symbol.ofChar ':'])
    simpa [writeKeywords] using this

lemma plain_write {receiver : List α} (hr : Plain receiver)
    {keywords : List (Text × List α)} (hks : ∀ k ∈ keywords, IsKeyword k) :
    Plain (receiver ++ writeKeywords keywords) := by
  induction keywords generalizing receiver with
  | nil => simpa [writeKeywords] using hr
  | cons keyword more ih =>
    obtain ⟨k, argument⟩ := keyword
    obtain ⟨hk, hmore⟩ := List.forall_mem_cons.mp hks
    have hkeyword : Plain (Symbol.ofChar ' ' :: Symbol.ofText k ++ [Symbol.ofChar ':'] ++ argument) :=
      ((plain_ofChar (by decide)).append (plain_ofText.mpr (plain_word hk.isWord))).append
        (plain_ofChar (by decide)) |>.append hk.argument.plain
    have := ih (hr.append hkeyword) hmore
    simpa [writeKeywords] using this

/-! ### Resolving -/

lemma mem_dropWhile_of_not {β : Type} {p : β → Bool} {s : List β} {a : β} (ha : a ∈ s)
    (hp : p a = false) : a ∈ s.dropWhile p := by
  rw [← List.takeWhile_append_dropWhile (p := p) (l := s), List.mem_append] at ha
  rcases ha with htake | hdrop
  · rw [List.mem_takeWhile_imp htake] at hp
    exact absurd hp (by decide)
  · exact hdrop

/-- A text that is no single word is no selector. -/
lemma word?_eq_none {s : List α} {a : α} (ha : a ∈ s) (hword : isWord a = false) :
    word? s = none := by
  unfold word?
  split
  · next w hw =>
    exfalso
    have htext : s = Symbol.ofText w := by
      rw [← Token.textOf_ofText s, hw]
      simp [Token.toText]
    have hchars := (Token.isWord_of_mem_ofText (s := s) (w := w) (by simp [hw])).2
    rw [htext, Symbol.ofText, List.mem_map] at ha
    obtain ⟨c, hc, rfl⟩ := ha
    rw [isWord_ofChar, hchars c hc] at hword
    exact absurd hword (by decide)
  · rfl

lemma word?_word {w : Text} (hne : w ≠ []) (hw : ∀ c ∈ w, Unicode.isWord c = true) :
    word? (Symbol.ofText w : List α) = some w := by
  rw [word?, Token.ofText_word hne hw]

/-- What stands behind a space stays when everything before the first space goes. -/
lemma suffix_dropWhile_of_not {β : Type} {p : β → Bool} {a : β} (hp : p a = false) (s t : List β) :
    a :: t <:+ (s ++ a :: t).dropWhile p := by
  induction s with
  | nil => simp [hp]
  | cons b s ih =>
    rw [List.cons_append, List.dropWhile_cons]
    split
    · exact ih
    · exact List.suffix_append (b :: s) (a :: t)

/-- A send with keywords is no send of a single selector. -/
lemma unary?_write (receiver : List α) {keywords : List (Text × List α)} (hne : keywords ≠ []) :
    MessageSend.unary? (receiver ++ writeKeywords keywords) = none := by
  obtain ⟨⟨k, argument⟩, more, rfl⟩ := List.exists_cons_of_ne_nil hne
  have hcolon : Symbol.ofChar ':' ∈
      trimStart ((receiver ++ writeKeywords ((k, argument) :: more)).dropWhile
        (!isSpace ·)) := by
    apply mem_dropWhile_of_not
    · rw [writeKeywords_cons]
      refine (suffix_dropWhile_of_not (by simp [isSpace_space]) receiver _).subset ?_
      simp
    · simp only [isSpace, Symbol.satisfies_ofChar]
      decide
  rw [MessageSend.unary?, word?_eq_none hcolon (by rw [isWord_ofChar]; decide)]
  split <;> simp_all

lemma keyword?_eq_some {s receiver argument : List α} {first : Text}
    {more : List (Text × List α)} (hs : Plain s) (hr : receiver ≠ []) (ha : argument ≠ [])
    (hlead : trim (cutAtKeywords .code (Token.ofText s)).1 = receiver)
    (hkeywords : (cutAtKeywords .code (Token.ofText s)).2.map (fun (k, argument) =>
      (k, trim argument)) = (first, argument) :: more) :
    MessageSend.keyword? s = some (.keyword receiver first argument more) := by
  simp only [MessageSend.keyword?, hlead, hkeywords, hs.bracketless]
  split <;> simp_all

/-- A receiver with keywords becomes a call, with receiver, arguments and further labels as they
were written. -/
theorem resolveSend_keywords {receiver : List α} (hr : IsOperand receiver) {first : Text}
    {argument : List α} (hfirst : IsKeyword (first, argument)) {more : List (Text × List α)}
    (hmore : ∀ k ∈ more, IsKeyword k) :
    resolveSend (receiver ++ writeKeywords ((first, argument) :: more)) =
      some (receiver ++ Symbol.ofText (MessageSend.callHead first) ++ argument ++
        more.flatMap MessageSend.labelled ++ Symbol.ofText [')']) := by
  have hks : ∀ k ∈ (first, argument) :: more, IsKeyword k :=
    List.forall_mem_cons.mpr ⟨hfirst, hmore⟩
  obtain ⟨hlead, hkeywords⟩ := cutAtKeywords_write hr hks
  have hkeyword := keyword?_eq_some (plain_write hr.plain hks) hr.ne_nil hfirst.argument.ne_nil
    hlead hkeywords
  rw [resolveSend, MessageSend.parse?, (trimmed_write hr hks).trim,
    unary?_write receiver (List.cons_ne_nil _ _), hkeyword]
  rfl

/-- An operand on its own is no send with keywords. -/
lemma keyword?_operand {s : List α} (hs : IsOperand s) : MessageSend.keyword? s = none := by
  have hcut := cutAtKeywords_ofText hs.plain.closed hs.keywordless (t := []) (by simp)
  rw [List.append_nil] at hcut
  rw [MessageSend.keyword?, hcut]
  simp only [Token.ofText_nil, cutAtKeywords, List.append_nil, List.map_nil]
  split <;> simp_all

/-- An operand that no selector follows is no send. -/
lemma resolveSend_operand {s : List α} (hs : IsOperand s) (hunary : MessageSend.unary? s = none) :
    resolveSend s = none := by
  rw [resolveSend, MessageSend.parse?, hs.trimmed.trim, hunary, keyword?_operand hs]
  rfl

/-- A receiver without white space and a selector are found as they were written. -/
lemma unary?_word {receiver : List α} (hspace : ∀ a ∈ receiver, isSpace a = false)
    {last : α} (hlast : receiver.getLast? = some last) (hcolon : isChar ':' last = false)
    (hcomma : isChar ',' last = false) {selector : Text} (hne : selector ≠ [])
    (hselector : ∀ c ∈ selector, Unicode.isWord c = true)
    (htrimmed : Trimmed (Symbol.ofText selector : List α)) :
    MessageSend.unary? (receiver ++ Symbol.ofChar ' ' :: Symbol.ofText selector) =
      some (.unary receiver selector) := by
  have hreceiver : ∀ a ∈ receiver, (!isSpace a) = true := by simpa using hspace
  rw [MessageSend.unary?, List.takeWhile_append_of_pos hreceiver,
    List.dropWhile_append_of_pos hreceiver, List.takeWhile_cons_of_neg (by simp [isSpace_space]),
    List.dropWhile_cons_of_neg (by simp [isSpace_space]), List.append_nil,
    trimStart_cons_space isSpace_space, htrimmed.trimStart]
  simp [hlast, word?_word hne hselector, hcolon, hcomma]

/-- A receiver without white space and a selector become a call. -/
theorem resolveSend_unary {receiver : List α} (hspace : ∀ a ∈ receiver, isSpace a = false)
    {last : α} (hlast : receiver.getLast? = some last) (hcolon : isChar ':' last = false)
    (hcomma : isChar ',' last = false) {selector : Text} (hne : selector ≠ [])
    (hselector : ∀ c ∈ selector, Unicode.isWord c = true)
    (htrimmed : Trimmed (Symbol.ofText selector : List α)) :
    resolveSend (receiver ++ Symbol.ofChar ' ' :: Symbol.ofText selector) =
      some (MessageSend.unary receiver selector).render := by
  have hreceiver : receiver ≠ [] := by
    rintro rfl
    simp at hlast
  have htrim : Trimmed (receiver ++ Symbol.ofChar ' ' :: Symbol.ofText selector) := by
    have := (Trimmed.of_forall hspace).append hreceiver htrimmed (by simpa [Symbol.ofText] using hne)
      [Symbol.ofChar ' ']
    simpa using this
  rw [resolveSend, MessageSend.parse?, htrim.trim,
    unary?_word hspace hlast hcolon hcomma hne hselector htrimmed]
  rfl

end Swiftward
