import Swiftward.Proofs.MessageSend.Call
import Swiftward.Proofs.Text.Paren

/-!
# Calls as rewordings

What the interior of a pair of brackets is resolved to is a rewording of it, whatever its receiver
and its arguments are: selector, keywords, colons and the white space around them hold no quote, nor
does anything that is written in their place. No parenthesis is written but those of a pair that is
put around a stretch (`shelters_of_resolveSend`).
-/

namespace Swiftward

variable {α : Type} [Symbol α]

/-! ### Stretches in parentheses -/

/-- The second list is the first with stretches written anew that have no quote and no parenthesis,
and with parentheses put around others. -/
inductive Shelters : List α → List α → Prop
  | nil : Shelters [] []
  | keep {u s t : List α} (hu : Closed u) (h : Shelters s t) : Shelters (u ++ s) (u ++ t)
  | write {u v : Text} (hu : Flat u) (hv : Flat v) {s t : List α} (h : Shelters s t) :
      Shelters (Symbol.ofText u ++ s) (Symbol.ofText v ++ t)
  | wrap {s t s' t' : List α} (hinside : Shelters s t) (h : Shelters s' t') :
      Shelters (s ++ s') (Symbol.ofText ['('] ++ t ++ Symbol.ofText [')'] ++ t')

namespace Shelters

variable {s t s' t' : List α}

lemma append (h : Shelters s t) (h' : Shelters s' t') : Shelters (s ++ s') (t ++ t') := by
  induction h with
  | nil => exact h'
  | keep hu _ ih =>
    rw [List.append_assoc, List.append_assoc]
    exact .keep hu ih
  | write hu hv _ ih =>
    rw [List.append_assoc, List.append_assoc]
    exact .write hu hv ih
  | wrap hinside _ _ ih =>
    rw [List.append_assoc, List.append_assoc]
    exact .wrap hinside ih

lemma refl (hs : Closed s) : Shelters s s := by
  have h : Shelters (s ++ []) (s ++ []) := .keep hs .nil
  rwa [List.append_nil] at h

lemma of_flat {u v : Text} (hu : Flat u) (hv : Flat v) :
    Shelters (Symbol.ofText u : List α) (Symbol.ofText v) := by
  have h : Shelters (Symbol.ofText u ++ [] : List α) (Symbol.ofText v ++ []) := .write hu hv .nil
  rwa [List.append_nil, List.append_nil] at h

lemma parenthesize (h : Shelters s t) :
    Shelters s (Symbol.ofText ['('] ++ t ++ Symbol.ofText [')']) := by
  have hwrap := h.wrap .nil
  rwa [List.append_nil, List.append_nil] at hwrap

/-- What becomes of the trimmed text is what becomes of the text. -/
lemma of_trim (h : Shelters (Swiftward.trim s) t) : Shelters s t := by
  obtain ⟨u, v, hu, hv, heq⟩ := exists_trim s
  have h := ((of_flat (flat_space hu) Flat.nil).append h).append (of_flat (flat_space hv) Flat.nil)
  rwa [← heq, Symbol.ofText_nil, List.append_nil] at h

lemma trim (hs : Closed s) : Shelters s (Swiftward.trim s) := of_trim (refl hs.trim)

lemma closed (h : Shelters s t) : Closed s := by
  induction h with
  | nil => exact closed_nil
  | keep hu _ ih => exact hu.append ih
  | write hu _ _ ih => exact (closed_ofText.mpr hu.unquoted.closed).append ih
  | wrap _ _ ih ih' => exact ih.append ih'

lemma rewords (h : Shelters s t) : Rewords s t := by
  induction h with
  | nil => exact .nil
  | keep hu _ ih => exact .keep hu ih
  | write hu hv _ ih => exact .write hu.unquoted hv.unquoted ih
  | wrap _ _ ih ih' =>
    have hopen : Rewords ([] : List α) (Symbol.ofText ['(']) :=
      .of_unquoted (u := []) unquoted_nil (by decide)
    have hclose : Rewords ([] : List α) (Symbol.ofText [')']) :=
      .of_unquoted (u := []) unquoted_nil (by decide)
    simpa using ((hopen.append ih).append hclose).append ih'

end Shelters

/-! ### Calls -/

lemma unquoted_word {w : Text} (hw : ∀ c ∈ w, Unicode.isWord c = true) : Unquoted w :=
  fun c hc => isUnquoted_of_isWord (hw c hc)

/-- The text is cut in code, so no literal is cut in two. -/
lemma cutAtKeywords_closed {q : Quoting} {tokens : List (Token α)}
    (hwords : Token.WellFormed tokens) (h : q.run (Token.textOf tokens) = .code) :
    q.run (cutAtKeywords q tokens).1 = .code ∧ ∀ k ∈ (cutAtKeywords q tokens).2, Closed k.2 := by
  fun_induction cutAtKeywords q tokens with
  | case1 q => simpa using h
  | case2 q a rest lead keywords heq ih =>
    obtain ⟨hlead, hkeywords⟩ := ih hwords.tail h
    rw [heq] at hlead hkeywords
    exact ⟨hlead, hkeywords⟩
  | case3 q w a rest lead keywords heq hcolon ih =>
    obtain ⟨rfl, rfl⟩ := Quoting.bare_iff.mp hcolon
    have hw : Unquoted w := unquoted_word (hwords w (by simp))
    have hstep : (Quoting.code.run w).step (Symbol.ofChar ':' : α) = .code := by
      rw [hw.closed]
      exact Quoting.step_code_of_isUnquoted (by rw [isUnquoted_ofChar]; decide)
    have hrun : ((Quoting.code.run w).step (Symbol.ofChar ':' : α)).run (Token.textOf rest) =
        .code := by
      simpa [Token.toText, Quoting.run_ofText] using h
    obtain ⟨hlead, hkeywords⟩ := ih hwords.tail.tail hrun
    rw [heq] at hlead hkeywords
    rw [hstep] at hlead
    exact ⟨rfl, List.forall_mem_cons.mpr ⟨hlead, hkeywords⟩⟩
  | case4 q w a rest lead keywords heq hcolon ih =>
    have hrun : ((q.run w).step a).run (Token.textOf rest) = .code := by
      simpa [Token.toText, Quoting.run_ofText] using h
    obtain ⟨hlead, hkeywords⟩ := ih hwords.tail.tail hrun
    rw [heq] at hlead hkeywords
    exact ⟨by simpa [Quoting.run_ofText] using hlead, hkeywords⟩
  | case5 q w rest hrest lead keywords heq ih =>
    have hrun : (q.run w).run (Token.textOf rest) = .code := by
      simpa [Token.toText, Quoting.run_ofText] using h
    obtain ⟨hlead, hkeywords⟩ := ih hwords.tail hrun
    rw [heq] at hlead hkeywords
    exact ⟨by simpa [Quoting.run_ofText] using hlead, hkeywords⟩

namespace MessageSend

lemma flat_downcaseFirst {word : Text} (h : ∀ c ∈ word, Unicode.isWord c = true) :
    Flat (downcaseFirst word) := by
  unfold downcaseFirst
  split
  · exact flat_word h
  · split
    · exact flat_word h
    · obtain ⟨hfirst, hrest⟩ := List.forall_mem_cons.mp h
      refine .append ?_ (flat_word hrest)
      refine .of_forall (p := fun d => Unicode.isWord d || isLowerForm d) (by decide) fun d hd => ?_
      rcases eq_or_isLowerForm_of_mem_lowercase hd with rfl | hform
      · rw [hfirst, Bool.true_or]
      · rw [hform, Bool.or_true]

/-- The head of a call opens one parenthesis. -/
lemma exists_callHead {first : Text} (h : ∀ c ∈ first, Unicode.isWord c = true) :
    ∃ u v, Flat u ∧ Flat v ∧ callHead first = u ++ '(' :: v := by
  unfold callHead
  split
  · have hdot : Flat ['.'] := by decide
    exact ⟨'.' :: first, [], hdot.append (flat_word h), Flat.nil, rfl⟩
  · next rest hinit =>
    split
    · next c label hwith =>
      rw [after?_eq_some_iff.mp hinit, after?_eq_some_iff.mp hwith] at h
      have hlabel := (List.forall_mem_append.mp (List.forall_mem_append.mp h).2).2
      exact ⟨[], _, Flat.nil, (flat_downcaseFirst hlabel).append (by decide), rfl⟩
    · exact ⟨[], [], Flat.nil, Flat.nil, rfl⟩

lemma shelters_of_unary? {s : List α} {send : MessageSend α} (hs : Closed s)
    (h : unary? s = some send) : Shelters s send.render := by
  obtain ⟨receiver, gap, selector, rfl, hgap, hselector, rfl⟩ := unary?_cases h
  have hbehind : Flat (gap ++ selector) := (flat_space hgap).append (flat_word hselector)
  have hreceiver : Closed receiver := hs.of_append_right (isUnquoted_of_mem_ofText hbehind.unquoted)
  have hempty : Shelters ([] : List α) (Symbol.ofText "()".toList) := Shelters.nil.parenthesize
  have hkept := Shelters.refl hreceiver
  rw [render]
  split_ifs
  · have hnone : Shelters _ (Symbol.ofText [] : List α) := .of_flat hbehind Flat.nil
    simpa using hkept.append hnone
  · have hnone : Shelters _ (Symbol.ofText [] : List α) := .of_flat hbehind Flat.nil
    simpa using hkept.append (hnone.append hempty)
  · have hdot : Flat ['.'] := by decide
    have hname : Shelters _ (Symbol.ofText ('.' :: selector) : List α) :=
      .of_flat hbehind (hdot.append (flat_word hselector))
    simpa [Symbol.ofText] using hkept.append (hname.append hempty)

/-- Keywords as they stand in a text become labels. -/
lemma shelters_labelled {more : List (Text × List α)} (h : ∀ k ∈ more, Flat k.1 ∧ Closed k.2) :
    Shelters (more.flatMap keywordText)
      ((more.map fun (k, argument) => (k, trim argument)).flatMap labelled) := by
  induction more with
  | nil => exact .nil
  | cons k more ih =>
    obtain ⟨⟨hkeyword, hargument⟩, hmore⟩ := List.forall_mem_cons.mp h
    obtain ⟨keyword, argument⟩ := k
    have hlabel : Shelters (Symbol.ofText (keyword ++ [':']) : List α)
        (Symbol.ofText (", ".toList ++ keyword ++ ": ".toList)) :=
      .of_flat (hkeyword.append (by decide)) (.append (.append (by decide) hkeyword) (by decide))
    exact (hlabel.append (.trim hargument)).append (ih hmore)

lemma shelters_of_keyword? {s : List α} {send : MessageSend α} (hs : Closed s)
    (h : keyword? s = some send) : Shelters s send.render := by
  have hrun : Quoting.code.run (Token.textOf (Token.ofText s)) = .code := by rwa [Token.textOf_ofText]
  obtain ⟨hlead, hclosed⟩ := cutAtKeywords_closed (Token.wellFormed_ofText s) hrun
  obtain ⟨htext, hwords⟩ := cutAtKeywords_eq (Token.wellFormed_ofText s) .code
  obtain ⟨first, argument, more, heq, rfl⟩ := keyword?_cases h
  rw [heq] at hclosed hwords
  obtain ⟨hargument, hclosed⟩ := List.forall_mem_cons.mp hclosed
  obtain ⟨hword, hwords⟩ := List.forall_mem_cons.mp hwords
  obtain ⟨u, v, hu, hv, hhead⟩ := exists_callHead hword
  have hmore : ∀ k ∈ more, Flat k.1 ∧ Closed k.2 := fun k hk => ⟨flat_word (hwords k hk), hclosed k hk⟩
  have hname : Shelters (Symbol.ofText (first ++ [':']) : List α) (Symbol.ofText u) :=
    .of_flat ((flat_word hword).append (by decide)) hu
  have hlabel : Shelters (Symbol.ofText [] : List α) (Symbol.ofText v) := .of_flat Flat.nil hv
  have hinside := (hlabel.append (.trim hargument)).append (shelters_labelled hmore)
  have hcall := ((Shelters.trim hlead).append hname).append hinside.parenthesize
  rw [Token.textOf_ofText, heq, List.flatMap_cons, keywordText] at htext
  simp only [List.append_assoc, Symbol.ofText_nil, List.nil_append] at htext hcall
  rw [← htext] at hcall
  simpa [render, hhead, Symbol.ofText] using hcall

end MessageSend

/-- A call puts parentheses around arguments. -/
lemma shelters_of_resolveSend {s call : List α} (hs : Closed s) (h : resolveSend s = some call) :
    Shelters s call := by
  obtain ⟨send, hsend, rfl⟩ := Option.map_eq_some_iff.mp h
  apply Shelters.of_trim
  simp only [MessageSend.parse?, Option.orElse_eq_orElse, Option.orElse_eq_or,
    Option.or_eq_some_iff] at hsend
  rcases hsend with hunary | ⟨-, hkeyword⟩
  · exact MessageSend.shelters_of_unary? hs.trim hunary
  · exact MessageSend.shelters_of_keyword? hs.trim hkeyword

end Swiftward
