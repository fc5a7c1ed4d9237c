import Swiftward.Proofs.MessageSend.Resolve
import Swiftward.Proofs.Text.Reading

/-!
# Sends with keywords

A receiver and its arguments may be any text, as long as their literals are closed and neither a
colon nor a square bracket stands outside them: strings with colons, operators, parentheses and white
space are all kept. With such parts a send of any number of keywords becomes a call, in which the
first keyword names the method or makes a constructor, and each further keyword is a label
(`resolveSend_of_colonless`).
-/

namespace Swiftward

variable {α : Type} [Symbol α]

/-- A trimmed stretch of text, with its literals closed, that has neither a colon nor a square
bracket outside them. -/
structure IsColonless (s : List α) : Prop where
  ne_nil : s ≠ []
  trimmed : Trimmed s
  plain : Plain s
  colonless : hasBareFrom ':' .code s = false

instance (s : List α) [DecidableEq α] : Decidable (IsColonless s) :=
  decidable_of_iff (s ≠ [] ∧ Trimmed s ∧ Plain s ∧ hasBareFrom ':' .code s = false)
    ⟨fun ⟨hne, ht, hp, hc⟩ => ⟨hne, ht, hp, hc⟩, fun ⟨hne, ht, hp, hc⟩ => ⟨hne, ht, hp, hc⟩⟩

/-- Without a colon there is no keyword. -/
lemma IsColonless.isOperand {s : List α} (h : IsColonless s) : IsOperand s where
  ne_nil := h.ne_nil
  trimmed := h.trimmed
  plain := h.plain
  keywordless := hasKeywordFrom_of_colonless false h.colonless

namespace MessageSend

/-- What a call has between its receiver and its first argument, by the first keyword of the send. -/
inductive IsCallHead : Text → Text → Prop where
  /-- Most keywords name the method. -/
  | method {first : Text} (h : ¬"init".toList <+: first) :
      IsCallHead first ('.' :: first ++ ['('])
  /-- What follows `initWith` labels the first argument of a constructor. -/
  | label {label : Text} (h : label ≠ []) :
      IsCallHead ("initWith".toList ++ label) ('(' :: downcaseFirst label ++ ": ".toList)
  /-- Other constructors have no label for their first argument. -/
  | unlabelled {rest : Text} (h : ∀ label ≠ [], rest ≠ "With".toList ++ label) :
      IsCallHead ("init".toList ++ rest) ['(']

lemma isCallHead_callHead (first : Text) : IsCallHead first (callHead first) := by
  unfold callHead
  cases hinit : after? "init" first with
  | none =>
    refine .method ?_
    rw [← isSome_after?_iff, hinit]
    exact Bool.false_ne_true
  | some rest =>
    obtain rfl := after?_eq_some_iff.mp hinit
    cases hwith : after? "With" rest with
    | none =>
      simp only [hwith]
      refine .unlabelled ?_
      rintro label - rfl
      rw [after?_eq_some_iff.mpr rfl] at hwith
      cases hwith
    | some label =>
      obtain rfl := after?_eq_some_iff.mp hwith
      cases label with
      | nil =>
        refine .unlabelled ?_
        intro label hne heq
        exact hne (List.append_cancel_left heq).symm
      | cons c label => exact .label (List.cons_ne_nil c label)

end MessageSend

/-- A send of any number of keywords becomes a call: receiver and arguments stay as they are, the
first keyword makes the head of the call, and each further keyword labels its argument. -/
theorem resolveSend_of_colonless {receiver : List α} (hr : IsColonless receiver) {first : Text}
    (hfirst : IsIdentifier first) {argument : List α} (ha : IsColonless argument)
    {more : List (Text × List α)} (hmore : ∀ k ∈ more, IsIdentifier k.1 ∧ IsColonless k.2) :
    ∃ head, MessageSend.IsCallHead first head ∧
      resolveSend (receiver ++ writeKeywords ((first, argument) :: more)) =
        some (receiver ++ Symbol.ofText head ++ argument ++
          (more.flatMap fun k => Symbol.ofText (", ".toList ++ k.1 ++ ": ".toList) ++ k.2) ++
            Symbol.ofText [')']) := by
  have hkeyword : IsKeyword (first, argument) := ⟨hfirst.ne_nil, hfirst.isWord, ha.isOperand⟩
  have hkeywords : ∀ k ∈ more, IsKeyword k := by
    intro k hk
    obtain ⟨hword, hargument⟩ := hmore k hk
    exact ⟨hword.ne_nil, hword.isWord, hargument.isOperand⟩
  exact ⟨_, MessageSend.isCallHead_callHead first,
    resolveSend_keywords hr.isOperand hkeyword hkeywords⟩

theorem resolveSend_of_colonless_quoted :
    ∃ head, MessageSend.IsCallHead "initWithTitle".toList head ∧
      resolveSend "(a, b) initWithTitle:\"x: [y]\" size:f(1) + 2 mark:':'".toList =
        some ("(a, b)".toList ++ head ++ "\"x: [y]\", size: f(1) + 2, mark: ':')".toList) := by
  have hr : IsColonless "(a, b)".toList := by decide
  have hfirst : IsIdentifier "initWithTitle".toList := by decide
  have ha : IsColonless "\"x: [y]\"".toList := by decide
  have hmore : ∀ k ∈ [("size".toList, "f(1) + 2".toList), ("mark".toList, "':'".toList)],
      IsIdentifier k.1 ∧ IsColonless k.2 := by
    decide
  obtain ⟨head, hhead, hcall⟩ := resolveSend_of_colonless hr hfirst ha hmore
  refine ⟨head, hhead, ?_⟩
  simpa [writeKeywords] using hcall

end Swiftward
