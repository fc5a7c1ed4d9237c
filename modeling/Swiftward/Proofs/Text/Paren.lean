import Swiftward.Proofs.Text.Rewording
import Swiftward.Text.Paren

/-!
# How deep parentheses are nested

Outside its literals, a text takes the nesting of parentheses from one depth to another. What stands
between a parenthesis and the one that closes it is a text that takes it from 0 to 0 and leaves no
literal open (`parenthesized?_eq_some_iff`). What a text does at one depth it does at any greater
one, so a pair of parentheses may be put around any stretch of it (`KeepsNesting.wrap`).
-/

namespace Swiftward

/-- The number of parentheses that are open behind a text read in state `q`, with `depth` of them
open before it, if it closes no others. -/
def nesting? (q : Quoting) (depth : Nat) : Text → Option Nat
  | [] => some depth
  | c :: s =>
    if q.bare '(' c then nesting? (q.step c) (depth + 1) s
    else if q.bare ')' c then if depth = 0 then none else nesting? (q.step c) (depth - 1) s
    else nesting? (q.step c) depth s

lemma nesting?_append (q : Quoting) (depth : Nat) (s t : Text) :
    nesting? q depth (s ++ t) = (nesting? q depth s).bind fun d => nesting? (q.run s) d t := by
  induction s generalizing q depth with
  | nil => rfl
  | cons c s ih =>
    simp only [List.cons_append, nesting?, Quoting.run_cons, ih]
    split_ifs <;> rfl

/-- A text does at any greater depth what it does at one. -/
lemma nesting?_succ {q : Quoting} {depth d : Nat} {s : Text} (h : nesting? q depth s = some d) :
    nesting? q (depth + 1) s = some (d + 1) := by
  induction s generalizing q depth with
  | nil => exact congrArg (some <| · + 1) (Option.some.inj h)
  | cons c s ih =>
    simp only [nesting?] at h
    simp only [nesting?, Nat.add_one_ne_zero, if_false, Nat.add_sub_cancel]
    split_ifs at h ⊢ with hopen hclose hzero
    · exact ih h
    · obtain ⟨depth, rfl⟩ := Nat.exists_eq_succ_of_ne_zero hzero
      exact ih h
    · exact ih h

/-! ### Texts without parentheses -/

/-- The character is no quote and no parenthesis. -/
def isFlat (c : Char) : Bool := isUnquoted c && !isChar '(' c && !isChar ')' c

/-- The text has no quote and no parenthesis. -/
def Flat (s : Text) : Prop := ∀ c ∈ s, isFlat c = true

instance (s : Text) : Decidable (Flat s) := List.decidableBAll (fun c => isFlat c = true) s

namespace Flat

variable {s t : Text}

lemma nil : Flat [] := List.forall_mem_nil _

lemma append (hs : Flat s) (ht : Flat t) : Flat (s ++ t) := List.forall_mem_append.mpr ⟨hs, ht⟩

lemma unquoted (h : Flat s) : Unquoted s := by
  intro c hc
  have hflat := h c hc
  simp only [isFlat, Bool.and_eq_true] at hflat
  exact hflat.1.1

lemma of_forall {p : Char → Bool} (hp : ['"', '\'', '(', ')'].any p = false)
    (h : ∀ c ∈ s, p c = true) : Flat s := by
  intro c hc
  have hne {d : Char} (hd : d ∈ ['"', '\'', '(', ')']) : isChar d c = false :=
    isChar_eq_false (h c hc) (Bool.eq_false_iff.mpr (List.any_eq_false.mp hp d hd))
  rw [isFlat, isUnquoted, hne (by decide), hne (by decide), hne (by decide), hne (by decide)]
  rfl

lemma nesting?_eq (h : Flat s) (depth : Nat) : nesting? .code depth s = some depth := by
  induction s with
  | nil => rfl
  | cons c s ih =>
    obtain ⟨hc, hs⟩ := List.forall_mem_cons.mp h
    simp only [isFlat, Bool.and_eq_true, Bool.not_eq_true'] at hc
    obtain ⟨⟨hquote, hopen⟩, hclose⟩ := hc
    have hopen : Quoting.code.bare '(' c = false := by rw [Quoting.bare, hopen, Bool.and_false]
    have hclose : Quoting.code.bare ')' c = false := by rw [Quoting.bare, hclose, Bool.and_false]
    rw [nesting?, hopen, hclose, Quoting.step_code_of_isUnquoted hquote]
    exact ih hs

end Flat

lemma flat_word {s : Text} (h : ∀ c ∈ s, Unicode.isWord c = true) : Flat s :=
  .of_forall (by decide) h

lemma flat_space {s : Text} (h : ∀ c ∈ s, isSpace c = true) : Flat s := .of_forall (by decide) h

/-! ### The same nesting -/

/-- The second text takes the nesting wherever the first takes it. -/
def KeepsNesting (s t : Text) : Prop :=
  ∀ depth d, nesting? .code depth s = some d → nesting? .code depth t = some d

namespace KeepsNesting

variable {s t u s' t' : Text}

lemma refl (s : Text) : KeepsNesting s s := fun _ _ h => h

lemma trans (h : KeepsNesting s t) (h' : KeepsNesting t u) : KeepsNesting s u :=
  fun depth d hs => h' depth d (h depth d hs)

lemma append (h : KeepsNesting s t) (h' : KeepsNesting s' t') (hs : Closed s) (ht : Closed t) :
    KeepsNesting (s ++ s') (t ++ t') := by
  intro depth d hnest
  rw [nesting?_append, hs] at hnest
  obtain ⟨e, hfirst, hrest⟩ := Option.bind_eq_some_iff.mp hnest
  rw [nesting?_append, ht, h depth e hfirst]
  exact h' e d hrest

lemma of_flat (hs : Flat s) (ht : Flat t) : KeepsNesting s t := by
  intro depth d hnest
  rwa [hs.nesting?_eq, ← ht.nesting?_eq depth] at hnest

/-- A stretch of text may be put in parentheses. -/
lemma wrap (h : KeepsNesting s t) (ht : Closed t) : KeepsNesting s ('(' :: t ++ [')']) := by
  intro depth d hnest
  have hinside : nesting? .code (depth + 1) t = some (d + 1) := nesting?_succ (h depth d hnest)
  have hopen : nesting? .code depth ['('] = some (depth + 1) := rfl
  have hclose : nesting? .code (d + 1) [')'] = some d := rfl
  have hunquoted : Quoting.code.run ['('] = .code := rfl
  rw [List.cons_append, ← List.singleton_append, nesting?_append, hopen, Option.bind_some, hunquoted,
    nesting?_append, hinside, Option.bind_some, ht, hclose]

end KeepsNesting

/-! ### The parenthesis that closes -/

/-- One character of the scan for the parenthesis that closes, inside of `depth` others. -/
lemma cutAtClose_cons (q : Quoting) (depth : Nat) (c : Char) (s : Text) :
    cutAtClose q (depth + 1) (c :: s) =
      if q.bare '(' c then
        (cutAtClose (q.step c) (depth + 1 + 1) s).map fun (front, back) => (c :: front, back)
      else if q.bare ')' c then
        if depth = 0 then some ([], s)
        else (cutAtClose (q.step c) depth s).map fun (front, back) => (c :: front, back)
      else (cutAtClose (q.step c) (depth + 1) s).map fun (front, back) => (c :: front, back) := by
  simp only [cutAtClose, Quoting.bare, isChar_char, Quoting.step_char]
  grind

lemma cutAtClose_eq {q : Quoting} {depth : Nat} {s front back : Text}
    (h : cutAtClose q (depth + 1) s = some (front, back)) :
    s = front ++ ')' :: back ∧ q.run front = .code ∧ nesting? q depth front = some 0 := by
  induction s generalizing q depth front with
  | nil => cases h
  | cons c s ih =>
    rw [cutAtClose_cons] at h
    split_ifs at h with hopen hclose hzero
    · obtain ⟨⟨f, b⟩, hf, he⟩ := Option.map_eq_some_iff.mp h
      obtain ⟨rfl, rfl⟩ := Prod.mk.inj he
      obtain ⟨rfl, hrun, hnest⟩ := ih hf
      exact ⟨rfl, hrun, by rwa [nesting?, if_pos hopen]⟩
    · obtain ⟨rfl, rfl⟩ := Prod.mk.inj (Option.some.inj h)
      obtain ⟨rfl, rfl⟩ := Quoting.bare_iff.mp hclose
      exact ⟨rfl, rfl, congrArg some hzero⟩
    · obtain ⟨⟨f, b⟩, hf, he⟩ := Option.map_eq_some_iff.mp h
      obtain ⟨rfl, rfl⟩ := Prod.mk.inj he
      obtain ⟨depth, rfl⟩ := Nat.exists_eq_succ_of_ne_zero hzero
      obtain ⟨rfl, hrun, hnest⟩ := ih hf
      exact ⟨rfl, hrun, by rwa [nesting?, if_neg hopen, if_pos hclose, if_neg hzero]⟩
    · obtain ⟨⟨f, b⟩, hf, he⟩ := Option.map_eq_some_iff.mp h
      obtain ⟨rfl, rfl⟩ := Prod.mk.inj he
      obtain ⟨rfl, hrun, hnest⟩ := ih hf
      exact ⟨rfl, hrun, by rwa [nesting?, if_neg hopen, if_neg hclose]⟩

lemma cutAtClose_of_nesting? {q : Quoting} {depth : Nat} {front : Text} (hrun : q.run front = .code)
    (h : nesting? q depth front = some 0) (back : Text) :
    cutAtClose q (depth + 1) (front ++ ')' :: back) = some (front, back) := by
  induction front generalizing q depth with
  | nil =>
    obtain rfl : q = .code := hrun
    obtain rfl : depth = 0 := Option.some.inj h
    rfl
  | cons c front ih =>
    rw [List.cons_append, cutAtClose_cons]
    rw [nesting?] at h
    split_ifs at h ⊢ with hopen hclose hzero
    · have hcut : cutAtClose (q.step c) (depth + 1 + 1) (front ++ ')' :: back) = some (front, back) :=
        ih hrun h
      rw [hcut, Option.map_some]
    · obtain ⟨depth, rfl⟩ := Nat.exists_eq_succ_of_ne_zero hzero
      have hcut : cutAtClose (q.step c) depth.succ (front ++ ')' :: back) = some (front, back) :=
        ih hrun h
      rw [hcut, Option.map_some]
    · rw [ih hrun h, Option.map_some]

/-- The scan for the parenthesis that closes, with a counter that cannot go below zero. There is no
outcome where that would happen. -/
def checkedCut? (q : Quoting) (depth : Nat) : Text → Option (Option (Text × Text))
  | [] => some none
  | c :: s =>
    if q.bare '(' c then
      (checkedCut? (q.step c) (depth + 1) s).map fun cut => cut.map fun (front, back) => (c :: front, back)
    else if q.bare ')' c then
      if depth = 0 then none
      else if depth - 1 = 0 then some (some ([], s))
      else
        (checkedCut? (q.step c) (depth - 1) s).map fun cut =>
          cut.map fun (front, back) => (c :: front, back)
    else (checkedCut? (q.step c) depth s).map fun cut => cut.map fun (front, back) => (c :: front, back)

/-- As long as a parenthesis is open, the counter does not go below zero. -/
lemma checkedCut?_succ (q : Quoting) (depth : Nat) (s : Text) :
    checkedCut? q (depth + 1) s = some (cutAtClose q (depth + 1) s) := by
  induction s generalizing q depth with
  | nil => rfl
  | cons c s ih =>
    rw [cutAtClose_cons, checkedCut?]
    simp only [Nat.add_one_ne_zero, if_false, Nat.add_sub_cancel]
    split_ifs with hopen hclose hzero
    · rw [ih]
      rfl
    · rfl
    · obtain ⟨depth, rfl⟩ := Nat.exists_eq_succ_of_ne_zero hzero
      rw [ih]
      rfl
    · rw [ih]
      rfl

/-- The counter does not go below zero in a scan that begins with a parenthesis in code. -/
lemma checkedCut?_paren (s : Text) :
    checkedCut? .code 0 ('(' :: s) = some (cutAtClose .code 0 ('(' :: s)) := by
  have hopened : cutAtClose .code 0 ('(' :: s) =
      (cutAtClose .code ((0 : Nat) + 1) s).map fun (front, back) => ('(' :: front, back) := by
    simp [cutAtClose, Quoting.stepChar]
  have hchecked := checkedCut?_succ .code 0 s
  rw [hopened, checkedCut?, if_pos (by decide)]
  exact congrArg (Option.map _) hchecked

/-- What stands in parentheses leaves no literal open and closes all parentheses that it opens. -/
lemma parenthesized?_eq_some_iff {lead rest inside behind : Text} (hlead : Closed lead) :
    parenthesized? lead rest = some (inside, behind) ↔
      rest = '(' :: inside ++ ')' :: behind ∧ Closed inside ∧ nesting? .code 0 inside = some 0 := by
  have hopened (s : Text) : parenthesized? lead ('(' :: s) = cutAtClose .code (0 + 1) s := by
    rw [parenthesized?, hlead]
    simp [cutAtClose, Quoting.stepChar, Function.comp_def]
  constructor
  · intro h
    obtain ⟨s, rfl⟩ : ∃ s, rest = '(' :: s := by
      unfold parenthesized? at h
      split at h
      · next s => exact ⟨s, rfl⟩
      · cases h
    rw [hopened] at h
    obtain ⟨rfl, hrun, hnest⟩ := @cutAtClose_eq .code 0 _ _ _ h
    exact ⟨rfl, hrun, hnest⟩
  · rintro ⟨rfl, hrun, hnest⟩
    rw [List.cons_append, hopened]
    exact cutAtClose_of_nesting? hrun hnest behind

end Swiftward
