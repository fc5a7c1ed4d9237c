import Swiftward.Proofs.Conversion.Conditional
import Swiftward.Proofs.MessageSend.Spacing
import Swiftward.Proofs.Statement.Header

/-!
# Headers before and after their sends are converted

Where parentheses and brackets are nested in each other properly, no bracket is open between the
parentheses around a condition. So the sends of the condition are converted on their own, and so are
those behind it, and the line is the same header as before, with the condition converted and a body
that follows if it did (`Conditional.parse?_collapseSends`).
-/

namespace Swiftward

/-! ### Parentheses and brackets nested in each other -/

/-- The parentheses and brackets that are open behind a text read in state `q`, the last one first,
with `opened` before it. There are none if something is closed that was not the last to be opened. -/
def openPairs? (q : Quoting) (opened : List Char) : Text → Option (List Char)
  | [] => some opened
  | c :: s =>
    if q.bare '(' c then openPairs? (q.step c) ('(' :: opened) s
    else if q.bare '[' c then openPairs? (q.step c) ('[' :: opened) s
    else if q.bare ')' c then
      if opened.head? = some '(' then openPairs? (q.step c) opened.tail s else none
    else if q.bare ']' c then
      if opened.head? = some '[' then openPairs? (q.step c) opened.tail s else none
    else openPairs? (q.step c) opened s

lemma openPairs?_append (q : Quoting) (opened : List Char) (s t : Text) :
    openPairs? q opened (s ++ t) =
      (openPairs? q opened s).bind fun opened' => openPairs? (q.run s) opened' t := by
  induction s generalizing q opened with
  | nil => rfl
  | cons c s ih =>
    simp only [List.cons_append, openPairs?, Quoting.run_cons, ih]
    split_ifs <;> rfl

/-- The open brackets are those among the open pairs. -/
lemma openBrackets_of_openPairs? {q : Quoting} {opened opened' : List Char} {s : Text}
    (h : openPairs? q opened s = some opened') :
    openBrackets q (opened.count '[') s = opened'.count '[' := by
  induction s generalizing q opened with
  | nil =>
    obtain rfl := Option.some.inj h
    rfl
  | cons c s ih =>
    rw [openPairs?] at h
    split_ifs at h with hparen hbracket hclose htop hclose' htop'
    · obtain ⟨rfl, rfl⟩ := Quoting.bare_iff.mp hparen
      have hlater := ih h
      rwa [List.count_cons_of_ne (by decide)] at hlater
    · obtain ⟨rfl, rfl⟩ := Quoting.bare_iff.mp hbracket
      have hlater := ih h
      rwa [List.count_cons_self] at hlater
    · obtain ⟨rfl, rfl⟩ := Quoting.bare_iff.mp hclose
      obtain ⟨opened, rfl⟩ := List.head?_eq_some_iff.mp htop
      have hlater := ih h
      rwa [List.tail_cons, ← List.count_cons_of_ne (show '(' ≠ '[' by decide)] at hlater
    · obtain ⟨rfl, rfl⟩ := Quoting.bare_iff.mp hclose'
      obtain ⟨opened, rfl⟩ := List.head?_eq_some_iff.mp htop'
      have hcount : List.count '[' ('[' :: opened) - 1 = List.count '[' opened := by
        rw [List.count_cons_self, Nat.add_sub_cancel]
      have hlater := ih h
      rwa [List.tail_cons, ← hcount] at hlater
    · rw [openBrackets, if_neg hbracket, if_neg hclose']
      exact ih h

/-- What is opened behind a parenthesis and does not close it stands before it in the list, with as
many parentheses as are nested behind that one. -/
lemma exists_of_openPairs? {q : Quoting} {inner base opened : List Char} {s : Text} {d : Nat}
    (h : openPairs? q (inner ++ '(' :: base) s = some opened)
    (hnest : nesting? q (inner.count '(') s = some d) :
    ∃ inner', opened = inner' ++ '(' :: base ∧ inner'.count '(' = d := by
  induction s generalizing q inner with
  | nil =>
    obtain rfl := Option.some.inj h
    exact ⟨inner, rfl, Option.some.inj hnest⟩
  | cons c s ih =>
    rw [openPairs?] at h
    rw [nesting?] at hnest
    split_ifs at h with hparen hbracket hclose htop hclose' htop'
    · rw [if_pos hparen, ← List.count_cons_self] at hnest
      exact ih h hnest
    · obtain ⟨rfl, rfl⟩ := Quoting.bare_iff.mp hbracket
      rw [← List.count_cons_of_ne (show '[' ≠ '(' by decide)] at hnest
      exact ih h hnest
    · rw [if_neg hparen, if_pos hclose] at hnest
      -- The parenthesis that is closed is not the one that was there before.
      cases inner with
      | nil => cases hnest
      | cons e inner =>
        obtain rfl : e = '(' := Option.some.inj htop
        rw [List.count_cons_self, if_neg (Nat.succ_ne_zero _), Nat.add_sub_cancel] at hnest
        exact ih h hnest
    · obtain ⟨rfl, rfl⟩ := Quoting.bare_iff.mp hclose'
      cases inner with
      | nil => cases htop'
      | cons e inner =>
        obtain rfl : e = '[' := Option.some.inj htop'
        rw [List.count_cons_of_ne (by decide)] at hnest
        exact ih h hnest
    · rw [if_neg hparen, if_neg hclose] at hnest
      exact ih h hnest

/-- In front of a parenthesis that closes the one behind `front`, no bracket is open. -/
lemma openBrackets_of_condition {front inside behind : Text} (hfront : Plain front)
    (hclosed : Closed inside) (hnest : nesting? .code 0 inside = some 0)
    (hnested : openPairs? .code [] (front ++ '(' :: inside ++ ')' :: behind) = some []) :
    openBrackets .code 0 inside = 0 := by
  have hrun : Quoting.code.run front = .code := hfront.closed
  rw [List.append_assoc, openPairs?_append, hrun] at hnested
  obtain ⟨base, hbase, hnested⟩ := Option.bind_eq_some_iff.mp hnested
  have hopen : openPairs? .code base ('(' :: (inside ++ ')' :: behind)) =
      openPairs? .code ('(' :: base) (inside ++ ')' :: behind) := rfl
  rw [List.cons_append, hopen, openPairs?_append, hclosed] at hnested
  obtain ⟨opened, hinside, hbehind⟩ := Option.bind_eq_some_iff.mp hnested
  obtain ⟨inner, rfl, hcount⟩ := @exists_of_openPairs? _ [] _ _ _ _ hinside hnest
  have hnil : inner = [] := by
    cases inner with
    | nil => rfl
    | cons e inner =>
      have hclose : openPairs? .code (e :: inner ++ '(' :: base) (')' :: behind) =
          if some e = some '(' then openPairs? .code (inner ++ '(' :: base) behind else none := rfl
      rw [hclose] at hbehind
      split_ifs at hbehind with htop
      obtain rfl := Option.some.inj htop
      rw [List.count_cons_self] at hcount
      cases hcount
  rw [hnil] at hinside
  have hfrontCount := openBrackets_of_openPairs? hbase
  have hinsideCount := openBrackets_of_openPairs? hinside
  rw [List.count_nil, openBrackets_of_bracketless 0 hfront.bracketless] at hfrontCount
  rw [List.nil_append, List.count_cons_of_ne (by decide), ← hfrontCount] at hinsideCount
  exact hinsideCount

/-! ### White space around a condition -/

lemma trim_spaces {u v s : Text} (hu : ∀ c ∈ u, isSpace c = true) (hv : ∀ c ∈ v, isSpace c = true)
    (hs : Trimmed s) : trim (u ++ (s ++ v)) = s := by
  rw [trim, trimStart_indent hu]
  cases s with
  | nil => rw [List.nil_append, trimStart, List.dropWhile_eq_nil_iff.mpr hv]; rfl
  | cons c s =>
    have hc : isSpace c = false := hs.head_not_space c rfl
    rw [List.cons_append, trimStart_cons hc, ← List.cons_append, trimEnd_append_spaces _ hv,
      hs.trimEnd]

/-- The sends of a text are converted between the white space around it. -/
lemma trim_collapseSends {s : Text} (hmark : Cell.markOpen ∉ s) (hclosed : Closed s)
    (hbalanced : openBrackets .code 0 s = 0) : trim (collapseSends s) = collapseSends (trim s) := by
  obtain ⟨u, v, hu, hv, hs⟩ := exists_trim s
  rw [Symbol.ofText_char, Symbol.ofText_char, List.append_assoc] at hs
  have hmarkTrim : Cell.markOpen ∉ trim s := fun h => hmark (trim_subset s h)
  have hmarkRest : Cell.markOpen ∉ trim s ++ v := by
    intro h
    apply hmark
    rw [hs]
    exact List.mem_append_right u h
  have hbracket : '[' ∉ v := fun h => absurd (hv _ h) (by decide)
  have hbalancedTrim : openBrackets .code 0 (trim s) = 0 := by
    have hu := plain_space hu
    have hv := plain_space hv
    rw [hs, openBrackets_append, openBrackets_append,
      openBrackets_of_bracketless 0 hu.bracketless, hu.closed, hclosed.trim,
      openBrackets_of_bracketless _ hv.bracketless] at hbalanced
    exact hbalanced
  have hblank : collapseSends v = v := by rw [collapseSends, if_pos (.inl hbracket)]
  have hcollapse : collapseSends s = u ++ (collapseSends (trim s) ++ v) := by
    have haround := @collapseSends_around [] (trim s) v plain_nil rfl hclosed.trim hbalancedTrim
      (fun h => hbracket (List.mem_of_mem_head? h)) hmarkRest
    conv_lhs => rw [hs]
    rw [keepsIndent_collapseSends.append hu]
    simpa [hblank] using haround
  rw [hcollapse]
  exact trim_spaces hu hv ((sameSpaces_collapseSends hmarkTrim).trimmed (trimmed_trim s))

lemma ConditionalBody.ofText_eq_follows_iff {s : Text} :
    ofText s = follows ↔ s.all isSpace = true := by
  rw [List.all_eq_true]
  constructor
  · exact Conditional.isSpace_of_follows
  · intro h
    have hnil : trim s = [] := by
      rw [trim, trimStart, List.dropWhile_eq_nil_iff.mpr h]
      rfl
    rw [ofText_eq, if_pos hnil]

namespace Conditional

/-- The sends of a line with a condition are converted in the condition and behind it. -/
lemma exists_collapseSends_condition {front inside behind : Text} (hfront : Plain front)
    (hclosed : Closed inside) (hbalanced : openBrackets .code 0 inside = 0)
    (hmark : Cell.markOpen ∉ front ++ '(' :: inside ++ ')' :: behind) :
    ∃ behind', collapseSends (front ++ '(' :: inside ++ ')' :: behind) =
        front ++ '(' :: collapseSends inside ++ ')' :: behind' ∧ SameSpaces behind behind' := by
  have hlead : Plain (front ++ ['(']) := hfront.append (by decide)
  have hline : front ++ '(' :: inside ++ ')' :: behind =
      front ++ ['('] ++ inside ++ ')' :: behind := by simp
  rw [hline] at hmark ⊢
  obtain ⟨behind', hbehind, hspaces⟩ := exists_collapseSends_cons (by decide) (by decide)
    fun h => hmark (List.mem_append_right _ h)
  refine ⟨behind', ?_, hspaces⟩
  rw [collapseSends_around hlead (Piece.roleBehind_paren (by simp)) hclosed hbalanced (by simp) hmark,
    hbehind]
  simp

/-- A header with a condition is the same header when its sends are converted, with the condition
converted, and its body follows if it did before. So a line is converted as the header that it looks
like. -/
theorem parse?_collapseSends {t condition : Text} {c : Conditional} (hmark : Cell.markOpen ∉ t)
    (hclosed : Closed t) (hnested : openPairs? .code [] t = some []) (hparse : parse? t = some c)
    (hcondition : c.condition = some condition) :
    ∃ c', parse? (collapseSends t) = some c' ∧ c'.indent = c.indent ∧ c'.keyword = c.keyword ∧
      c'.condition = some (collapseSends condition) ∧ (c'.body = .follows ↔ c.body = .follows) ∧
      ∀ line, substitute (splitComment line).1 = t →
        IsConstruct line (.statement (.conditional c')) (splitComment line).2 ∧
        (opensUnbracedConditional line = true ↔ c'.body = .follows) := by
  cases hparen : fromParen? t with
  | none =>
    rw [parse?, hparen] at hparse
    obtain ⟨rest, -, hrest⟩ := Option.bind_eq_some_iff.mp hparse
    split_ifs at hrest
    obtain rfl := Option.some.inj hrest
    cases hcondition
  | some rest =>
    obtain ⟨front, inside, behind, hfront, rfl, hinside, hnest, -⟩ := exists_of_parse? hparse hparen
    have hread := hparse.symm.trans (parse?_condition hfront hinside hnest behind)
    obtain rfl := Option.some.inj hread
    obtain rfl : trim inside = condition := Option.some.inj hcondition
    have hbalanced := openBrackets_of_condition hfront.plain hinside hnest hnested
    have hmarkInside : Cell.markOpen ∉ inside := fun h => hmark (by simp [h])
    obtain ⟨behind', hcollapse, hspaces⟩ :=
      exists_collapseSends_condition hfront.plain hinside hbalanced hmark
    have hconverted := parse?_condition hfront hinside.collapseSends
      (keepsNesting_collapseSends inside 0 0 hnest) behind'
    rw [← hcollapse] at hconverted
    have hfollows :
        ConditionalBody.ofText behind' = .follows ↔ ConditionalBody.ofText behind = .follows := by
      rw [ConditionalBody.ofText_eq_follows_iff, ConditionalBody.ofText_eq_follows_iff,
        hspaces.all_eq]
    refine ⟨_, hconverted, rfl, rfl, congrArg some (trim_collapseSends hmarkInside hinside hbalanced),
      hfollows, fun line hline => ⟨?_, ?_⟩⟩
    · rw [← hline] at hparse hconverted
      exact isConstruct_conditional hparse hconverted
    · rw [opensUnbracedConditional, hline, hparse, Option.any_some, decide_eq_true_iff]
      exact hfollows.symm

/-- A condition with nested sends in front of a body with one. -/
theorem parse?_collapseSends_nested :
    ∃ c', parse? (collapseSends "if ([a is:[b c]]) [d e]".toList) = some c' ∧
      c'.condition = some (collapseSends "[a is:[b c]]".toList) ∧ c'.body ≠ .follows := by
  obtain ⟨c', hparse, -, -, hcondition, hbody, -⟩ :=
    @parse?_collapseSends "if ([a is:[b c]]) [d e]".toList "[a is:[b c]]".toList
      ⟨[], "if".toList, some "[a is:[b c]]".toList, .statement "[d e]".toList⟩
      (by decide) (by decide) (by decide) (by decide) rfl
  exact ⟨c', hparse, hcondition, fun h => absurd (hbody.mp h) (by decide)⟩

end Conditional

end Swiftward
