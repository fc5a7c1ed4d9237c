import Swiftward.Proofs.Statement.OpenHeader

/-!
# Headers with a condition

What is printed as an `if` with a condition in parentheses is read as that, whatever the condition
is, as long as it closes what it opens (`Conditional.parse?_ifHeader`). Before the parenthesis that
the condition is scanned from, a line has no quote. So the parenthesis stands outside of literals,
and the count of open parentheses does not go below zero, whatever follows.
-/

namespace Swiftward

/-- The body that a text behind the condition is, told by how it begins. -/
lemma ConditionalBody.ofText_eq (s : Text) :
    ofText s = if trim s = [] then follows
      else if (trim s).head? = some '\x7b' then braced (trim s)
      else statement (trim s) := by
  unfold ofText
  split
  · next h => rw [if_pos h]
  · next rest h => simp [h]
  · next hnil hbrace =>
    rw [if_neg hnil, if_neg]
    intro hhead
    obtain ⟨rest, hrest⟩ := List.head?_eq_some_iff.mp hhead
    exact hbrace rest hrest

namespace Conditional

/-- What stands before the parenthesis of an `if`. -/
def ifKeywords : List Text := ["if".toList, "else if".toList, "\x7d else if".toList]

/-- What is scanned for the parenthesis that closes is the rest of a line behind a text without
quotes. -/
lemma exists_of_fromParen? {line rest : Text} (h : fromParen? line = some rest) :
    ∃ front s, IsIfLead front ∧ before line rest = front ∧ rest = '(' :: s ∧
      line = front ++ '(' :: s := by
  obtain ⟨front, s, hfront, rfl, rfl⟩ := fromParen?_eq_some_iff.mp h
  exact ⟨front, s, hfront, by simp [before], rfl, rfl⟩

section Printed

variable {indent keyword : Text} (hindent : ∀ c ∈ indent, isSpace c = true)
  (hkeyword : keyword ∈ ifKeywords)

include hkeyword

lemma exists_keyword_cons : ∃ c rest, keyword = c :: rest ∧ isSpace c = false := by
  have hheads : ∀ keyword ∈ ifKeywords, trimStart keyword = keyword ∧ keyword ≠ [] := by decide
  obtain ⟨htrim, hne⟩ := hheads keyword hkeyword
  obtain ⟨c, rest, rfl⟩ := List.exists_cons_of_ne_nil hne
  exact ⟨c, rest, rfl, head_trimStart (c :: rest) c (by rw [htrim]; rfl)⟩

include hindent

lemma trimStart_keyword (s : Text) : trimStart (indent ++ (keyword ++ s)) = keyword ++ s := by
  obtain ⟨c, rest, rfl, hc⟩ := exists_keyword_cons hkeyword
  rw [trimStart, List.dropWhile_append_of_pos hindent]
  exact trimStart_cons hc _

lemma isIfLead_keyword : IsIfLead (indent ++ (keyword ++ [' '])) := by
  have hleads : ∀ keyword ∈ ifKeywords, afterIf? (keyword ++ [' ']) = some [' '] := by decide
  refine ⟨[' '], ?_, rfl⟩
  rw [trimStart_keyword hindent hkeyword]
  exact hleads keyword hkeyword

/-- A printed header is read as what it was printed from. -/
lemma parse?_printed {condition : Text} (hclosed : Closed condition)
    (hnest : nesting? .code 0 condition = some 0) (t : Text) :
    parse? (indent ++ keyword ++ " (".toList ++ condition ++ ")".toList ++ t) =
      some ⟨indent, keyword, some (trim condition), .ofText t⟩ := by
  have htrim : ∀ keyword ∈ ifKeywords, trimEnd (keyword ++ [' ']) = keyword := by decide
  have hhead : ∀ c ∈ (keyword ++ [' ']).head?, isSpace c = false := by
    obtain ⟨c, rest, rfl, hc⟩ := exists_keyword_cons hkeyword
    rintro d ⟨⟩
    exact hc
  have hspaces : (indent ++ (keyword ++ [' '])).takeWhile isSpace = indent :=
    (takeWhile_dropWhile_append hindent hhead).1
  have hparse := parse?_condition (isIfLead_keyword hindent hkeyword) hclosed hnest t
  rw [trimStart_keyword hindent hkeyword, htrim keyword hkeyword, hspaces] at hparse
  rw [← hparse]
  simp

end Printed

/-- A header that is printed with a condition is read back. Of any line, the parenthesis from which
the condition is scanned stands outside of all literals, a counter of open parentheses that cannot go
below zero finds what the scan finds, and there is a header if and only if that parenthesis is
closed. -/
theorem parse?_ifHeader :
    (∀ {indent keyword condition : Text}, (∀ c ∈ indent, isSpace c = true) →
      keyword ∈ ifKeywords → Closed condition → nesting? .code 0 condition = some 0 →
      ∀ t, parse? (indent ++ keyword ++ " (".toList ++ condition ++ ")".toList ++ t) =
        some ⟨indent, keyword, some (trim condition),
          if trim t = [] then .follows
          else if (trim t).head? = some '\x7b' then .braced (trim t)
          else .statement (trim t)⟩) ∧
    ∀ {line rest : Text}, fromParen? line = some rest →
      inLiteral line (byteSize (before line rest)) = false ∧
      checkedCut? (Quoting.code.run (before line rest)) 0 rest =
        some (cutAtClose (Quoting.code.run (before line rest)) 0 rest) ∧
      ((parse? line).isSome ↔ ∃ inside behind, rest = '(' :: inside ++ ')' :: behind ∧
        Closed inside ∧ nesting? .code 0 inside = some 0) := by
  constructor
  · intro indent keyword condition hindent hkeyword hclosed hnest t
    rw [parse?_printed hindent hkeyword hclosed hnest, ConditionalBody.ofText_eq]
  · intro line rest h
    obtain ⟨front, s, hfront, hbefore, rfl, rfl⟩ := exists_of_fromParen? h
    have hclosed : Closed front := hfront.plain.closed
    have hrun : Quoting.code.run front = .code := hclosed
    rw [hbefore, hrun]
    refine ⟨inLiteral_eq_false hclosed (by decide) s, checkedCut?_paren s, ?_⟩
    rw [parse?, h]
    dsimp only
    rw [hbefore, Option.isSome_map, Option.isSome_iff_exists, Prod.exists]
    exact exists_congr fun inside => exists_congr fun behind =>
      parenthesized?_eq_some_iff hclosed

/-- A condition with a parenthesis in a string, and a string that is never closed behind one. -/
theorem parse?_ifHeader_quoted :
    parse? "    \x7d else if ((a) && [b is:@\")\"]) return".toList =
        some ⟨"    ".toList, "\x7d else if".toList, some "(a) && [b is:@\")\"]".toList,
          .statement "return".toList⟩ ∧
      fromParen? "if (a) b = \"(".toList = some "(a) b = \"(".toList ∧
      inLiteral "if (a) b = \"(".toList (byteSize "if ".toList) = false ∧
      (parse? "if (a) b = \"(".toList).isSome := by
  have hspaces : ∀ c ∈ "    ".toList, isSpace c = true := List.all_eq_true.mp (by decide)
  have hkeyword : "\x7d else if".toList ∈ ifKeywords := by decide
  have hclosed : Closed "(a) && [b is:@\")\"]".toList := by decide
  have hparen : fromParen? "if (a) b = \"(".toList = some "(a) b = \"(".toList := by decide
  obtain ⟨hliteral, -, hiff⟩ := parse?_ifHeader.2 hparen
  refine ⟨parse?_ifHeader.1 hspaces hkeyword hclosed (by decide) " return".toList, hparen,
    hliteral, ?_⟩
  exact hiff.mpr ⟨['a'], " b = \"(".toList, rfl, by decide, by decide⟩

end Conditional

end Swiftward
