import Swiftward.Proofs.Text.LiteralSpan

/-!
# Where innermost brackets stand

Two square brackets outside of the literals of a text are an innermost pair if the first opens, the
second closes and none stands between them. The pairs are found from left to right, all of them and
each once. A reader with a stack of the brackets that are still open matches more: every innermost
pair is one of its pairs, and each of its pairs encloses an innermost one (`innermostPairs_exact`).

All of this is about the brackets of the text alone (`codeBrackets`). Their offsets increase, so two
of them are neighbours in their list exactly if none stands between them in the text, and the pairs
that are found are the neighbours of which one opens and the next one closes
(`innermostPairs_eq_neighbours`).
-/

namespace Swiftward

/-! ### The brackets of a text -/

/-- The character stands at a byte of the text, outside of its literals. -/
def InCode (s : Text) (c : Char) (offset : Nat) : Prop :=
  (∃ rest, RestAt s offset (c :: rest)) ∧ inLiteral s offset = false

/-- A square bracket outside of literals, by its offset. -/
inductive CodeBracket where
  | opening (offset : Nat)
  | closing (offset : Nat)
  deriving DecidableEq, Repr

namespace CodeBracket

def char : CodeBracket → Char
  | opening _ => '['
  | closing _ => ']'

def offset : CodeBracket → Nat
  | opening offset => offset
  | closing offset => offset

/-- The bracket that a character at a byte of the text is, if it is one. -/
def at? (s : Text) (offset : Nat) (c : Char) : Option CodeBracket :=
  if inLiteral s offset then none
  else if c = '[' then some (opening offset)
  else if c = ']' then some (closing offset)
  else none

lemma at?_eq_some_iff {s : Text} {offset : Nat} {c : Char} {bracket : CodeBracket} :
    at? s offset c = some bracket ↔
      bracket.offset = offset ∧ bracket.char = c ∧ inLiteral s offset = false := by
  cases bracket <;> grind [at?, char, CodeBracket.offset]

end CodeBracket

/-- The square brackets of the rest of the text `s` that begins at `offset`. -/
def codeBracketsFrom (s : Text) (offset : Nat) : Text → List CodeBracket
  | [] => []
  | c :: rest =>
    (CodeBracket.at? s offset c).toList ++ codeBracketsFrom s (offset + c.utf8Size) rest

/-- The square brackets of a text outside of its literals, from left to right. -/
def codeBrackets (s : Text) : List CodeBracket := codeBracketsFrom s 0 s

lemma codeBracketsFrom_append (s : Text) (offset : Nat) (t rest : Text) :
    codeBracketsFrom s offset (t ++ rest) =
      codeBracketsFrom s offset t ++ codeBracketsFrom s (offset + byteSize t) rest := by
  induction t generalizing offset with
  | nil => rfl
  | cons c t ih =>
    rw [List.cons_append, codeBracketsFrom, codeBracketsFrom, ih, List.append_assoc, byteSize_cons,
      Nat.add_assoc]

lemma inCode_of_mem {s rest : Text} {offset : Nat} (h : RestAt s offset rest) :
    ∀ bracket ∈ codeBracketsFrom s offset rest,
      offset ≤ bracket.offset ∧ InCode s bracket.char bracket.offset := by
  induction rest generalizing offset with
  | nil => simp [codeBracketsFrom]
  | cons c rest ih =>
    intro bracket hmem
    rw [codeBracketsFrom, List.mem_append, Option.mem_toList] at hmem
    rcases hmem with hat | hlater
    · obtain ⟨rfl, rfl, hout⟩ := CodeBracket.at?_eq_some_iff.mp hat
      exact ⟨Nat.le_refl _, ⟨rest, h⟩, hout⟩
    · obtain ⟨hle, hcode⟩ := ih h.next bracket hlater
      exact ⟨by omega, hcode⟩

lemma mem_codeBrackets_iff {s : Text} {bracket : CodeBracket} :
    bracket ∈ codeBrackets s ↔ InCode s bracket.char bracket.offset := by
  refine ⟨fun hmem => (inCode_of_mem (.zero s) bracket hmem).2, ?_⟩
  rintro ⟨⟨rest, front, hs, hoffset⟩, hout⟩
  have hat : CodeBracket.at? s bracket.offset bracket.char = some bracket :=
    CodeBracket.at?_eq_some_iff.mpr ⟨rfl, rfl, hout⟩
  have hbrackets : codeBrackets s = codeBracketsFrom s 0 (front ++ bracket.char :: rest) :=
    congrArg (codeBracketsFrom s 0) hs
  rw [hbrackets, codeBracketsFrom_append, Nat.zero_add, hoffset, codeBracketsFrom, hat]
  simp

/-- The brackets increase. -/
def Increasing (brackets : List CodeBracket) : Prop :=
  brackets.Pairwise fun bracket later => bracket.offset < later.offset

lemma increasing_codeBracketsFrom {s rest : Text} {offset : Nat} (h : RestAt s offset rest) :
    Increasing (codeBracketsFrom s offset rest) := by
  induction rest generalizing offset with
  | nil => exact .nil
  | cons c rest ih =>
    rw [codeBracketsFrom]
    cases hat : CodeBracket.at? s offset c with
    | none => exact ih h.next
    | some bracket =>
      obtain ⟨rfl, -, -⟩ := CodeBracket.at?_eq_some_iff.mp hat
      refine List.pairwise_cons.mpr ⟨fun later hlater => ?_, ih h.next⟩
      have hle := (inCode_of_mem h.next later hlater).1
      have hpos := c.utf8Size_pos
      omega

lemma increasing_codeBrackets (s : Text) : Increasing (codeBrackets s) :=
  increasing_codeBracketsFrom (.zero s)

/-! ### Neighbours -/

/-- The pairs of a bracket that opens and one that closes right behind it. -/
def neighbours : List CodeBracket → List (Nat × Nat)
  | .opening opening :: .closing closing :: brackets =>
    (opening, closing) :: neighbours brackets
  | _ :: brackets => neighbours brackets
  | [] => []

lemma mem_neighbours_iff {brackets : List CodeBracket} {opening closing : Nat} :
    (opening, closing) ∈ neighbours brackets ↔
      [.opening opening, .closing closing] <:+: brackets := by
  fun_induction neighbours brackets with
  | case1 first second brackets ih =>
    simp [List.infix_cons_iff, ih, eq_comm]
  | case2 bracket brackets hnot ih =>
    rw [ih, List.infix_cons_iff, or_iff_right]
    rintro ⟨back, hback⟩
    obtain ⟨rfl, rfl⟩ := List.cons.inj hback
    exact hnot opening closing back rfl rfl
  | case3 => simp

namespace Increasing

variable {brackets front back : List CodeBracket} {bracket later : CodeBracket}

lemma of_append (h : Increasing (front ++ back)) : Increasing back :=
  (List.pairwise_append.mp h).2.1

/-- A bracket with a greater offset comes later. -/
lemma exists_behind (h : Increasing brackets) (hmem : bracket ∈ brackets) (hlater : later ∈ brackets)
    (hlt : bracket.offset < later.offset) :
    ∃ front back, brackets = front ++ bracket :: back ∧ later ∈ back := by
  obtain ⟨front, back, rfl⟩ := List.append_of_mem hmem
  refine ⟨front, back, rfl, ?_⟩
  rcases List.mem_append.mp hlater with hfront | hback
  · have hbefore := (List.pairwise_append.mp h).2.2 later hfront bracket List.mem_cons_self
    omega
  · rcases List.mem_cons.mp hback with rfl | hback
    · exact absurd hlt (Nat.lt_irrefl _)
    · exact hback

/-- Two brackets are neighbours if none stands between them. -/
lemma isInfix_pair_iff (h : Increasing brackets) :
    [bracket, later] <:+: brackets ↔
      bracket ∈ brackets ∧ later ∈ brackets ∧ bracket.offset < later.offset ∧
        ∀ other ∈ brackets, bracket.offset < other.offset → ¬other.offset < later.offset := by
  constructor
  · rintro ⟨front, back, rfl⟩
    have hsplit : front ++ [bracket, later] ++ back = front ++ (bracket :: later :: back) := by simp
    rw [hsplit] at h ⊢
    obtain ⟨-, hpair, hfront⟩ := List.pairwise_append.mp h
    obtain ⟨hbracket, hback⟩ := List.pairwise_cons.mp hpair
    refine ⟨by simp, by simp, hbracket later List.mem_cons_self, fun other hother hlt => ?_⟩
    rcases List.mem_append.mp hother with hother | hother
    · have hbefore := hfront other hother bracket List.mem_cons_self
      omega
    · rcases List.mem_cons.mp hother with rfl | hother
      · omega
      · rcases List.mem_cons.mp hother with rfl | hother
        · omega
        · have hbehind := List.rel_of_pairwise_cons hback hother
          omega
  · rintro ⟨hmem, hlater, hlt, hnone⟩
    obtain ⟨front, back, rfl, hback⟩ := h.exists_behind hmem hlater hlt
    obtain ⟨hbracket, hincreasing⟩ := List.pairwise_cons.mp h.of_append
    cases back with
    | nil => cases hback
    | cons next back =>
      rcases List.mem_cons.mp hback with rfl | hback
      · exact ⟨front, back, by simp⟩
      · -- the next bracket would stand between the two
        have hnext := hbracket next List.mem_cons_self
        have hbehind := List.rel_of_pairwise_cons hincreasing hback
        exact absurd hbehind (hnone next (by simp) hnext)

lemma pairwise_neighbours (h : Increasing brackets) :
    (neighbours brackets).Pairwise fun pair later => pair.2 < later.1 := by
  fun_induction neighbours brackets with
  | case1 opening closing brackets ih =>
    obtain ⟨-, hrest⟩ := List.pairwise_cons.mp h
    obtain ⟨hclosing, hbrackets⟩ := List.pairwise_cons.mp hrest
    refine List.pairwise_cons.mpr ⟨fun later hlater => ?_, ih hbrackets⟩
    have hpair := mem_neighbours_iff.mp hlater
    exact hclosing _ (hpair.subset List.mem_cons_self)
  | case2 bracket brackets hnot ih => exact ih (List.pairwise_cons.mp h).2
  | case3 => exact .nil

/-- Between a bracket that opens and a later one that closes there are two neighbours of which one
opens and one closes. -/
lemma exists_neighbours {opening closing : Nat} (h : Increasing (.opening opening :: brackets))
    (hclosing : .closing closing ∈ brackets) :
    ∃ inner : Nat × Nat, [.opening inner.1, .closing inner.2] <:+: .opening opening :: brackets ∧
      opening ≤ inner.1 ∧ inner.2 ≤ closing := by
  induction brackets generalizing opening with
  | nil => cases hclosing
  | cons next brackets ih =>
    obtain ⟨hopening, hnext⟩ := List.pairwise_cons.mp h
    cases next with
    | closing offset =>
      refine ⟨(opening, offset), ⟨[], brackets, rfl⟩, Nat.le_refl _, ?_⟩
      rcases List.mem_cons.mp hclosing with heq | hlater
      · exact Nat.le_of_eq (CodeBracket.closing.inj heq).symm
      · exact Nat.le_of_lt (List.rel_of_pairwise_cons hnext hlater)
    | opening offset =>
      obtain ⟨inner, hinner, hle, hge⟩ := ih hnext (List.mem_of_ne_of_mem (by simp) hclosing)
      have hlt : opening < offset := hopening _ List.mem_cons_self
      exact ⟨inner, hinner.trans (List.suffix_cons _ _).isInfix, by omega, hge⟩

end Increasing

/-! ### Brackets that a stack matches -/

/-- The pairs that are matched with a stack of the brackets that are still open, the last one on top.
A bracket that closes nothing is passed over. -/
def matchedWith : List Nat → List CodeBracket → List (Nat × Nat)
  | _, [] => []
  | stack, .opening offset :: brackets => matchedWith (offset :: stack) brackets
  | [], .closing _ :: brackets => matchedWith [] brackets
  | opening :: stack, .closing offset :: brackets =>
    (opening, offset) :: matchedWith stack brackets

/-- The pairs of square brackets of a text that a stack matches. -/
def matchedPairs (s : Text) : List (Nat × Nat) := matchedWith [] (codeBrackets s)

/-- What is matched was open before, or opens before it closes. -/
lemma exists_of_mem_matchedWith {stack : List Nat} {brackets : List CodeBracket} {pair : Nat × Nat}
    (h : pair ∈ matchedWith stack brackets) :
    pair.1 ∈ stack ∧ .closing pair.2 ∈ brackets ∨
      ∃ front back, brackets = front ++ .opening pair.1 :: back ∧ .closing pair.2 ∈ back := by
  fun_induction matchedWith stack brackets with
  | case1 => cases h
  | case2 stack offset brackets ih =>
    rcases ih h with ⟨hopening, hclosing⟩ | ⟨front, back, rfl, hclosing⟩
    · rcases List.mem_cons.mp hopening with rfl | hopening
      · exact .inr ⟨[], brackets, rfl, hclosing⟩
      · exact .inl ⟨hopening, List.mem_cons_of_mem _ hclosing⟩
    · exact .inr ⟨.opening offset :: front, back, rfl, hclosing⟩
  | case3 offset brackets ih =>
    rcases ih h with ⟨hopening, -⟩ | ⟨front, back, rfl, hclosing⟩
    · cases hopening
    · exact .inr ⟨.closing offset :: front, back, rfl, hclosing⟩
  | case4 opening stack offset brackets ih =>
    rcases List.mem_cons.mp h with rfl | h
    · exact .inl ⟨List.mem_cons_self, List.mem_cons_self⟩
    · rcases ih h with ⟨hopening, hclosing⟩ | ⟨front, back, rfl, hclosing⟩
      · exact .inl ⟨List.mem_cons_of_mem _ hopening, List.mem_cons_of_mem _ hclosing⟩
      · exact .inr ⟨.closing offset :: front, back, rfl, hclosing⟩

/-- Neighbours are matched, whatever is open before them. -/
lemma neighbours_subset_matchedWith (stack : List Nat) (brackets : List CodeBracket) :
    neighbours brackets ⊆ matchedWith stack brackets := by
  fun_induction neighbours brackets generalizing stack with
  | case1 opening closing brackets ih => exact List.cons_subset_cons _ (ih stack)
  | case2 bracket brackets hnot ih =>
    cases bracket with
    | opening offset => exact ih (offset :: stack)
    | closing offset =>
      cases stack with
      | nil => exact ih []
      | cons opening stack => exact List.subset_cons_of_subset _ (ih stack)
  | case3 => exact List.nil_subset _

/-! ### The pairs that are found -/

/-- The square brackets of the rest of a text that begins at `offset` and is read in state `q`. -/
def readBrackets (q : Quoting) (offset : Nat) : Text → List CodeBracket
  | [] => []
  | c :: s =>
    let later := readBrackets (q.step c) (offset + c.utf8Size) s
    if q.bare '[' c then .opening offset :: later
    else if q.bare ']' c then .closing offset :: later
    else later

/-- The state tells whether a character other than a quote stands outside of literals. -/
lemma bare_iff_inLiteral {d : Char} (hd : isUnquoted d = true) (front : Text) (c : Char)
    (rest : Text) :
    (Quoting.code.run front).bare d c = true ↔
      c = d ∧ inLiteral (front ++ c :: rest) (byteSize front) = false := by
  rw [Quoting.bare_iff, and_comm]
  refine and_congr_right ?_
  rintro rfl
  exact (inLiteral_eq_false_iff hd rest).symm

/-- The reader finds the brackets outside of literals. -/
lemma readBrackets_eq (front rest : Text) :
    readBrackets (Quoting.code.run front) (byteSize front) rest =
      codeBracketsFrom (front ++ rest) (byteSize front) rest := by
  induction rest generalizing front with
  | nil => rfl
  | cons c rest ih =>
    have hlater : readBrackets ((Quoting.code.run front).step c) (byteSize front + c.utf8Size) rest =
        codeBracketsFrom (front ++ c :: rest) (byteSize front + c.utf8Size) rest := by
      simpa using ih (front ++ [c])
    have hopening : isUnquoted '[' = true := by decide
    have hclosing : isUnquoted ']' = true := by decide
    rw [readBrackets, codeBracketsFrom, CodeBracket.at?, hlater]
    simp only [bare_iff_inLiteral hopening front c rest, bare_iff_inLiteral hclosing front c rest]
    cases inLiteral (front ++ c :: rest) (byteSize front) with
    | true => simp
    | false =>
      simp only [and_true, Bool.false_eq_true, if_false]
      split_ifs <;> rfl

lemma readBrackets_of_interior? {q : Quoting} {s inside rest : Text}
    (h : interior? q s = some (inside, rest)) (offset : Nat) :
    readBrackets q offset s = .closing (offset + byteSize inside) ::
      readBrackets .code (offset + byteSize inside + 1) rest := by
  induction s generalizing q inside offset with
  | nil => cases h
  | cons c s ih =>
    rw [interior?] at h
    split_ifs at h with hclose hopen
    · obtain ⟨rfl, rfl⟩ := Quoting.bare_iff.mp hclose
      cases h
      rfl
    · obtain ⟨⟨inside', rest'⟩, hinterior, heq⟩ := Option.map_eq_some_iff.mp h
      obtain ⟨rfl, rfl⟩ : c :: inside' = inside ∧ rest' = rest := by simpa using heq
      rw [readBrackets, if_neg hopen, if_neg hclose, ih hinterior, byteSize_cons, Nat.add_assoc]

/-- Where no bracket closes next, one that opens before has no neighbour. -/
lemma neighbours_of_interior? {q : Quoting} {s : Text} (h : interior? q s = none)
    (opening offset : Nat) :
    neighbours (.opening opening :: readBrackets q offset s) =
      neighbours (readBrackets q offset s) := by
  induction s generalizing q offset with
  | nil => rfl
  | cons c s ih =>
    rw [interior?] at h
    split_ifs at h with hclose hopen
    · rw [readBrackets, if_pos hopen]
      rfl
    · rw [readBrackets, if_neg hopen, if_neg hclose]
      exact ih (Option.map_eq_none_iff.mp h) _

lemma offsetsFrom_cons (offset : Nat) (c : Char) (cut : Bracketed Char) :
    Bracketed.offsetsFrom offset (cut.cons c).pairs =
      Bracketed.offsetsFrom (offset + c.utf8Size) cut.pairs := by
  obtain ⟨_ | ⟨pair, pairs⟩, tail⟩ := cut
  · rfl
  · simp only [Bracketed.cons, Bracketed.offsetsFrom, byteSize_cons, Nat.add_assoc]

lemma offsetsFrom_ofTextFrom (q : Quoting) (offset : Nat) (s : Text) :
    Bracketed.offsetsFrom offset (Bracketed.ofTextFrom q s).pairs =
      neighbours (readBrackets q offset s) := by
  fun_induction Bracketed.ofTextFrom q s generalizing offset with
  | case1 => rfl
  | case2 q c s inside rest hopened later ih =>
    split_ifs at hopened with hopen
    obtain ⟨rfl, rfl⟩ := Quoting.bare_iff.mp hopen
    have hclosing := readBrackets_of_interior? hopened (offset + 1)
    have hopening : readBrackets .code offset (Symbol.ofChar '[' :: s) =
        .opening offset :: readBrackets .code (offset + 1) s := rfl
    rw [hopening, hclosing, neighbours, ← ih]
    rfl
  | case3 q c s hnone ih =>
    rw [offsetsFrom_cons, ih, readBrackets]
    split_ifs with hopen hclose
    · rw [dif_pos hopen] at hnone
      obtain ⟨rfl, rfl⟩ := Quoting.bare_iff.mp hopen
      exact (neighbours_of_interior? hnone offset _).symm
    · rfl
    · rfl

/-- The pairs that are found are the neighbours of which one opens and one closes. -/
lemma innermostPairs_eq_neighbours (s : Text) : innermostPairs s = neighbours (codeBrackets s) :=
  (offsetsFrom_ofTextFrom .code 0 s).trans (congrArg neighbours (readBrackets_eq [] s))

/-- A bracket opens and a later one closes, with none between the two. Brackets in literals do not
count. -/
structure IsInnermost (s : Text) (opening closing : Nat) : Prop where
  opens : InCode s '[' opening
  closes : InCode s ']' closing
  lt : opening < closing
  between : ∀ offset, opening < offset → offset < closing →
    ¬InCode s '[' offset ∧ ¬InCode s ']' offset

lemma mem_innermostPairs_iff {s : Text} {opening closing : Nat} :
    (opening, closing) ∈ innermostPairs s ↔ IsInnermost s opening closing := by
  rw [innermostPairs_eq_neighbours, mem_neighbours_iff, (increasing_codeBrackets s).isInfix_pair_iff]
  simp only [mem_codeBrackets_iff, CodeBracket.char, CodeBracket.offset]
  constructor
  · rintro ⟨hopening, hclosing, hlt, hnone⟩
    exact ⟨hopening, hclosing, hlt, fun offset hle hge =>
      ⟨fun hopen => hnone (.opening offset) hopen hle hge,
        fun hclose => hnone (.closing offset) hclose hle hge⟩⟩
  · rintro ⟨hopening, hclosing, hlt, hbetween⟩
    refine ⟨hopening, hclosing, hlt, fun other hother hle hge => ?_⟩
    obtain ⟨hopen, hclose⟩ := hbetween other.offset hle hge
    cases other with
    | opening => exact hopen hother
    | closing => exact hclose hother

/-- The innermost pairs of a text are found from left to right, all of them and no others. They are
pairs that a stack matches, and each pair that a stack matches encloses one of them. -/
theorem innermostPairs_exact (s : Text) :
    ((innermostPairs s).Pairwise fun pair later => pair.2 < later.1) ∧
      (∀ opening closing,
        (opening, closing) ∈ innermostPairs s ↔ IsInnermost s opening closing) ∧
      innermostPairs s ⊆ matchedPairs s ∧
      ∀ pair ∈ matchedPairs s, ∃ inner ∈ innermostPairs s, pair.1 ≤ inner.1 ∧ inner.2 ≤ pair.2 := by
  have hincreasing := increasing_codeBrackets s
  refine ⟨?_, fun opening closing => mem_innermostPairs_iff, ?_, fun pair hpair => ?_⟩
  · rw [innermostPairs_eq_neighbours]
    exact hincreasing.pairwise_neighbours
  · rw [innermostPairs_eq_neighbours]
    exact neighbours_subset_matchedWith [] _
  · obtain ⟨hopen, -⟩ | ⟨front, back, heq, hclosing⟩ := exists_of_mem_matchedWith hpair
    · cases hopen
    · rw [heq] at hincreasing
      obtain ⟨inner, hinner, hle, hge⟩ := hincreasing.of_append.exists_neighbours hclosing
      refine ⟨inner, ?_, hle, hge⟩
      rw [innermostPairs_eq_neighbours, mem_neighbours_iff, heq]
      exact hinner.trans (List.suffix_append front _).isInfix

/-- A bracket in a literal and two that stay alone. -/
example : innermostPairs "] é[[a b] c:\"]\"] [".toList = [(5, 9)] ∧
    matchedPairs "] é[[a b] c:\"]\"] [".toList = [(5, 9), (4, 16)] := by decide +kernel

end Swiftward
