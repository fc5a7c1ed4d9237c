import Swiftward.Proofs.MessageSend.Brace
import Swiftward.Proofs.Statement.Rewording

/-!
# Braces of statements

Substitutions, delegations and declarations take away and write braceless text only, so a statement
keeps the balance of its line. The header of a conditional keeps all braces of its line too, and
gains one if its body follows (`Conditional.balance_render`).
-/

namespace Swiftward

lemma braceless_indent (line : Text) : Braceless (line.takeWhile isSpace) := by
  intro c hc
  exact isBraceless_of_isSpace (List.mem_takeWhile_imp hc)

lemma braceless_word {w : Text} (hw : ∀ c ∈ w, Unicode.isWord c = true) : Braceless w := by
  intro c hc
  exact isBraceless_of_isWord (hw c hc)

lemma Braceless.balance_append {u : Text} (hu : Braceless u) (s : Text) :
    balance (u ++ s) = balance s := by
  rw [Swiftward.balance_append, hu.balance_eq, zero_add]

/-! ### Reading from the front -/

lemma balance_after? {lead : String} (hlead : Braceless lead.toList) {s rest : Text}
    (h : after? lead s = some rest) : balance rest = balance s := by
  rw [after?_eq_some_iff.mp h, hlead.balance_append]

/-! ### Substitutions -/

lemma balance_stripMarkersAfter (previous : Option Char) (s : Text) :
    balance (stripMarkersAfter previous s) = balance s := by
  induction s generalizing previous with
  | nil => rfl
  | cons c s ih =>
    rw [stripMarkersAfter]
    split_ifs with hmarker
    · rw [ih, balance_cons, hmarker.1, balance_of_isBraceless (by decide), zero_add]
    · rw [balance_cons, ih, ← balance_cons]

lemma balance_dropSemicolon (s : Text) : balance (dropSemicolon s) = balance s := by
  unfold dropSemicolon
  cases h : before? ';' (trimEnd s) with
  | none => rfl
  | some front => exact (balance_of_before? (by decide) h).trans (balance_trimEnd s)

/-- The balance of the text of a token. -/
def Token.balance (t : Token Char) : Int := Swiftward.balance t.toText

lemma Token.balance_textOf (tokens : List (Token Char)) :
    Swiftward.balance (textOf tokens) = total balance tokens :=
  balance_flatMap toText tokens

lemma total_dropBlockTokens (dropping : Bool) (tokens : List (Token Char)) :
    total Token.balance (dropBlockTokens dropping tokens) = total Token.balance tokens := by
  fun_induction dropBlockTokens dropping tokens with
  | case1 => rfl
  | case2 dropping c rest hspace ih =>
    have hc : isSpace c = true := (Bool.and_eq_true_iff.mp hspace).2
    have hzero : Token.balance (.other c) = 0 := balance_of_isBraceless (isBraceless_of_isSpace hc)
    rw [ih, total_cons, hzero, zero_add]
  | case3 dropping c rest _ ih => rw [total_cons, ih, total_cons]
  | case4 dropping w rest hblock ih =>
    have hzero : Token.balance (.word w) = 0 := by rw [hblock.1]; decide
    rw [ih, total_cons, hzero, zero_add]
  | case5 dropping w rest _ ih => rw [total_cons, ih, total_cons]

lemma balance_dropBlock (s : Text) : balance (dropBlock s) = balance s := by
  rw [dropBlock, Token.balance_textOf, total_dropBlockTokens, ← Token.balance_textOf,
    Token.textOf_ofText]

lemma balance_replaceWords (words : List String) {replacement : String}
    (h : Braceless replacement.toList) (s : Text) :
    balance (replaceWords words replacement s) = balance s := by
  conv_rhs => rw [← Token.textOf_ofText s, Token.balance_textOf]
  rw [replaceWords, balance_flatMap]
  apply total_congr
  intro t ht
  cases t with
  | other c => rfl
  | word w =>
    have hw : Braceless w := braceless_word (Token.isWord_of_mem_ofText ht).2
    have hzero : Token.balance (.word w) = 0 := by
      rw [Token.balance, Token.toText, Symbol.ofText_char, hw.balance_eq]
    rw [hzero]
    dsimp only
    split_ifs
    · exact h.balance_eq
    · exact hw.balance_eq

theorem balance_substitute (s : Text) : balance (substitute s) = balance s := by
  simp only [substitute]
  rw [balance_replaceWords _ (by decide), balance_replaceWords _ (by decide),
    balance_replaceWords _ (by decide), balance_replaceWords _ (by decide), balance_dropBlock,
    balance_dropSemicolon, stripMarkers, balance_stripMarkersAfter]

/-! ### Conditionals -/

namespace Conditional

/-- The brace that is opened for a body that follows. -/
def opened (body : ConditionalBody) : Int := if body = .follows then 1 else 0

lemma balance_bodyText (s : Text) :
    balance (bodyText (.ofText s)) = balance s + opened (.ofText s) := by
  rw [← balance_trim s]
  unfold ConditionalBody.ofText
  split
  · next hnil =>
    rw [hnil]
    decide
  · next rest hbrace => 
    rw [hbrace, bodyText, balance_cons, balance_of_isBraceless (by decide)]
    simp [opened]
  · have hopen : balance " \x7b ".toList = 1 := by decide
    have hclose : balance " \x7d".toList = -1 := by decide
    rw [bodyText, balance_append, balance_append, hopen, hclose]
    simp [opened]

/-- The header of a conditional in Swift keeps the braces of its line, and opens one for a body
that follows. -/
theorem balance_render {line : Text} {c : Conditional} (h : parse? line = some c) :
    balance c.render = balance line + opened c.body := by
  have hline : balance line = balance (trimStart line) := (balance_trimStart line).symm
  have hindent := (braceless_indent line).balance_eq
  rw [render_eq, balance_append]
  unfold parse? at h
  split at h
  · next rest hparen =>
    obtain ⟨⟨inside, behind⟩, hcut, rfl⟩ := Option.map_eq_some_iff.mp h
    have hskips := skips_fromParen? hparen
    have hwhole : Skips line rest := (Skips.trimStart line).trans hskips
    obtain ⟨hinside, -⟩ := (parenthesized?_eq_some_iff hwhole.before_eq.1.closed).mp hcut
    have hstart : trimStart line = keywordBefore line rest ++ rest := hskips.before_eq.2
    have hparenthesis : balance rest = balance inside + balance behind := by
      rw [hinside, balance_append, balance_cons '(', balance_cons ')',
        balance_of_isBraceless (by decide), balance_of_isBraceless (by decide), zero_add, zero_add]
    have hheader : balance (header ⟨line.takeWhile isSpace, trimEnd (keywordBefore line rest),
        some (trim inside), .ofText behind⟩) =
          balance (keywordBefore line rest) + balance inside := by
      simp only [header]
      rw [balance_append, balance_append, balance_cons, balance_of_isBraceless (by decide), hindent,
        balance_trimEnd, balance_trim, zero_add, zero_add]
    rw [hheader, balance_bodyText, hline, hstart, balance_append, hparenthesis]
    simp only [add_assoc]
  · obtain ⟨rest, helse, hbody⟩ := Option.bind_eq_some_iff.mp h
    split at hbody
    · simp at hbody
    · obtain rfl := Option.some.inj hbody
      have hskips := skips_afterElse? helse
      have hstart : trimStart line = keywordBefore line rest ++ rest := hskips.before_eq.2
      have hheader : balance (header ⟨line.takeWhile isSpace, keywordBefore line rest, none,
          .ofText rest⟩) = balance (keywordBefore line rest) := by
        simp only [header]
        rw [balance_append, hindent, zero_add]
      rw [hheader, balance_bodyText, hline, hstart, balance_append, add_assoc]

end Conditional

/-! ### Delegations and declarations -/

lemma balance_nameInitializer (call : Text) : balance (nameInitializer call) = balance call := by
  unfold nameInitializer
  cases hsuper : after? "super(" call with
  | some arguments =>
    have hinitializer : Braceless "super.init(".toList := by decide
    exact (hinitializer.balance_append arguments).trans (balance_after? (by decide) hsuper)
  | none =>
    cases hself : after? "self(" call with
    | some arguments =>
      have hinitializer : Braceless "self.init(".toList := by decide
      exact (hinitializer.balance_append arguments).trans (balance_after? (by decide) hself)
    | none => rfl

lemma balance_dropSelfAssignment? {line call : Text} (h : dropSelfAssignment? line = some call) :
    balance call = balance line := by
  obtain ⟨⟨indent, value⟩, hassignment, hcall⟩ := Option.bind_eq_some_iff.mp h
  simp only [selfAssignment?, Option.bind_eq_bind, Option.bind_eq_some_iff] at hassignment
  obtain ⟨s, hself, t, hequals, heq⟩ := hassignment
  obtain ⟨rfl, rfl⟩ := Prod.mk.inj (Option.some.inj heq)
  simp only at hcall
  split at hcall
  · simp at hcall
  · obtain rfl := Option.some.inj hcall
    rw [(braceless_indent line).balance_append, balance_nameInitializer, balance_trimEnd,
      balance_trimStart, balance_after? (by decide) hequals, balance_trimStart,
      balance_after? (by decide) hself, balance_trimStart]

lemma LocalDeclaration.balance_render {line : Text} {d : LocalDeclaration}
    (h : parse? line = some d) : balance d.render = balance line := by
  obtain ⟨l, rfl, -, rfl⟩ := exists_of_parse? h
  obtain ⟨front, head, value, htext, hrender, hfront, hhead⟩ :=
    l.exists_render (isBraceless · = true) (fun _ _ => isBraceless_of_isSpace)
      (fun _ => isBraceless_of_isWord) (List.all_eq_true.mp (by decide))
  rw [htext, hrender, Braceless.balance_append hfront, Braceless.balance_append hhead, balance_trim]

/-! ### Statements -/

/-- A statement keeps the braces of its line, and opens one if it is a header whose body follows. -/
def Statement.opened : Statement → Int
  | conditional header => Conditional.opened header.body
  | done _ => 0

theorem Statement.balance_ofCode (code : Text) :
    balance (ofCode code).text = balance code + (ofCode code).opened := by
  have hconverted : balance (collapseSends (substitute code)) = balance code := by
    rw [balance_collapseSends, balance_substitute]
  unfold ofCode
  simp only
  generalize collapseSends (substitute code) = converted at hconverted
  rw [← hconverted]
  split
  · next header hparse => exact Conditional.balance_render hparse
  · split
    · rw [opened, add_zero, text]
      cases hcall : dropSelfAssignment? converted with
      | none => rfl
      | some call => exact balance_dropSelfAssignment? hcall
    · split
      · next declaration hparse =>
        rw [opened, add_zero]
        exact LocalDeclaration.balance_render hparse
      · rw [opened, add_zero, text]

end Swiftward
