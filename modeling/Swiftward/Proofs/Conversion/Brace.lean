import Swiftward.Proofs.Conversion.Account
import Swiftward.Proofs.Statement.Brace
import Swiftward.Proofs.Text.Comment

/-!
# The balance of a conversion

Among statements, a converted text has the balance of its source: each brace that is opened for the
body of a conditional is closed again by a brace that is made behind the body, or else it stands for
the brace on the next line, which is taken in (`balance_convertText`).
-/

namespace Swiftward

/-! ### Lines of statements -/

/-- The line is blank or a statement, and no guard. -/
def IsStatementLine (line : Text) : Prop :=
  ((splitComment line).1 ≠ [] →
    Construct.ofCode (splitComment line).1 = .statement (.ofCode (splitComment line).1)) ∧
      ¬IsGuard line

lemma IsConstruct.eq_statement {line comment : Text} {construct : Construct}
    (h : IsConstruct line construct comment) (hline : IsStatementLine line) :
    construct = .statement (.ofCode (splitComment line).1) :=
  h.ofCode.symm.trans (hline.1 h.code_ne_nil)

/-- A statement in Swift, with its comment, has the balance of the line but for what it opens. -/
lemma IsConstruct.balance_eq {line comment : Text} {statement : Statement}
    (h : IsConstruct line (.statement statement) comment) (hline : IsStatementLine line) :
    balance (statement.text ++ comment) = balance line + statement.opened := by
  have hstatement : statement = .ofCode (splitComment line).1 :=
    Construct.statement.inj (h.eq_statement hline)
  have hline : balance line = balance (splitComment line).1 + balance comment := by
    conv_lhs => rw [← code_append_comment line, balance_append, h.comment_eq]
  rw [balance_append, hstatement, Statement.balance_ofCode, hline]
  ring

/-- A unit of one line that opens no brace keeps the balance. -/
lemma Alone.balance_eq {line : Text} {s t : LineSource} {lines : List OutputLine}
    (h : Alone line s lines t) (hline : IsStatementLine line) (hawaits : awaitsBody line = false) :
    total balance (textsOf lines) + total balance t.texts = balance line + total balance s.texts := by
  have hone {text : Text} (htext : balance text = balance line) :
      total balance (textsOf [s.emit text]) = balance line := by
    simp [LineSource.emit, htext]
  cases h with
  | imported h => cases h.eq_statement hline
  | dropped h => cases h.eq_statement hline
  | implementation h => cases h.eq_statement hline
  | interface h => cases h.eq_statement hline
  | blockEnd h => cases h.eq_statement hline
  | synthesize h => cases h.eq_statement hline
  | method h => cases h.eq_statement hline
  | braced h hself hbody hbrace => simp [h.awaitsBody hself, hbody] at hawaits
  | blank h =>
    rw [hone]
    conv_rhs => rw [← code_append_comment line, h, List.nil_append]
  | done h =>
    rw [hone]
    simpa [Statement.text, Statement.opened] using h.balance_eq hline
  | header h hself hbody =>
    rw [hone]
    simpa [Statement.text, Statement.opened, Conditional.opened, hbody] using h.balance_eq hline

lemma balance_closing {indent : Text} (h : ∀ c ∈ indent, isSpace c = true) :
    balance (indent ++ ['\x7d']) = -1 := by
  have hindent : Braceless indent := fun c hc => isBraceless_of_isSpace (h c hc)
  exact (hindent.balance_append _).trans (by decide)

lemma balance_loneBrace {line : Text} (h : isLoneBrace line = true) : balance line = 1 := by
  rw [← balance_trim line, of_decide_eq_true h]
  decide

/-- The lines of statements are converted one by one, and a header whose body follows opens a
brace. -/
lemma weighing_balance : Weighing IsStatementLine balance 1 (-1) 1 where
  not_guard h := h.2
  alone hline h hawaits := h.balance_eq hline hawaits
  header hline h hself hfollows := by
    have hbalance := h.balance_eq hline
    rwa [Statement.opened, Conditional.opened, if_pos hfollows] at hbalance
  closing h := by
    rw [Conditional.indent_eq h.parse?_of_conditional]
    exact balance_closing fun c hc => List.mem_takeWhile_imp hc
  brace h := balance_loneBrace h

/-! ### Texts of statements -/

/-- What begins a line that is no statement: the sigils of methods, and the declarations that are
left out or made anew. -/
def declarationLeads : List String :=
  ["+", "-", "@interface", "@implementation", "@synthesize", "@dynamic", "@end"]

lemma isStatementLine_of {line : Text} (hleads : ∀ lead ∈ declarationLeads, ¬lead.toList <+: line)
    (himport : Import.parse? (splitComment line).1 = none) (hguard : ¬IsGuard line) :
    IsStatementLine line := by
  refine ⟨?_, hguard⟩
  intro hcode
  have hfront : (splitComment line).1 <+: line := ⟨_, code_append_comment line⟩
  have hnone (lead : String) (hlead : lead ∈ declarationLeads) :
      after? lead (splitComment line).1 = none :=
    after?_eq_none fun h => hleads lead hlead (h.trans hfront)
  have hsigil : MethodHeader.sigil? (splitComment line).1 = none := by
    unfold MethodHeader.sigil?
    split
    · next s heq => simpa [heq, after?, strip?] using hnone "+" (by decide)
    · next s heq => simpa [heq, after?, strip?] using hnone "-" (by decide)
    · rfl
  have hkeywords : ∀ lead ∈ keywordLeads, after? lead (splitComment line).1 = none := by
    intro lead hlead
    have hall : ∀ lead ∈ keywordLeads, lead ∈ declarationLeads := by decide
    exact hnone lead (hall lead hlead)
  rw [Construct.ofCode_of_no_lead himport hkeywords, hsigil]
  rfl

/-- Where no line begins with a sigil or a declaration, is an import, or becomes a guard, a text in
Swift has as many opening braces more than closing ones as the text that it was made from. -/
theorem balance_convertText (width : Nat) {source : Text}
    (hleads : ∀ line ∈ lines source, ∀ lead ∈ declarationLeads, ¬lead.toList <+: line)
    (himport : ∀ line ∈ lines source, Import.parse? (splitComment (trimEnd line)).1 = none)
    (hguard : ∀ line ∈ lines source, ¬IsGuard (trimEnd line)) :
    balance (convertText width source) = balance source := by
  have hahead : ∀ text ∈ (LineSource.ofLines width (lines source)).texts, IsStatementLine text := by
    rw [LineSource.texts_ofLines]
    intro text htext
    obtain ⟨line, hline, rfl⟩ := List.mem_map.mp htext
    refine isStatementLine_of ?_ (himport line hline) (hguard line hline)
    intro lead hlead hfront
    exact hleads line hline lead hlead (hfront.trans (prefix_trimEnd line))
  have htrim : total balance ((lines source).map trimEnd) = total balance (lines source) :=
    total_map fun line _ => balance_trimEnd line
  have hweight := weight_convertUnits weighing_balance hahead
  rw [LineSource.texts_ofLines, htrim, balance_lines] at hweight
  rw [convertText, outputText, balance_unlines]
  exact hweight

/-- A header without a brace around a header with a brace on the next line, which nothing closes. -/
def openBody : Text := "if (a)\n    if (b)\n    \x7b\n        [c d];\n".toList

theorem balance_convertText_openBody :
    balance openBody = 1 ∧ balance (convertText 4 openBody) = 1 := by
  have hsource : balance openBody = 1 := by decide
  have hleads : ∀ line ∈ lines openBody, ∀ lead ∈ declarationLeads, ¬lead.toList <+: line := by
    decide
  have himport : ∀ line ∈ lines openBody,
      Import.parse? (splitComment (trimEnd line)).1 = none := by
    decide
  have hguard : ∀ line ∈ lines openBody, ¬IsGuard (trimEnd line) := by
    decide +kernel
  exact ⟨hsource, (balance_convertText 4 hleads himport hguard).trans hsource⟩

end Swiftward
