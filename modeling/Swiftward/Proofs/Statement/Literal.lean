import Swiftward.Proofs.Conversion.Derivation
import Swiftward.Proofs.Statement.Rewording
import Swiftward.Proofs.Statement.Simultaneous

/-!
# The literals of a statement

From a line to what is written out for it, the literals change in one way only: the word
substitutions apply inside them as they do in code (`literalTexts_convertUnit`). A literal without
any of these words comes out as it was (`substituteWords_eq_self`).
-/

namespace Swiftward

/-! ### Literals without substituted words -/

/-- The words that substitutions remove or replace. -/
def substitutedWords : List String :=
  ["__block", "NO", "YES", "NSLog", "NSAssert", "NSCAssert", "NSParameterAssert"]

lemma lineRule_of_forall_ne {w : Text} (h : ∀ v ∈ substitutedWords, v.toList ≠ w) :
    lineRule.drops w = false ∧ lineRule.replace w = w := by
  have htable : ∀ v ∈ replacedWords, ∃ x ∈ substitutedWords, x.toList = v := by decide
  refine ⟨decide_eq_false (h "__block" (by decide)).symm, wordSubstitute_of_not_mem ?_⟩
  intro hw
  obtain ⟨x, hx, hword⟩ := htable w hw
  exact h x hx hword

/-- A text without any of the words stays as it is. -/
theorem substituteWords_eq_self {s : Text}
    (h : ∀ w ∈ substitutedWords, .word w.toList ∉ Token.ofText s) : substituteWords s = s := by
  refine (isPass_substituteWords.rewrites s).eq_self fun w hw => lineRule_of_forall_ne ?_
  rintro v hv rfl
  exact h v hv hw

/-! ### What is written out -/

/-- Whether nothing is written out for a statement itself. -/
def Statement.isElided : Statement → Bool
  | conditional header => header.isSelfGuard
  | done _ => false

/-- The first line that is written out for a statement is that statement in Swift, with the comment
of the line behind it. -/
lemma head?_convertUnit {line comment : Text} {what : Statement}
    (h : IsConstruct line (.statement what) comment) (hkept : what.isElided = false)
    (s : LineSource) :
    (convertUnit line s).lines.head? = some (s.emit (what.text ++ comment)) := by
  rw [convertUnit, h.splitComment_eq]
  cases what with
  | done text => simp [h.code_ne_nil, h.ofCode, Statement.text]
  | conditional c =>
    have hguard : c.isSelfGuard = false := hkept
    by_cases hbody : c.body = .follows
    · by_cases hbrace : (s.skipIf isLoneBrace).1 = true
      · simp [h.code_ne_nil, h.ofCode, convertConditional, hguard, hbody, hbrace, Statement.text]
      · simp [h.code_ne_nil, h.ofCode, convertConditional, hguard, hbody, hbrace, Statement.text,
          Conversion.enclose]
    · simp [h.code_ne_nil, h.ofCode, convertConditional, hguard, hbody, Statement.text]

/-- The guard for which nothing is written out has no literal. -/
lemma unquoted_of_isElided {code : Text} (h : (Statement.ofCode code).isElided = true) :
    Unquoted (Statement.ofCode code).text := by
  cases hstatement : Statement.ofCode code with
  | done text =>
    rw [hstatement] at h
    exact absurd h (by simp [Statement.isElided])
  | conditional c =>
    rw [hstatement] at h
    have hguard : c.isSelfGuard = true := h
    simp only [Conditional.isSelfGuard, decide_eq_true_eq] at hguard
    obtain ⟨hkeyword, hcondition, -, hbody⟩ := hguard
    have hindent : Unquoted c.indent := by
      rw [Conditional.indent_eq (Statement.parse?_of_conditional hstatement)]
      exact unquoted_indent _
    simp [Statement.text, Conditional.render, Conditional.header, hkeyword, hcondition, hbody,
      hindent, isUnquoted]

/-- The literals of a statement in Swift are those of the line, each with its words substituted. -/
lemma literalTexts_ofCode {code : Text} (hclosed : Closed code)
    (hmarkers : ∀ l ∈ literalTexts code, stripMarkers l = l)
    (hwords : ∀ l ∈ literalTexts code, IsLiteral (substituteWords l)) :
    literalTexts (Statement.ofCode code).text = (literalTexts code).map substituteWords := by
  obtain ⟨hsubstituted, hliterals⟩ := literalTexts_substitute hclosed hmarkers hwords
  rw [(Statement.rewords_ofCode hsubstituted).literalTexts_eq,
    (literalTexts_collapseSends (substitute code)).1, hliterals]

/-- The literals in the code that is written out for a statement are those in the code of its line,
each with its words substituted. So they are the same if and only if none of them has such a word.
A literal that ends in a marker, and one that the substitutions break, are left out. -/
theorem literalTexts_convertUnit {line comment : Text}
    (h : IsConstruct line (.statement (.ofCode (splitComment line).1)) comment)
    (hclosed : Closed (splitComment line).1)
    (hmarkers : ∀ l ∈ literalTexts (splitComment line).1, stripMarkers l = l)
    (hwords : ∀ l ∈ literalTexts (splitComment line).1, IsLiteral (substituteWords l))
    (s : LineSource) :
    (∃ code, (convertUnit line s).lines.head? = some (s.emit (code ++ comment)) ∧
      literalTexts code = (literalTexts (splitComment line).1).map substituteWords ∧
      (literalTexts code = literalTexts (splitComment line).1 ↔
        ∀ l ∈ literalTexts (splitComment line).1, substituteWords l = l)) ∨
    (Statement.ofCode (splitComment line).1).isElided = true ∧
      literalTexts (splitComment line).1 = [] := by
  have hliterals := literalTexts_ofCode hclosed hmarkers hwords
  by_cases hkept : (Statement.ofCode (splitComment line).1).isElided = true
  · right
    refine ⟨hkept, ?_⟩
    rw [(unquoted_of_isElided hkept).literalTexts_eq] at hliterals
    exact List.map_eq_nil_iff.mp hliterals.symm
  · left
    refine ⟨_, head?_convertUnit h (by simpa using hkept) s, hliterals, ?_⟩
    rw [hliterals]
    constructor
    · intro heq l hl
      exact List.map_inj_left.mp (heq.trans (List.map_id _).symm) l hl
    · intro heq
      exact (List.map_congr_left heq).trans (List.map_id _)

/-- The line `NSLog(@"NO %@", name); // log`. -/
def logLine : Text := "NSLog(@\"NO %@\", name); // log".toList

theorem literalTexts_convertUnit_logLine :
    ∃ code, (convertUnit logLine (.ofLines 4 [])).lines.head? =
        some ((LineSource.ofLines 4 []).emit (code ++ " // log".toList)) ∧
      literalTexts code = ["\"false %@\"".toList] := by
  have hline : IsConstruct logLine (.statement (.ofCode (splitComment logLine).1)) " // log".toList :=
    ⟨by decide +kernel, by decide +kernel, by decide +kernel⟩
  rcases literalTexts_convertUnit hline (by decide +kernel) (by decide +kernel) (by decide +kernel)
    (.ofLines 4 []) with ⟨code, hhead, hliterals, -⟩ | ⟨helided, -⟩
  · exact ⟨code, hhead, hliterals.trans (by decide +kernel)⟩
  · exact absurd helided (by decide +kernel)

/-- The line `NSLog(@"YES");`. -/
def yesLine : Text := "NSLog(@\"YES\");".toList

/-- The word `YES` is substituted in a literal as it is in code. -/
theorem literalTexts_convertUnit_yesLine :
    IsConstruct yesLine (.statement (.ofCode (splitComment yesLine).1)) [] ∧
    Closed (splitComment yesLine).1 ∧
    (convertUnit yesLine (.ofLines 4 [])).lines.head? =
      some ((LineSource.ofLines 4 []).emit "println(\"true\")".toList) ∧
    literalTexts "println(\"true\")".toList ≠ literalTexts (splitComment yesLine).1 := by
  have hline : IsConstruct yesLine (.statement (.ofCode (splitComment yesLine).1)) [] :=
    ⟨by decide +kernel, by decide +kernel, by decide +kernel⟩
  have htext : (Statement.ofCode (splitComment yesLine).1).text = "println(\"true\")".toList := by
    decide +kernel
  have hhead := head?_convertUnit hline (by decide +kernel) (.ofLines 4 [])
  rw [htext, List.append_nil] at hhead
  exact ⟨hline, by decide +kernel, hhead, by decide +kernel⟩

end Swiftward
