import Swiftward.Proofs.Conversion.Stream
import Swiftward.Proofs.Text.Comment

/-!
# Comments behind what a line becomes

The comment of a line takes no part in its conversion: the rules read the code, and the comment is
put behind the first line of what the code becomes (`lines_convertUnit`). The one exception is the
header of a guard, which is dropped with its comment, and of which nothing is left when no lines
follow. So a line by itself becomes what its code becomes by itself, with the comment behind it
(`convertLines_commented`).
-/

namespace Swiftward

/-- A comment put behind the first of several lines of output. -/
def commentOutput (comment : Text) : List OutputLine → List OutputLine
  | [] => []
  | first :: rest => { first with text := first.text ++ comment } :: rest

@[simp] lemma commentOutput_nil (comment : Text) : commentOutput comment [] = [] := rfl

@[simp] lemma commentOutput_cons (comment : Text) (first : OutputLine) (rest : List OutputLine) :
    commentOutput comment (first :: rest) = { first with text := first.text ++ comment } :: rest :=
  rfl

lemma commentOutput_map_emit (comment : Text) (texts : List Text) (s : LineSource) :
    commentOutput comment (texts.map s.emit) = (commentFirst comment texts).map s.emit := by
  cases texts <;> rfl

/-! ### Rules that read on -/

@[simp] lemma commentFirst_nil (texts : List Text) : commentFirst [] texts = texts := by
  cases texts with
  | nil => rfl
  | cons first rest => rw [commentFirst, List.append_nil]

variable (comment : Text) (s : LineSource)

lemma lines_convertImplementation (header : ImplementationHeader) :
    (convertImplementation header comment s).lines =
      commentOutput comment (convertImplementation header [] s).lines := by
  unfold convertImplementation
  split_ifs
  · simp [LineSource.emit]
  · dsimp only
    split_ifs <;> simp [LineSource.emit]

lemma source_convertImplementation (header : ImplementationHeader) :
    (convertImplementation header comment s).source =
      (convertImplementation header [] s).source := by
  unfold convertImplementation
  split_ifs
  · rfl
  · dsimp only
    split_ifs <;> rfl

lemma lines_convertMethod (header : MethodHeader) :
    (convertMethod header comment s).lines =
      commentOutput comment (convertMethod header [] s).lines := by
  rw [convertMethod, convertMethod, commentOutput_map_emit, commentFirst_nil]

lemma lines_convertConditional {c : Conditional} (hguard : c.isSelfGuard = false) :
    (convertConditional c comment s).lines =
      commentOutput comment (convertConditional c [] s).lines := by
  rw [convertConditional, convertConditional]
  simp only [hguard, Bool.false_eq_true, if_false]
  split_ifs <;> simp [Conversion.enclose, LineSource.emit]

lemma source_convertConditional (c : Conditional) :
    (convertConditional c comment s).source = (convertConditional c [] s).source := by
  rw [convertConditional, convertConditional]
  split_ifs <;> rfl

/-! ### Units -/

variable {line : Text} {s}

/-- Unless a line is the header of a guard, its unit is that of its code with the comment behind the
first line of output. -/
theorem convertUnit_code (hcode : (splitComment line).1 ≠ []) (hguard : ¬IsGuard line) :
    (convertUnit line s).lines =
        commentOutput (splitComment line).2 (convertUnit (splitComment line).1 s).lines ∧
      (convertUnit line s).source = (convertUnit (splitComment line).1 s).source := by
  rw [convertUnit, convertUnit, splitComment_code]
  simp only [if_neg hcode]
  cases hconstruct : Construct.ofCode (splitComment line).1 with
  | imported what => cases what <;> simp [LineSource.emit]
  | implementation header =>
    exact ⟨lines_convertImplementation _ _ _, source_convertImplementation _ _ _⟩
  | interface header => exact ⟨rfl, rfl⟩
  | blockEnd => simp [LineSource.emit]
  | synthesize => simp
  | method header => exact ⟨lines_convertMethod _ _ _, rfl⟩
  | statement what =>
    cases what with
    | done text => simp [LineSource.emit]
    | conditional c =>
      have hself : c.isSelfGuard = false := by
        simpa [IsGuard, hcode, hconstruct, Construct.isGuard] using hguard
      exact ⟨lines_convertConditional _ _ hself, source_convertConditional _ _ _⟩

lemma isGuard_code : IsGuard (splitComment line).1 ↔ IsGuard line := by
  rw [IsGuard, IsGuard, splitComment_code]

/-! ### Lines by themselves -/

lemma LineSource.peek_eq_none_of_unread (h : s.unread = 0) : s.peek.1 = none := by
  rw [Option.eq_none_iff_forall_ne_some]
  intro text hpeek
  have hunread := unread_consume_peek hpeek
  omega

lemma convertUnits_of_unread_eq_zero (h : s.unread = 0) : convertUnits s = [] := by
  obtain ⟨-, hnone⟩ | ⟨line, s', unit, hnext, -⟩ := convertNext_cases s
  · exact convertUnits_eq_nil_iff.mpr hnone
  · have hunread := LineSource.unread_next? hnext
    omega

lemma IsGuard.exists_conditional (h : IsGuard line) :
    ∃ c, IsConstruct line (.statement (.conditional c)) (splitComment line).2 ∧
      c.isSelfGuard = true := by
  obtain ⟨hcode, hguard⟩ := h
  cases hconstruct : Construct.ofCode (splitComment line).1 with
  | statement what =>
    rw [hconstruct] at hguard
    cases what with
    | conditional c => exact ⟨c, ⟨hcode, hconstruct, rfl⟩, hguard⟩
    | done text => cases hguard
  | _ =>
    rw [hconstruct] at hguard
    cases hguard

/-- Nothing is left of a guard that no lines follow. -/
lemma lines_convertUnit_guard (hguard : IsGuard line) (h : s.unread = 0) :
    (convertUnit line s).lines = [] := by
  obtain ⟨c, hconstruct, hself⟩ := hguard.exists_conditional
  have hpeek : (s.setDedent true).peek.1 = none :=
    LineSource.peek_eq_none_of_unread (by rwa [LineSource.unread_setDedent])
  have hunit : Converts (.unit line) s [] _ := .guarded hconstruct hself (.outOfLines hpeek)
  exact (Prod.mk.inj hunit.convert_eq).1

/-- What one line by itself becomes. -/
lemma convertLines_singleton (width : Nat) (line : Text) :
    convertLines width [line] = (convertUnit (trimEnd line) ⟨[], none, false, width, 1⟩).lines := by
  have hnext : (LineSource.ofLines width [line]).next? =
      some (trimEnd line, ⟨[], none, false, width, 1⟩) := rfl
  have hunit := converts_unit (trimEnd line) ⟨[], none, false, width, 1⟩
  have hle := hunit.unread_le
  have hrest := convertUnits_of_unread_eq_zero (Nat.le_zero.mp hle)
  rw [convertLines, convertUnits_of_converts hnext hunit, hrest, List.flatten_cons,
    List.flatten_nil, List.append_nil]

/-- A line by itself becomes what its code becomes by itself, with its comment as it stands behind
the first line of that; if the code becomes nothing, so does the line. -/
theorem convertLines_commented (width : Nat) {line : Text} (htrim : trimEnd line = line)
    (hcode : (splitComment line).1 ≠ []) :
    convertLines width [line] =
      commentOutput (splitComment line).2 (convertLines width [(splitComment line).1]) := by
  have htrimCode : trimEnd (splitComment line).1 = (splitComment line).1 := by
    obtain ⟨-, hline⟩ | ⟨front, rest, hfront, rfl⟩ := splitComment_cases line
    · rw [hline, htrim]
    · rw [(splitComment_of_beforeComment hfront rest).1, trimEnd_trimEnd]
  rw [convertLines_singleton, convertLines_singleton, htrim, htrimCode]
  by_cases hguard : IsGuard line
  · rw [lines_convertUnit_guard hguard rfl, lines_convertUnit_guard (isGuard_code.mpr hguard) rfl]
    rfl
  · exact (convertUnit_code hcode hguard).1

/-- The header is two lines, and its comment opens a brace and a string. -/
theorem convertLines_commented_header :
    trimEnd "    if (a)  // \x7b \" ;".toList = "    if (a)  // \x7b \" ;".toList ∧
      (splitComment "    if (a)  // \x7b \" ;".toList).1 ≠ [] ∧
      convertLines 4 ["    if (a)  // \x7b \" ;".toList] =
        [⟨1, "    if a \x7b  // \x7b \" ;".toList⟩, ⟨1, "    \x7d".toList⟩] :=
  ⟨by decide, by decide,
    (convertLines_commented 4 (by decide) (by decide)).trans (by decide +kernel)⟩

end Swiftward
