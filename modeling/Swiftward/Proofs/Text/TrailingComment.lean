import Swiftward.Proofs.Text.Comment
import Swiftward.Proofs.Text.LiteralSpan
import Swiftward.Proofs.Text.Rewording

/-!
# Code and trailing comment

A line is cut at the leftmost two slashes of which the first is outside of its literals, and the
white space before them goes to the comment (`isCut_splitComment`). Where they stand is a matter of
the line alone, given by its literals as stretches of bytes. The reader keeps track of the state
instead, and the two agree: a character that is no quote is outside of the literals exactly if what
is before it leaves no literal open (`inLiteral_eq_false_iff`).
-/

namespace Swiftward

/-! ### The leftmost slashes -/

/-- Two slashes stand at a byte of the text, with `rest` behind them, and the first is outside of the
literals. -/
def SlashesAt (s : Text) (offset : Nat) (rest : Text) : Prop :=
  RestAt s offset ('/' :: '/' :: rest) ∧ inLiteral s offset = false

lemma slashesAt_iff {s : Text} {offset : Nat} {rest : Text} :
    SlashesAt s offset rest ↔
      ∃ front, s = front ++ '/' :: '/' :: rest ∧ byteSize front = offset ∧ Closed front := by
  constructor
  · rintro ⟨⟨front, rfl, rfl⟩, hout⟩
    exact ⟨front, rfl, rfl, (inLiteral_eq_false_iff (by decide) _).mp hout⟩
  · rintro ⟨front, rfl, rfl, hfront⟩
    exact ⟨.append front _, inLiteral_eq_false hfront (by decide) _⟩

namespace BeforeComment

variable {q : Quoting} {front front' rest rest' : Text}

lemma run_eq (h : BeforeComment q front) : q.run front = .code := by
  induction front generalizing q with
  | nil => exact h
  | cons c front ih => exact ih h.2

/-- No comment begins further to the left. -/
lemma prefix_of_slashes (h : BeforeComment q front)
    (heq : front ++ '/' :: '/' :: rest = front' ++ '/' :: '/' :: rest')
    (hrun : q.run front' = .code) : front <+: front' := by
  induction front generalizing q front' with
  | nil => exact List.nil_prefix
  | cons c front ih =>
    cases front' with
    | nil =>
      obtain ⟨rfl, htail⟩ := List.cons.inj heq
      refine absurd ⟨hrun, rfl, ?_⟩ h.1
      cases front with
      | nil => exact .inl rfl
      | cons d front => exact .inr (congrArg some (List.cons.inj htail).1)
    | cons d front' =>
      obtain ⟨rfl, htail⟩ := List.cons.inj heq
      exact List.cons_prefix_cons.mpr ⟨rfl, ih h.2 htail hrun⟩

end BeforeComment

/-- Where there is no cut, all slashes stand in literals. -/
lemma run_ne_code_of_cutAtSlashes {q : Quoting} {front rest : Text}
    (h : cutAtSlashes q (front ++ '/' :: '/' :: rest) = none) : q.run front ≠ .code := by
  induction front generalizing q with
  | nil =>
    rintro rfl
    simp [cutAtSlashes] at h
  | cons c front ih =>
    rw [List.cons_append, cutAtSlashes] at h
    split_ifs at h
    exact ih (Option.map_eq_none_iff.mp h)

/-- There is no cut exactly if no slashes stand outside of the literals. -/
lemma cutAtSlashes_eq_none_iff {s : Text} :
    cutAtSlashes .code s = none ↔ ∀ offset rest, ¬SlashesAt s offset rest := by
  constructor
  · intro hcut offset rest hslashes
    obtain ⟨front, rfl, -, hfront⟩ := slashesAt_iff.mp hslashes
    exact run_ne_code_of_cutAtSlashes hcut hfront
  · intro hnone
    cases hcut : cutAtSlashes .code s with
    | none => rfl
    | some cut =>
      obtain ⟨hfront, hs, rest, hback⟩ := cutAtSlashes_eq_some_iff.mp hcut
      rw [hback] at hs
      exact absurd (slashesAt_iff.mpr ⟨cut.1, hs, rfl, hfront.run_eq⟩) (hnone _ rest)

/-! ### The literals of the code -/

lemma literalSpansFrom_append {q : Quoting} {s : Text} (h : q.run s = .code) (start offset : Nat)
    (t : Text) :
    literalSpansFrom q start offset (s ++ t) = literalSpansFrom q start offset s ++
      literalSpansFrom .code (offset + byteSize s) (offset + byteSize s) t := by
  induction s generalizing q start offset with
  | nil =>
    obtain rfl : q = .code := h
    exact literalSpansFrom_code ..
  | cons c s ih =>
    have hs : (q.stepChar c).run s = .code := h
    rw [List.cons_append, literalSpansFrom, literalSpansFrom, ih hs, ih hs, ih hs, byteSize_cons,
      Nat.add_assoc]
    split_ifs <;> rfl

lemma stop_le_of_mem {s : Text} : ∀ span ∈ literalSpans s, span.stop ≤ byteSize s := by
  intro span hmem
  obtain ⟨-, rest, hrest⟩ := (literalSpans_eq_iff.mp rfl).boundaries span hmem
  have hsize := hrest.offset_add
  omega

/-- The literals of a closed text are those that end in it, whatever stands behind it. -/
lemma literalSpans_of_append {s : Text} (h : Closed s) (t : Text) :
    literalSpans s = (literalSpans (s ++ t)).filter (·.stop ≤ byteSize s) := by
  have hin : ∀ span ∈ literalSpans s, decide (span.stop ≤ byteSize s) = true := fun span hmem =>
    decide_eq_true (stop_le_of_mem span hmem)
  have hout : ∀ span ∈ literalSpansFrom .code (byteSize s) (byteSize s) t,
      ¬decide (span.stop ≤ byteSize s) = true := by
    intro span hmem
    have hbehind := literalsBehind_literalSpansFrom (.append s t) (byteSize s)
    have hle := hbehind.le_start span hmem
    have hnonempty := (hbehind.isLiteral span hmem).nonempty
    rw [decide_eq_true_iff]
    omega
  rw [literalSpans, literalSpans, literalSpansFrom_append h, Nat.zero_add, List.filter_append,
    List.filter_eq_nil_iff.mpr hout, List.append_nil]
  exact (List.filter_eq_self.mpr hin).symm

/-! ### Cut lines -/

/-- The line is cut into its code and its trailing comment. -/
structure IsCut (line code comment : Text) : Prop where
  append_eq : code ++ comment = line
  /-- Without a comment the line has no slashes outside of its literals. -/
  comment_eq_nil_iff : comment = [] ↔ ∀ offset rest, ¬SlashesAt line offset rest
  /-- A comment is white space and what stands at the leftmost slashes. -/
  comment_eq : comment ≠ [] → ∃ gap offset rest, (∀ c ∈ gap, isSpace c = true) ∧
    comment = gap ++ '/' :: '/' :: rest ∧ SlashesAt line offset rest ∧
    ∀ offset' rest', SlashesAt line offset' rest' → offset ≤ offset'
  last_not_space : comment ≠ [] → ∀ c ∈ code.getLast?, isSpace c = false
  /-- The code has the literals of the line that end before the comment. -/
  literalSpans_eq : literalSpans code = (literalSpans line).filter (·.stop ≤ byteSize code)
  not_slashesAt : ∀ offset rest, ¬SlashesAt code offset rest
  /-- The code is not cut again. -/
  splitComment_eq : splitComment code = (code, [])

/-- A line without slashes outside of its literals is code as a whole. -/
lemma isCut_self {line : Text} (h : cutAtSlashes .code line = none) : IsCut line line [] where
  append_eq := List.append_nil line
  comment_eq_nil_iff := iff_of_true rfl (cutAtSlashes_eq_none_iff.mp h)
  comment_eq hne := absurd rfl hne
  last_not_space hne := absurd rfl hne
  literalSpans_eq := (List.filter_eq_self.mpr fun span hmem =>
    decide_eq_true (stop_le_of_mem span hmem)).symm
  not_slashesAt := cutAtSlashes_eq_none_iff.mp h
  splitComment_eq := by rw [splitComment, h]

lemma cutAtSlashes_code (line : Text) : cutAtSlashes .code (splitComment line).1 = none := by
  obtain ⟨hcut, -⟩ | ⟨front, rest, hfront, hcode⟩ := splitComment_cases (splitComment line).1
  · exact hcut
  · have hcomment := (splitComment_of_beforeComment hfront rest).2.ne_nil
    rw [← hcode, splitComment_code] at hcomment
    exact absurd rfl hcomment

/-- Behind a text without a comment, the slashes are the leftmost ones outside of literals. -/
lemma BeforeComment.leftmost {front : Text} (h : BeforeComment .code front) (rest : Text) :
    SlashesAt (front ++ '/' :: '/' :: rest) (byteSize front) rest ∧
      ∀ offset' rest', SlashesAt (front ++ '/' :: '/' :: rest) offset' rest' →
        byteSize front ≤ offset' := by
  refine ⟨slashesAt_iff.mpr ⟨front, rfl, rfl, h.run_eq⟩, ?_⟩
  intro offset' rest' hslashes
  obtain ⟨front', heq, rfl, hfront'⟩ := slashesAt_iff.mp hslashes
  obtain ⟨mid, rfl⟩ := h.prefix_of_slashes heq hfront'
  rw [byteSize_append]
  exact Nat.le_add_right ..

/-- Every line is cut into its code and its comment. -/
theorem isCut_splitComment (line : Text) :
    IsCut line (splitComment line).1 (splitComment line).2 := by
  obtain ⟨hcut, hline⟩ | ⟨front, rest, hfront, hline⟩ := splitComment_cases line
  · rw [hline]
    exact isCut_self hcut
  · have happend := code_append_comment line
    have hagain := splitComment_code line
    have hcut := cutAtSlashes_code line
    obtain ⟨hslashes, hleftmost⟩ := hfront.leftmost rest
    rw [← hline] at hslashes hleftmost
    have hcode : (splitComment line).1 = trimEnd front := by
      rw [hline]
      exact (splitComment_of_beforeComment hfront rest).1
    rw [hcode] at happend hagain hcut ⊢
    obtain ⟨gap, hgap, hsplit⟩ := exists_gap front
    have hcomment : (splitComment line).2 = gap ++ '/' :: '/' :: rest := by
      rw [← List.append_cancel_left_eq (trimEnd front), happend, ← List.append_assoc, ← hsplit, hline]
    have hclosed : Closed (trimEnd front) := Closed.trimEnd hfront.run_eq
    exact
      { append_eq := happend
        comment_eq_nil_iff := iff_of_false (by simp [hcomment]) fun hnone => hnone _ _ hslashes
        comment_eq := fun _ => ⟨gap, _, rest, hgap, hcomment, hslashes, hleftmost⟩
        last_not_space := fun _ => getLast_trimEnd front
        literalSpans_eq := by
          conv_rhs => rw [← happend]
          exact literalSpans_of_append hclosed _
        not_slashesAt := cutAtSlashes_eq_none_iff.mp hcut
        splitComment_eq := hagain }

end Swiftward
