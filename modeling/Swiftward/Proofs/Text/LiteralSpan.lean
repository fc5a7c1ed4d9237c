import Mathlib.Data.List.Induction
import Swiftward.Proofs.Text.Literal

/-!
# Where literals stand

The literals of a text are stretches of it that have no quote between them. Each begins with a quote
and ends behind the first later quote of the same kind that is not escaped, but for the last one,
which goes to the end of the text if there is no such quote. A text has one sequence of such
stretches only, and that is what the reader finds (`literalSpans_eq_iff`).

What the reader finds is built up from the front, a stretch without quotes and a literal at a time
(`LiteralsBehind`). That there is no other sequence needs no reader: two of them agree on where the
next literal begins, since its quote stands in a literal of both, and then on where it ends.
-/

namespace Swiftward

/-! ### Places in a text -/

/-- The text `rest` stands at a byte of `s` and goes on to the end. No character is cut there. -/
def RestAt (s : Text) (offset : Nat) (rest : Text) : Prop :=
  ∃ front, s = front ++ rest ∧ byteSize front = offset

lemma byteSize_eq_zero {s : Text} (h : byteSize s = 0) : s = [] := by
  cases s with
  | nil => rfl
  | cons c s =>
    have hpos := c.utf8Size_pos
    rw [byteSize_cons] at h
    omega

namespace RestAt

variable {s rest rest' front : Text} {offset offset' : Nat}

lemma zero (s : Text) : RestAt s 0 s := ⟨[], rfl, rfl⟩

lemma append (front rest : Text) : RestAt (front ++ rest) (byteSize front) rest := ⟨front, rfl, rfl⟩

lemma offset_add (h : RestAt s offset rest) : offset + byteSize rest = byteSize s := by
  obtain ⟨front, rfl, rfl⟩ := h
  rw [byteSize_append]

lemma offset_eq (h : RestAt s offset rest) (h' : RestAt s offset' rest) : offset = offset' := by
  have hsize := h.offset_add
  have hsize' := h'.offset_add
  omega

/-- Behind a part of what stands at an offset stands the rest of it. -/
lemma behind (h : RestAt s offset (front ++ rest)) : RestAt s (offset + byteSize front) rest := by
  obtain ⟨lead, rfl, rfl⟩ := h
  rw [← byteSize_append, ← List.append_assoc]
  exact append (lead ++ front) rest

lemma next {c : Char} (h : RestAt s offset (c :: rest)) : RestAt s (offset + c.utf8Size) rest := by
  have hbehind : RestAt s offset ([c] ++ rest) := h
  exact hbehind.behind

/-- What stands at an offset goes on with what stands at a later one. -/
lemma split (h : RestAt s offset rest) (h' : RestAt s offset' rest') (hle : offset ≤ offset') :
    ∃ mid, rest = mid ++ rest' ∧ offset + byteSize mid = offset' := by
  obtain ⟨front, rfl, rfl⟩ := h
  obtain ⟨front', heq, rfl⟩ := h'
  rcases List.append_eq_append_iff.mp heq with ⟨mid, rfl, rfl⟩ | ⟨mid, rfl, rfl⟩
  · exact ⟨mid, rfl, (byteSize_append front mid).symm⟩
  · rw [byteSize_append] at hle ⊢
    obtain rfl : mid = [] := byteSize_eq_zero (by omega)
    exact ⟨[], rfl, by simp⟩

lemma unique (h : RestAt s offset rest) (h' : RestAt s offset rest') : rest = rest' := by
  obtain ⟨mid, rfl, hmid⟩ := h.split h' (Nat.le_refl offset)
  obtain rfl : mid = [] := byteSize_eq_zero (by omega)
  rfl

/-- A character between two offsets stands in what is between them. -/
lemma mem_between {start : Nat} {c : Char} (h : RestAt s offset (front ++ rest))
    (hstart : RestAt s start rest) (hc : RestAt s offset' (c :: rest')) (hle : offset ≤ offset')
    (hlt : offset' < start) : c ∈ front := by
  obtain ⟨mid, hmid, -⟩ := h.split hc hle
  obtain ⟨inner, hinner, hsize⟩ := hc.split hstart (Nat.le_of_lt hlt)
  rw [hinner, ← List.append_assoc] at hmid
  rw [List.append_cancel_right hmid]
  cases inner with
  | nil =>
    rw [byteSize_nil] at hsize
    omega
  | cons d inner =>
    obtain ⟨rfl, -⟩ := List.cons.inj hinner
    simp

end RestAt

/-! ### Escapes -/

/-- Whether the next character of a literal is escaped by what the literal has behind its mark so
far: by a backslash that is not itself escaped, so by an odd number of them at the end. -/
def escapesNext (body : Text) : Bool := (body.reverse.takeWhile (· == '\\')).length % 2 == 1

lemma escapesNext_concat (body : Text) (c : Char) :
    escapesNext (body ++ [c]) = (c == '\\' && !escapesNext body) := by
  unfold escapesNext
  by_cases hc : c = '\\'
  · subst hc
    simp only [List.reverse_append, List.reverse_singleton, List.singleton_append,
      List.takeWhile_cons, beq_self_eq_true, if_true, List.length_cons, Bool.true_and]
    rcases Nat.mod_two_eq_zero_or_one (body.reverse.takeWhile (· == '\\')).length with h | h <;>
      simp [h, Nat.add_mod]
  · simp [hc]

/-- Every `mark` in the body of a literal is escaped. -/
def MarksEscaped (mark : Char) (body : Text) : Prop :=
  ∀ front back, body = front ++ mark :: back → escapesNext front = true

lemma marksEscaped_concat {mark : Char} {body : Text} {c : Char} :
    MarksEscaped mark (body ++ [c]) ↔
      MarksEscaped mark body ∧ (c = mark → escapesNext body = true) := by
  constructor
  · intro h
    refine ⟨fun front back hbody => h front (back ++ [c]) (by simp [hbody]), ?_⟩
    rintro rfl
    exact h body [] rfl
  · rintro ⟨hbody, hlast⟩ front back heq
    rcases List.eq_nil_or_concat back with rfl | ⟨back, d, rfl⟩
    · obtain ⟨rfl, hc⟩ := List.append_inj' heq rfl
      exact hlast (List.singleton_inj.mp hc)
    · rw [List.concat_eq_append, ← List.cons_append, ← List.append_assoc] at heq
      exact hbody front back (List.append_inj' heq rfl).1

/-- A mark that is not escaped ends the literal, if there is one. -/
lemma marksEscaped_or_exists_mark (mark : Char) (s : Text) :
    MarksEscaped mark s ∨
      ∃ body t, s = body ++ mark :: t ∧ MarksEscaped mark body ∧ escapesNext body = false := by
  induction s using List.reverseRecOn with
  | nil =>
    refine .inl fun front back h => ?_
    simp at h
  | append_singleton s c ih =>
    obtain hs | ⟨body, t, rfl, hbody, hend⟩ := ih
    · by_cases hc : c = mark ∧ escapesNext s = false
      · obtain ⟨rfl, hend⟩ := hc
        exact .inr ⟨s, [], rfl, hs, hend⟩
      · refine .inl (marksEscaped_concat.mpr ⟨hs, fun hmark => ?_⟩)
        simpa [hmark] using hc
    · exact .inr ⟨body, t ++ [c], by simp, hbody, hend⟩

/-- What has every mark escaped goes no further than up to one that is not. -/
lemma MarksEscaped.prefix_of_append {mark : Char} {body body' rest rest' : Text}
    (hbody' : MarksEscaped mark body') (hend : escapesNext body = false)
    (heq : body ++ mark :: rest = body' ++ rest') : body' <+: body := by
  rcases List.append_eq_append_iff.mp heq with ⟨mid, hmid, htail⟩ | ⟨mid, hmid, -⟩
  · cases mid with
    | nil => exact ⟨[], by simpa using hmid⟩
    | cons c mid =>
      obtain ⟨rfl, -⟩ := List.cons.inj htail
      rw [hbody' body mid hmid] at hend
      cases hend
  · exact ⟨mid, hmid.symm⟩

/-! ### Stretches that are literals -/

/-- The stretch begins with a quote and ends behind the first later one of the same kind that is not
escaped. -/
def Span.EndsAtMark (s : Text) (span : Span) : Prop :=
  ∃ mark body rest, isUnquoted mark = false ∧ RestAt s span.start (mark :: (body ++ mark :: rest)) ∧
    RestAt s span.stop rest ∧ MarksEscaped mark body ∧ escapesNext body = false

/-- The stretch begins with a quote and goes to the end of the text, where no later quote of the same
kind stands that is not escaped. -/
def Span.EndsWithText (s : Text) (span : Span) : Prop :=
  ∃ mark body, isUnquoted mark = false ∧ RestAt s span.start (mark :: body) ∧
    RestAt s span.stop [] ∧ MarksEscaped mark body

/-- The stretches are the literals of the text. -/
structure AreLiterals (s : Text) (spans : List Span) : Prop where
  /-- They cut no character. -/
  boundaries : ∀ span ∈ spans, (∃ rest, RestAt s span.start rest) ∧ ∃ rest, RestAt s span.stop rest
  nonempty : ∀ span ∈ spans, span.start < span.stop
  /-- They are disjoint and increasing. -/
  ordered : spans.Pairwise fun span later => span.stop ≤ later.start
  /-- No quote stands outside of them. -/
  outside : ∀ offset c rest, RestAt s offset (c :: rest) →
    (∀ span ∈ spans, span.contains offset = false) → isUnquoted c = true
  begins : ∀ span ∈ spans, ∃ mark rest, RestAt s span.start (mark :: rest) ∧ isUnquoted mark = false
  /-- All but the last end at a quote. -/
  ends : ∀ span ∈ spans.dropLast, span.EndsAtMark s
  last : ∀ span ∈ spans.getLast?, span.EndsAtMark s ∨ span.EndsWithText s

namespace Span

variable {s : Text} {span span' : Span}

lemma lt_or_le_of_not_contains (span : Span) {offset : Nat} (h : span.contains offset = false) :
    offset < span.start ∨ span.stop ≤ offset := by
  simp only [contains, Bool.and_eq_false_imp, decide_eq_true_eq, decide_eq_false_iff_not] at h
  omega

/-- The stretch is a literal, closed or not. -/
def IsLiteral (s : Text) (span : Span) : Prop := span.EndsAtMark s ∨ span.EndsWithText s

lemma IsLiteral.begins (h : span.IsLiteral s) :
    ∃ mark rest, RestAt s span.start (mark :: rest) ∧ isUnquoted mark = false := by
  obtain ⟨mark, body, rest, hmark, hstart, -⟩ | ⟨mark, body, hmark, hstart, -⟩ := h
  · exact ⟨mark, _, hstart, hmark⟩
  · exact ⟨mark, body, hstart, hmark⟩

lemma IsLiteral.boundary (h : span.IsLiteral s) : ∃ rest, RestAt s span.stop rest := by
  obtain ⟨mark, body, rest, -, -, hstop, -⟩ | ⟨mark, body, -, -, hstop, -⟩ := h
  · exact ⟨rest, hstop⟩
  · exact ⟨[], hstop⟩

lemma IsLiteral.nonempty (h : span.IsLiteral s) : span.start < span.stop := by
  obtain ⟨mark, body, rest, -, hstart, hstop, -⟩ | ⟨mark, body, -, hstart, hstop, -⟩ := h
  all_goals
    have hpos := mark.utf8Size_pos
    have hbegin := hstart.offset_add
    have hend := hstop.offset_add
    simp only [byteSize_cons, byteSize_append, byteSize_nil] at hbegin hend
    omega

lemma EndsAtMark.stop_eq (h : span.EndsAtMark s) (h' : span'.EndsAtMark s)
    (hstart : span.start = span'.start) : span.stop = span'.stop := by
  obtain ⟨mark, body, rest, -, hbegin, hend, hbody, hlast⟩ := h
  obtain ⟨mark', body', rest', -, hbegin', hend', hbody', hlast'⟩ := h'
  rw [hstart] at hbegin
  obtain ⟨rfl, heq⟩ := List.cons.inj (hbegin.unique hbegin')
  have hle := hbody.prefix_of_append hlast' heq.symm
  have hge := hbody'.prefix_of_append hlast heq
  obtain rfl : body = body' := hle.eq_of_length (Nat.le_antisymm hle.length_le hge.length_le)
  obtain rfl : rest = rest' := by simpa using heq
  exact hend.offset_eq hend'

/-- Where a mark ends a literal, it does not go to the end of the text. -/
lemma EndsAtMark.start_ne (h : span.EndsAtMark s) (h' : span'.EndsWithText s) :
    span.start ≠ span'.start := by
  intro hstart
  obtain ⟨mark, body, rest, -, hbegin, -, -, hlast⟩ := h
  obtain ⟨mark', body', -, hbegin', -, hbody'⟩ := h'
  rw [hstart] at hbegin
  obtain ⟨rfl, rfl⟩ := List.cons.inj (hbegin.unique hbegin')
  rw [hbody' body rest rfl] at hlast
  cases hlast

lemma EndsWithText.stop_eq (h : span.EndsWithText s) (h' : span'.EndsWithText s) :
    span.stop = span'.stop := by
  obtain ⟨-, -, -, -, hend, -⟩ := h
  obtain ⟨-, -, -, -, hend', -⟩ := h'
  exact hend.offset_eq hend'

/-- A literal is determined by where it begins. -/
lemma IsLiteral.unique (h : span.IsLiteral s) (h' : span'.IsLiteral s)
    (hstart : span.start = span'.start) : span = span' := by
  have hstop : span.stop = span'.stop := by
    rcases h with h | h <;> rcases h' with h' | h'
    · exact h.stop_eq h' hstart
    · exact absurd hstart (h.start_ne h')
    · exact absurd hstart.symm (h'.start_ne h)
    · exact h.stop_eq h'
  cases span
  cases span'
  rw [mk.injEq]
  exact ⟨hstart, hstop⟩

end Span

/-! ### One sequence only -/

namespace AreLiterals

variable {s : Text} {spans front later later' : List Span} {span : Span}

lemma isLiteral (h : AreLiterals s spans) : ∀ span ∈ spans, span.IsLiteral s := by
  intro span hspan
  rcases List.eq_nil_or_concat spans with rfl | ⟨init, last, rfl⟩
  · cases hspan
  · rw [List.concat_eq_append] at h hspan
    rcases List.mem_append.mp hspan with hinit | hlast
    · exact .inl (h.ends span (by rwa [List.dropLast_concat]))
    · obtain rfl := List.mem_singleton.mp hlast
      exact h.last span (by simp)

/-- Behind the same literals, the next one of one sequence begins no later than that of another. -/
lemma exists_start_le (h : AreLiterals s (front ++ later))
    (h' : AreLiterals s (front ++ span :: later')) : ∃ span' ∈ later, span'.start ≤ span.start := by
  obtain ⟨mark, rest, hrest, hmark⟩ := h'.begins span (by simp)
  have hcovered : ¬∀ span' ∈ front ++ later, span'.contains span.start = false := by
    intro hout
    rw [h.outside span.start mark rest hrest hout] at hmark
    cases hmark
  push Not at hcovered
  obtain ⟨span', hmem, hcontains⟩ := hcovered
  simp only [ne_eq, Bool.not_eq_false, Span.contains, Bool.and_eq_true, decide_eq_true_eq]
    at hcontains
  rcases List.mem_append.mp hmem with hfront | hlater
  · have hbefore := (List.pairwise_append.mp h'.ordered).2.2 span' hfront span (by simp)
    omega
  · exact ⟨span', hlater, hcontains.1⟩

/-- The first of some literals begins before all others. -/
lemma start_le (h : AreLiterals s (front ++ span :: later)) :
    ∀ span' ∈ span :: later, span.start ≤ span'.start := by
  intro span' hmem
  rcases List.mem_cons.mp hmem with rfl | hlater
  · exact Nat.le_refl _
  · have hnonempty := h.nonempty span (by simp)
    have hbefore := List.rel_of_pairwise_cons (List.pairwise_append.mp h.ordered).2.1 hlater
    omega

lemma eq_of_append (h : AreLiterals s (front ++ later)) (h' : AreLiterals s (front ++ later')) :
    later = later' := by
  induction later generalizing front later' with
  | nil =>
    cases later' with
    | nil => rfl
    | cons span' later' =>
      obtain ⟨first, hmem, -⟩ := h.exists_start_le h'
      cases hmem
  | cons span later ih =>
    cases later' with
    | nil =>
      obtain ⟨first, hmem, -⟩ := h'.exists_start_le h
      cases hmem
    | cons span' later' =>
      have hle : span.start ≤ span'.start := by
        obtain ⟨first, hmem, hfirst⟩ := h.exists_start_le h'
        exact Nat.le_trans (h.start_le first hmem) hfirst
      have hge : span'.start ≤ span.start := by
        obtain ⟨first, hmem, hfirst⟩ := h'.exists_start_le h
        exact Nat.le_trans (h'.start_le first hmem) hfirst
      obtain rfl : span = span' :=
        (h.isLiteral span (by simp)).unique (h'.isLiteral span' (by simp)) (Nat.le_antisymm hle hge)
      rw [List.append_cons] at h h'
      rw [ih h h']

theorem unique (h : AreLiterals s spans) (h' : AreLiterals s later) : spans = later :=
  @eq_of_append s [] spans later h h'

end AreLiterals

/-! ### What the reader finds -/

/-- The stretches are the literals that stand behind a byte of the text, which is outside of
literals. -/
inductive LiteralsBehind (s : Text) : Nat → List Span → Prop where
  | none {offset : Nat} {u : Text} (h : RestAt s offset u) (hu : Unquoted u) :
      LiteralsBehind s offset []
  | unclosed {offset : Nat} {u rest : Text} {span : Span} (h : RestAt s offset (u ++ rest))
      (hu : Unquoted u) (hrest : RestAt s span.start rest) (hspan : span.EndsWithText s) :
      LiteralsBehind s offset [span]
  | closed {offset : Nat} {u rest : Text} {span : Span} (h : RestAt s offset (u ++ rest))
      (hu : Unquoted u) (hrest : RestAt s span.start rest) (hspan : span.EndsAtMark s)
      {spans : List Span} (hlater : LiteralsBehind s span.stop spans) :
      LiteralsBehind s offset (span :: spans)

/-- Outside of literals it does not matter where the last one began. -/
lemma literalSpansFrom_code (start start' offset : Nat) (s : Text) :
    literalSpansFrom .code start offset s = literalSpansFrom .code start' offset s := by
  cases s <;> rfl

lemma literalSpansFrom_unquoted {u : Text} (hu : Unquoted u) (start offset : Nat) (s : Text) :
    literalSpansFrom .code start offset (u ++ s) =
      literalSpansFrom .code start (offset + byteSize u) s := by
  induction u generalizing start offset with
  | nil => rfl
  | cons c u ih =>
    obtain ⟨hc, hu⟩ := unquoted_cons.mp hu
    have hstep : Quoting.code.stepChar c = .code := Quoting.step_code_of_isUnquoted hc
    rw [List.cons_append, literalSpansFrom, if_pos rfl, hstep, ih hu, byteSize_cons, ← Nat.add_assoc,
      literalSpansFrom_code]

/-- As long as every mark is escaped, the literal stays open. -/
lemma literalSpansFrom_escaped {mark : Char} {body : Text} (hbody : MarksEscaped mark body)
    (start offset : Nat) (s : Text) :
    literalSpansFrom (.literal mark false) start offset (body ++ s) =
      literalSpansFrom (.literal mark (escapesNext body)) start (offset + byteSize body) s := by
  induction body using List.reverseRecOn generalizing s with
  | nil => rfl
  | append_singleton body c ih =>
    obtain ⟨hbody, hlast⟩ := marksEscaped_concat.mp hbody
    have hstep : (Quoting.literal mark (escapesNext body)).stepChar c =
        .literal mark (escapesNext (body ++ [c])) := by
      rw [escapesNext_concat]
      cases hescaped : escapesNext body with
      | true => simp [Quoting.stepChar]
      | false =>
        have hne : c ≠ mark := by
          intro hc
          rw [hlast hc] at hescaped
          cases hescaped
        by_cases hslash : c = '\\' <;> simp [Quoting.stepChar, hslash, hne]
    rw [List.append_assoc, ih hbody, List.singleton_append, literalSpansFrom, if_neg (by simp), hstep,
      if_neg (by simp), byteSize_append, byteSize_cons, byteSize_nil, Nat.add_zero, Nat.add_assoc]

/-- The reader finds a literal at the first quote. -/
lemma literalSpansFrom_mark {mark : Char} (hmark : isUnquoted mark = false) {body : Text}
    (hbody : MarksEscaped mark body) (start offset : Nat) (s : Text) :
    literalSpansFrom .code start offset (mark :: (body ++ s)) =
      literalSpansFrom (.literal mark (escapesNext body)) offset
        (offset + byteSize (mark :: body)) s := by
  rw [literalSpansFrom, if_pos rfl, stepChar_code_of_quote hmark, literalSpansFrom_escaped hbody,
    byteSize_cons, Nat.add_assoc]

lemma literalsBehind_literalSpansFrom {s rest : Text} {offset : Nat} (h : RestAt s offset rest)
    (start : Nat) : LiteralsBehind s offset (literalSpansFrom .code start offset rest) := by
  obtain hu | ⟨u, mark, rest, rfl, hu, hmark⟩ := exists_first_quote rest
  · rw [← List.append_nil rest, literalSpansFrom_unquoted hu]
    exact .none h hu
  · have hbegin := h.behind
    rw [literalSpansFrom_unquoted hu]
    obtain hbody | ⟨body, t, rfl, hbody, hlast⟩ := marksEscaped_or_exists_mark mark rest
    · have hend : RestAt s (offset + byteSize u + byteSize (mark :: rest)) [] :=
        RestAt.behind (by rwa [List.append_nil])
      rw [← List.append_nil rest, literalSpansFrom_mark hmark hbody, literalSpansFrom,
        if_neg (by simp)]
      exact .unclosed h hu hbegin ⟨mark, rest, hmark, hbegin, hend, hbody⟩
    · have hend : RestAt s (offset + byteSize u + byteSize (mark :: body) + mark.utf8Size) t := by
        rw [byteSize_cons, ← Nat.add_assoc]
        exact hbegin.next.behind.next
      have hclose : (Quoting.literal mark false).stepChar mark = .code := by
        have hne : mark ≠ '\\' := by
          rintro rfl
          revert hmark
          decide
        simp [Quoting.stepChar, hne]
      rw [literalSpansFrom_mark hmark hbody, literalSpansFrom, if_neg (by simp), hlast, hclose,
        if_pos rfl]
      exact .closed h hu hbegin ⟨mark, body, t, hmark, hbegin, hend, hbody, hlast⟩
        (literalsBehind_literalSpansFrom hend _)
termination_by rest.length
decreasing_by
  subst_vars
  simp
  omega

namespace LiteralsBehind

variable {s : Text} {offset : Nat} {spans : List Span}

lemma isLiteral (h : LiteralsBehind s offset spans) : ∀ span ∈ spans, span.IsLiteral s := by
  induction h with
  | none => simp
  | unclosed h hu hrest hspan => exact List.forall_mem_singleton.mpr (.inr hspan)
  | closed h hu hrest hspan hlater ih => exact List.forall_mem_cons.mpr ⟨.inl hspan, ih⟩

lemma le_start (h : LiteralsBehind s offset spans) : ∀ span ∈ spans, offset ≤ span.start := by
  induction h with
  | none => simp
  | unclosed h hu hrest hspan =>
    have hstart := h.behind.offset_eq hrest
    exact List.forall_mem_singleton.mpr (by omega)
  | closed h hu hrest hspan hlater ih =>
    have hstart := h.behind.offset_eq hrest
    have hnonempty := Span.IsLiteral.nonempty (.inl hspan)
    refine List.forall_mem_cons.mpr ⟨by omega, fun span hmem => ?_⟩
    have hle := ih span hmem
    omega

lemma ordered (h : LiteralsBehind s offset spans) :
    spans.Pairwise fun span later => span.stop ≤ later.start := by
  induction h with
  | none => exact .nil
  | unclosed => exact List.pairwise_singleton ..
  | closed h hu hrest hspan hlater ih => exact .cons hlater.le_start ih

lemma outside (h : LiteralsBehind s offset spans) {offset' : Nat} {c : Char} {rest : Text}
    (hle : offset ≤ offset') (hc : RestAt s offset' (c :: rest))
    (hout : ∀ span ∈ spans, span.contains offset' = false) : isUnquoted c = true := by
  induction h with
  | none h hu =>
    obtain ⟨mid, rfl, -⟩ := h.split hc hle
    exact hu c (by simp)
  | @unclosed _ _ _ span h hu hrest hspan =>
    refine hu c (h.mem_between hrest hc hle ?_)
    obtain ⟨-, -, -, -, hend, -⟩ := hspan
    have hsize := hc.offset_add
    have hstop := hend.offset_add
    have hpos := c.utf8Size_pos
    have hspanless := span.lt_or_le_of_not_contains (hout span (by simp))
    rw [byteSize_cons] at hsize
    rw [byteSize_nil] at hstop
    omega
  | @closed _ _ _ span h hu hrest hspan _ hlater ih =>
    rcases span.lt_or_le_of_not_contains (hout span (by simp)) with hlt | hge
    · exact hu c (h.mem_between hrest hc hle hlt)
    · exact ih hge fun later hmem => hout later (by simp [hmem])

lemma ends (h : LiteralsBehind s offset spans) : ∀ span ∈ spans.dropLast, span.EndsAtMark s := by
  induction h with
  | none => simp
  | unclosed => simp
  | @closed _ _ _ _ _ _ _ hspan spans _ ih =>
    cases spans with
    | nil => simp
    | cons later spans =>
      rw [List.dropLast_cons_cons]
      exact List.forall_mem_cons.mpr ⟨hspan, ih⟩

end LiteralsBehind

/-- What the reader finds are the literals of the text, and no other sequence of stretches is. -/
theorem literalSpans_eq_iff {s : Text} {spans : List Span} :
    literalSpans s = spans ↔ AreLiterals s spans := by
  have hbehind : LiteralsBehind s 0 (literalSpans s) := literalsBehind_literalSpansFrom (.zero s) 0
  have hfound : AreLiterals s (literalSpans s) :=
    { boundaries := fun span hmem => by
        have hspan := hbehind.isLiteral span hmem
        obtain ⟨mark, rest, hrest, -⟩ := hspan.begins
        exact ⟨⟨_, hrest⟩, hspan.boundary⟩
      nonempty := fun span hmem => (hbehind.isLiteral span hmem).nonempty
      ordered := hbehind.ordered
      outside := fun offset c rest hc hout => hbehind.outside (Nat.zero_le offset) hc hout
      begins := fun span hmem => (hbehind.isLiteral span hmem).begins
      ends := hbehind.ends
      last := fun span hmem => hbehind.isLiteral span (List.mem_of_mem_getLast? hmem) }
  constructor
  · rintro rfl
    exact hfound
  · exact hfound.unique

end Swiftward
