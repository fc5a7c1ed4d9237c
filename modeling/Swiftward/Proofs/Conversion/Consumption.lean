import Swiftward.Conversion.Stream
import Swiftward.Proofs.Conversion.Derivation

/-!
# What the steps consume

Each unit consumes the next lines of the source, at least one, and leaves the mode as it was; its
lines of output carry numbers of lines that it consumed (`Converts.reads`, `Converts.numbered`). So
the units that a converter hands out divide the lines it was made for, and it is exhausted when
there is none left (`Converter.steps_divide_lines`).
-/

namespace Swiftward

/-! ### Lines that are consumed -/

/-- The list of instance variables opens on the line of the header, on the next line, or not at
all. -/
lemma convertImplementation_cases (header : ImplementationHeader) (comment : Text)
    (s : LineSource) :
    ((convertImplementation header comment s).lines =
          s.emit (header.render ++ comment) :: s.emit [] :: (convertFields s).lines ∧
        (convertImplementation header comment s).source = (convertFields s).source) ∨
      ((convertImplementation header comment s).lines =
          s.emit (header.render ++ comment) :: (s.skipIf isLoneBrace).2.emit [] ::
            (convertFields (s.skipIf isLoneBrace).2).lines ∧
        (convertImplementation header comment s).source =
          (convertFields (s.skipIf isLoneBrace).2).source) ∨
      ((convertImplementation header comment s).lines = [s.emit (header.render ++ comment)] ∧
        (convertImplementation header comment s).source = (s.skipIf isLoneBrace).2) := by
  unfold convertImplementation
  by_cases hopens : header.opensFields = true
  · simp [hopens]
  · by_cases hbrace : (s.skipIf isLoneBrace).1 = true
    · simp [hopens, hbrace]
    · simp [hopens, hbrace]

namespace LineSource.Kept

variable {P : LineSource → Prop} {s t : LineSource}

lemma convertImplementation (hP : Kept P) (header : ImplementationHeader) (comment : Text)
    (hs : P s) : P (Swiftward.convertImplementation header comment s).source := by
  have hskip := hP.skipIf isLoneBrace hs
  obtain ⟨-, hsource⟩ | ⟨-, hsource⟩ | ⟨-, hsource⟩ := convertImplementation_cases header comment s
  · rw [hsource]
    exact hP.readUntil _ hs
  · rw [hsource]
    exact hP.readUntil _ hskip
  · rw [hsource]
    exact hskip

lemma skipSynthesize (hP : Kept P) (code : Text) (hs : P s) :
    P (Swiftward.skipSynthesize code s).source := by
  unfold Swiftward.skipSynthesize
  split_ifs
  · exact hs
  · exact hP.readUntil endsStatement hs

lemma skipGuardEnd (hP : Kept P) (hs : P s) : P (Swiftward.skipGuardEnd s) :=
  hP.skipIf isReturnSelf (hP.skipIf closesBlock hs)

/-- Units that read no block keep what looking at lines and consuming them keeps. -/
lemma alone (hP : Kept P) {line : Text} {lines : List OutputLine} (h : Alone line s lines t)
    (hs : P s) : P t := by
  cases h with
  | implementation h => exact hP.convertImplementation _ _ hs
  | interface h => exact hP.skipWhile List.isEmpty (hP.readUntil isBlockEnd hs)
  | synthesize h => exact hP.skipSynthesize _ hs
  | method h => exact hP.readContinuations _ hs
  | braced h hguard hbody hbrace => exact hP.skipIf isLoneBrace hs
  | blank h => exact hs
  | imported h => exact hs
  | dropped h => exact hs
  | blockEnd h => exact hs
  | done h => exact hs
  | header h hguard hbody => exact hs

end LineSource.Kept

lemma reads_skipGuardEnd (s : LineSource) : ∃ texts, s.Reads texts (skipGuardEnd s) :=
  (LineSource.kept_reads s).skipGuardEnd ⟨[], .refl s⟩

lemma Alone.reads {line : Text} {s t : LineSource} {lines : List OutputLine}
    (h : Alone line s lines t) : ∃ texts, s.Reads texts t :=
  (LineSource.kept_reads s).alone h ⟨[], .refl s⟩

/-- Every conversion only reads on from where it begins. -/
theorem Converts.reads {part : Part} {s t : LineSource} {lines : List OutputLine}
    (h : Converts part s lines t) : ∃ texts, s.Reads texts t := by
  induction h with
  | alone h => exact h.reads
  | guarded h hguard hbody ih =>
    obtain ⟨texts, ih⟩ := ih
    obtain ⟨more, hend⟩ := reads_skipGuardEnd (LineSource.setDedent _ _)
    exact ⟨_, .dedented true ih hend⟩
  | @braceless line comment s t c lines h hguard hfollows hbrace hbody ih =>
    obtain ⟨texts, ih⟩ := ih
    obtain ⟨more, hskip⟩ := s.reads_skipIf isLoneBrace
    exact ⟨_, hskip.trans ih⟩
  | outOfLines h => exact ⟨_, .peek (.refl _)⟩
  | stopBefore h hbefore => exact ⟨_, .peek (.refl _)⟩
  | stopBehind h hbefore hbehind hunit ih =>
    obtain ⟨texts, ih⟩ := ih
    exact ⟨_, (LineSource.Reads.consume_peek h).trans ih⟩
  | goOn h hbefore hbehind hunit hmore ih ih' =>
    obtain ⟨texts, ih⟩ := ih
    obtain ⟨more, ih'⟩ := ih'
    exact ⟨_, ((LineSource.Reads.consume_peek h).trans ih).trans ih'⟩

/-! ### Numbers of output lines -/

/-- The numbers of the lines go from `first` to `last` without ever going back. -/
def Numbered (first last : Nat) : List OutputLine → Prop
  | [] => first ≤ last
  | line :: lines => first ≤ line.source ∧ Numbered line.source last lines

namespace Numbered

variable {first mid last : Nat} {lines more : List OutputLine}

lemma of_le (h : Numbered mid last lines) (hle : first ≤ mid) : Numbered first last lines := by
  cases lines with
  | nil => exact Nat.le_trans hle h
  | cons line lines => exact ⟨Nat.le_trans hle h.1, h.2⟩

lemma append (h : Numbered first mid lines) (h' : Numbered mid last more) :
    Numbered first last (lines ++ more) := by
  induction lines generalizing first with
  | nil => exact h'.of_le h
  | cons line lines ih => exact ⟨h.1, ih h.2⟩

lemma le_last (h : Numbered first mid lines) (hle : mid ≤ last) : Numbered first last lines := by
  have := h.append (show Numbered mid last [] from hle)
  rwa [List.append_nil] at this

end Numbered

section Numbers

variable {width consumed : Nat} {rest : List Text} {s : LineSource}

lemma LineSource.Stands.numbered_emit (hs : s.Stands width consumed rest) (texts : List Text) :
    Numbered consumed consumed (texts.map s.emit) := by
  induction texts with
  | nil => exact Nat.le_refl _
  | cons text texts ih =>
    have hsource : (s.emit text).source = consumed := hs.lineNumber
    rw [List.map_cons, Numbered, hsource]
    exact ⟨Nat.le_refl _, ih⟩

/-- Behind what was read the source stands further on. -/
lemma LineSource.Reads.exists_stands {t : LineSource} {texts : List Text} (h : s.Reads texts t)
    (hs : s.Stands width consumed rest) :
    consumed ≤ t.lineNumber ∧ ∃ rest', t.Stands width t.lineNumber rest' := by
  obtain ⟨group, rest', -, -, ht⟩ := h.stands hs
  have hnumber := ht.lineNumber
  refine ⟨by omega, rest', ?_⟩
  rwa [hnumber]

lemma numbered_readUntil {stop : Text → Bool} {f : Nat × Text → Option OutputLine}
    (hf : ∀ entry line, f entry = some line → line.source = entry.1)
    (hs : s.Stands width consumed rest) :
    Numbered consumed (s.readUntil stop).2.lineNumber ((s.readUntil stop).1.filterMap f) := by
  fun_induction LineSource.readUntil stop s generalizing consumed rest with
  | case1 s h => exact Nat.le_of_eq hs.lineNumber.symm
  | case2 s text s' h hstop =>
    obtain ⟨line, rest, -, -, hs'⟩ := hs.next? h
    show consumed ≤ s'.lineNumber
    rw [hs'.lineNumber]
    exact Nat.le_succ consumed
  | case3 s text s' h hstop lines t hread ih =>
    obtain ⟨line, rest, -, -, hs'⟩ := hs.next? h
    have ih := ih hs'
    rw [hread] at ih
    cases hline : f (s'.lineNumber, text) with
    | none =>
      rw [List.filterMap_cons_none hline]
      exact ih.of_le (Nat.le_succ consumed)
    | some line =>
      have hsource : line.source = consumed + 1 := by rw [hf _ _ hline, hs'.lineNumber]
      rw [List.filterMap_cons_some hline, Numbered, hsource]
      exact ⟨Nat.le_succ consumed, ih⟩

lemma numbered_convertFields (hs : s.Stands width consumed rest) :
    Numbered consumed (convertFields s).source.lineNumber (convertFields s).lines := by
  refine numbered_readUntil ?_ hs
  intro entry line hline
  obtain ⟨field, -, rfl⟩ := Option.map_eq_some_iff.mp hline
  rfl

lemma numbered_convertImplementation (header : ImplementationHeader) (comment : Text)
    (hs : s.Stands width consumed rest) :
    Numbered consumed (convertImplementation header comment s).source.lineNumber
      (convertImplementation header comment s).lines := by
  obtain ⟨texts, hskip⟩ := s.reads_skipIf isLoneBrace
  obtain ⟨hle, rest', hbehind⟩ := hskip.exists_stands hs
  have hfirst := hs.numbered_emit [header.render ++ comment]
  obtain ⟨hlines, hsource⟩ | ⟨hlines, hsource⟩ | ⟨hlines, hsource⟩ :=
    convertImplementation_cases header comment s
  · rw [hlines, hsource]
    exact (hs.numbered_emit [_, _]).append (numbered_convertFields hs)
  · rw [hlines, hsource]
    exact (hfirst.le_last hle).append
      ((hbehind.numbered_emit [[]]).append (numbered_convertFields hbehind))
  · rw [hlines, hsource]
    exact hfirst.le_last hle

lemma Alone.numbered {line : Text} {t : LineSource} {lines : List OutputLine}
    (h : Alone line s lines t) (hs : s.Stands width consumed rest) :
    Numbered consumed t.lineNumber lines := by
  obtain ⟨texts, hreads⟩ := h.reads
  obtain ⟨hle, rest', ht⟩ := hreads.exists_stands hs
  cases h with
  | implementation h => exact numbered_convertImplementation _ _ hs
  | @method header comment h =>
    exact (ht.numbered_emit (commentFirst comment (readContinuations header s).1.render)).of_le hle
  | dropped h => exact hle
  | interface h => exact hle
  | synthesize h => exact hle
  | braced h hguard hbody hbrace => exact (hs.numbered_emit [_]).le_last hle
  | blank h => exact (hs.numbered_emit [_]).le_last hle
  | imported h => exact (hs.numbered_emit [_]).le_last hle
  | blockEnd h => exact (hs.numbered_emit [_]).le_last hle
  | done h => exact (hs.numbered_emit [_]).le_last hle
  | header h hguard hbody => exact (hs.numbered_emit [_]).le_last hle

/-- The lines of a conversion carry numbers of lines that it consumed, in their order. -/
theorem Converts.numbered {part : Part} {t : LineSource} {lines : List OutputLine}
    (h : Converts part s lines t) (hs : s.Stands width consumed rest) :
    Numbered consumed t.lineNumber lines := by
  induction h generalizing consumed rest with
  | alone h => exact h.numbered hs
  | @guarded line comment s t c lines h hguard hbody ih =>
    obtain ⟨texts, hreads⟩ := hbody.reads
    obtain ⟨-, rest, ht⟩ := hreads.exists_stands (hs.setDedent true)
    obtain ⟨more, hend⟩ := reads_skipGuardEnd (t.setDedent s.dedenting)
    exact (ih (hs.setDedent true)).le_last (hend.exists_stands (ht.setDedent _)).1
  | @braceless line comment s t c lines h hguard hfollows hbrace hbody ih =>
    obtain ⟨texts, hskip⟩ := s.reads_skipIf isLoneBrace
    obtain ⟨hle, rest', hbehind⟩ := hskip.exists_stands hs
    obtain ⟨more, hreads⟩ := hbody.reads
    obtain ⟨-, rest'', ht⟩ := hreads.exists_stands hbehind
    have hheader := (hs.numbered_emit [c.render ++ comment]).le_last hle
    exact (hheader.append (ih hbehind)).append (ht.numbered_emit [_])
  | @outOfLines bound s h =>
    exact (LineSource.Reads.exists_stands (.peek (.refl _)) hs).1
  | stopBefore h hbefore => exact (LineSource.Reads.exists_stands (.peek (.refl _)) hs).1
  | @stopBehind bound s t line lines h hbefore hbehind hunit ih =>
    obtain ⟨hle, rest', hconsumed⟩ := (LineSource.Reads.consume_peek h).exists_stands hs
    exact (ih hconsumed).of_le hle
  | @goOn bound s t u line lines more h hbefore hbehind hunit hmore ih ih' =>
    obtain ⟨hle, rest', hconsumed⟩ := (LineSource.Reads.consume_peek h).exists_stands hs
    obtain ⟨texts, hreads⟩ := hunit.reads
    obtain ⟨-, rest'', ht⟩ := hreads.exists_stands hconsumed
    exact ((ih hconsumed).of_le hle).append (ih' ht)

end Numbers

/-! ### Steps -/

/-- The lines that a step hands out. -/
def Step.lines : Step → List OutputLine
  | emitted lines => lines
  | nothing => []
  | exhausted => []

namespace Converter

/-- The converter after the given number of steps. -/
def after (c : Converter) : Nat → Converter
  | 0 => c
  | k + 1 => (c.after k).step.2

lemma after_succ (c : Converter) (k : Nat) : c.after (k + 1) = c.step.2.after k := by
  induction k with
  | zero => rfl
  | succ k ih => rw [after, ih, after]

lemma after_add (c : Converter) (k j : Nat) : c.after (k + j) = (c.after k).after j := by
  induction j with
  | zero => rfl
  | succ j ih => rw [← Nat.add_assoc, after, ih, after]

/-- One step consumes the lines `group`, reading one after the other, hands out all that they
become, and leaves the mode as it was. -/
structure StepsOver (width : Nat) (c : Converter) (group : List Text) (c' : Converter) : Prop where
  step_eq : c.step.2 = c'
  ne_exhausted : c.step.1 ≠ .exhausted
  group_ne_nil : group ≠ []
  reads : ∃ texts, List.Forall₂ (LineSource.IsFetched width) group texts ∧
    c.source.Reads texts c'.source
  hands_out : ∃ unit, convertNext c.source = some unit ∧ c.step.1.lines = unit.lines ∧
    c' = { c with source := unit.source }
  numbered : Numbered (c.source.lineNumber + 1) c'.source.lineNumber c.step.1.lines
  dedenting_eq : c'.source.dedenting = c.source.dedenting

lemma step_of_none {c : Converter} (h : convertNext c.source = none) : c.step = (.exhausted, c) := by
  rw [step, h]

lemma step_of_some {c : Converter} {unit : Conversion c.source.unread}
    (h : convertNext c.source = some unit) :
    c.step.1 ≠ .exhausted ∧ c.step.1.lines = unit.lines ∧
      c.step.2 = { c with source := unit.source } := by
  rw [step, h]
  cases hlines : unit.lines with
  | nil => simp [hlines, Step.lines]
  | cons line lines => simp [hlines, Step.lines]

variable {width consumed : Nat} {rest : List Text} {c : Converter}

/-- A step takes the next lines, or there are none. -/
lemma step_cases (hs : c.source.Stands width consumed rest) :
    (rest = [] ∧ c.step = (.exhausted, c)) ∨
      ∃ group rest', rest = group ++ rest' ∧ c.StepsOver width group c.step.2 ∧
        c.step.2.source.Stands width (consumed + group.length) rest' := by
  obtain ⟨hnext, hnone⟩ | ⟨text, s', unit, hnext, hunit, hlines, hsource⟩ :=
    convertNext_cases c.source
  · exact .inl ⟨hs.next?_eq_none.mp hnext, step_of_none hnone⟩
  · obtain ⟨hne, hstep, hafter⟩ := step_of_some hunit
    have hderived := converts_unit text s'
    rw [← hlines, ← hsource] at hderived
    obtain ⟨line, rest, rfl, -, hs'⟩ := hs.next? hnext
    obtain ⟨texts, hreads⟩ := hderived.reads
    obtain ⟨group, rest', hrest, hgroup, ht⟩ := (LineSource.Reads.next hnext hreads).stands hs
    refine .inr ⟨group, rest', hrest, ⟨rfl, hne, ?_, ⟨_, hgroup, ?_⟩, ⟨unit, hunit, hstep, hafter⟩,
      ?_, ?_⟩, ?_⟩
    · rintro rfl
      simp at hgroup
    · rw [hafter]
      exact .next hnext hreads
    · rw [hs.lineNumber, hstep, hafter]
      exact hderived.numbered hs'
    · rw [hafter]
      exact (LineSource.Reads.next hnext hreads).dedenting_eq
    · rw [hafter]
      exact ht

/-- From wherever a converter stands, its steps take what is left, group by group. -/
lemma exists_groups (hs : c.source.Stands width consumed rest) :
    ∃ groups : List (List Text), groups.flatten = rest ∧ [] ∉ groups ∧
      ∀ k, (c.after k).source.Stands width (consumed + (groups.take k).flatten.length)
          (groups.drop k).flatten ∧
        (∀ group, groups[k]? = some group → (c.after k).StepsOver width group (c.after (k + 1))) ∧
        (groups.length ≤ k → (c.after k).step = (.exhausted, c.after k)) := by
  induction hlength : rest.length using Nat.strongRecOn generalizing c consumed rest with
  | ind length ih =>
  obtain ⟨rfl, hstep⟩ | ⟨group, rest', rfl, hover, hs'⟩ := step_cases hs
  · have hafter (k : Nat) : c.after k = c := by
      induction k with
      | zero => rfl
      | succ k ih => rw [after, ih, hstep]
    refine ⟨[], rfl, by simp, ?_⟩
    intro k
    simpa [hafter, hstep] using hs
  · have hpos : 0 < group.length := List.length_pos_of_ne_nil hover.group_ne_nil
    obtain ⟨groups, rfl, hne, hgroups⟩ := ih rest'.length (by simp at hlength; omega) hs' rfl
    refine ⟨group :: groups, rfl, ?_, ?_⟩
    · simpa [hne] using hover.group_ne_nil.symm
    · intro k
      cases k with
      | zero => exact ⟨by simpa [after] using hs, by simpa [after] using hover, by simp⟩
      | succ k =>
        obtain ⟨hstands, hsteps, hexhausted⟩ := hgroups k
        rw [after_succ, after_succ]
        refine ⟨?_, by simpa using hsteps, by simpa using hexhausted⟩
        simpa [Nat.add_assoc] using hstands

lemma length_le_length_flatten {groups : List (List Text)} (h : [] ∉ groups) :
    groups.length ≤ groups.flatten.length := by
  induction groups with
  | nil => exact Nat.le_refl _
  | cons group groups ih =>
    rw [List.mem_cons, not_or] at h
    have hpos : 0 < group.length := List.length_pos_of_ne_nil (Ne.symm h.1)
    have := ih h.2
    simp only [List.length_cons, List.flatten_cons, List.length_append]
    omega

lemma flatten_take_eq_iff {groups : List (List Text)} (h : [] ∉ groups) (k : Nat) :
    (groups.take k).flatten = groups.flatten ↔ groups.length ≤ k := by
  constructor
  · intro htake
    have hdrop : (groups.drop k).flatten = [] := by
      rw [← List.take_append_drop k groups, List.flatten_append, List.take_append_drop] at htake
      simpa using htake
    rw [← List.drop_eq_nil_iff, List.eq_nil_iff_forall_not_mem]
    intro group hgroup
    have hnil : group = [] := List.flatten_eq_nil_iff.mp hdrop group hgroup
    exact h (hnil ▸ List.mem_of_mem_drop hgroup)
  · intro hk
    rw [List.take_of_length_le hk]

/-- A step leaves nothing behind and the mode as it was. -/
lemma step_keeps (hs : c.source.Stands width consumed rest) :
    c.step.2.ready = c.ready ∧ c.step.2.source.dedenting = c.source.dedenting := by
  obtain ⟨-, hstep⟩ | ⟨group, rest', -, hover, -⟩ := step_cases hs
  · rw [hstep]
    exact ⟨rfl, rfl⟩
  · obtain ⟨unit, -, -, hafter⟩ := hover.hands_out
    exact ⟨by rw [hafter], hover.dedenting_eq⟩

lemma unread_step_le (c : Converter) : c.step.2.source.unread ≤ c.source.unread := by
  cases hunit : convertNext c.source with
  | none =>
    exact Nat.le_of_eq (by rw [step_of_none hunit])
  | some unit =>
    rw [(step_of_some hunit).2.2]
    exact Nat.le_of_lt unit.unread_lt

/-- The number of lines is that of the consumed and the unread ones. -/
lemma lineNumber_add_unread (width : Nat) (lines : List Text) (k : Nat) :
    ((ofLines width lines).after k).source.lineNumber +
      ((ofLines width lines).after k).source.unread = lines.length := by
  obtain ⟨groups, rfl, -, hgroups⟩ := exists_groups
    (show (ofLines width lines).source.Stands width 0 lines from LineSource.stands_ofLines ..)
  obtain ⟨hstands, -⟩ := hgroups k
  rw [hstands.lineNumber, hstands.unread, Nat.zero_add, ← List.length_append,
    ← List.flatten_append, List.take_append_drop]

/-- The steps of a converter divide its lines into groups, in order and without a gap. Each step
takes one group, of at least one line, and the converter is exhausted once all of them are taken,
which is after no more steps than there are lines. No step leaves lines of output behind, and none
changes the mode. -/
theorem steps_divide_lines (width : Nat) (lines : List Text) :
    ∃ groups : List (List Text), groups.flatten = lines ∧ groups.length ≤ lines.length ∧
      ∀ k, ((ofLines width lines).after k).source.Stands width (groups.take k).flatten.length
          (groups.drop k).flatten ∧
        (∀ group, groups[k]? = some group →
          ((ofLines width lines).after k).StepsOver width group
            ((ofLines width lines).after (k + 1))) ∧
        (((ofLines width lines).after k).step.1 = .exhausted ↔ groups.length ≤ k) ∧
        ((groups.take k).flatten = lines ↔ groups.length ≤ k) ∧
        (groups.length ≤ k → (ofLines width lines).after (k + 1) = (ofLines width lines).after k) ∧
        ((ofLines width lines).after k).ready = [] ∧
        ((ofLines width lines).after k).source.dedenting = false := by
  obtain ⟨groups, rfl, hne, hgroups⟩ :=
    exists_groups (show (ofLines width lines).source.Stands width 0 lines from
      LineSource.stands_ofLines width lines)
  refine ⟨groups, rfl, length_le_length_flatten hne, ?_⟩
  intro k
  have hkept : ((ofLines width groups.flatten).after k).ready = [] ∧
      ((ofLines width groups.flatten).after k).source.dedenting = false := by
    induction k with
    | zero => exact ⟨rfl, rfl⟩
    | succ k ih =>
      obtain ⟨hready, hdedenting⟩ := step_keeps (hgroups k).1
      exact ⟨hready.trans ih.1, hdedenting.trans ih.2⟩
  obtain ⟨hstands, hsteps, hend⟩ := hgroups k
  refine ⟨by simpa using hstands, hsteps, ⟨?_, ?_⟩, flatten_take_eq_iff hne k, ?_, hkept⟩
  · intro hexhausted
    by_contra hk
    have hover := hsteps _ (List.getElem?_eq_getElem (Nat.lt_of_not_le hk))
    exact hover.ne_exhausted hexhausted
  · intro hk
    rw [hend hk]
  · intro hk
    rw [after, hend hk]

end Converter

end Swiftward
