import Swiftward.Proofs.Conversion.Scan
import Swiftward.Proofs.Conversion.Simulation
import Swiftward.Proofs.Conversion.Stream
import Swiftward.Proofs.Statement.Indentation

/-!
# Guards

The body of a guard is converted in dedent mode, as long as its lines are indented as deep as the
guard. Where the file is indented by the configured width, that is what a converter makes of the
body when the body is given to it with one unit of indentation less: the two are read in step, since
a converter that still has the closing brace before it does not see that its source ends there
(`LineSource.inStep_leads`). Header, closing brace and a `return self;` behind it leave no trace
(`Converter.step_guard`).
-/

namespace Swiftward

/-! ### The lines of a guard -/

/-- The lines of a guard with the given indentation and body. -/
def guardLines (indent : Text) (body : List Text) : List Text :=
  (indent ++ "if (self) \x7b".toList) :: body ++ [indent ++ ['\x7d']]

/-- The number of lines of a `return self;` right behind a guard: one, or none. -/
def returnSelfCount (rest : List Text) : Nat :=
  if rest.head?.any (fun line => isReturnSelf (trimEnd line)) then 1 else 0

section Header

variable {indent : Text} (hindent : ∀ c ∈ indent, isSpace c = true)

include hindent

lemma cutAtSlashes_indent (s : Text) :
    cutAtSlashes .code (indent ++ s) =
      (cutAtSlashes .code s).map fun (front, back) => (indent ++ front, back) := by
  induction indent with
  | nil => simp
  | cons c indent ih =>
    obtain ⟨hc, hindent⟩ := List.forall_mem_cons.mp hindent
    have hslash : c ≠ '/' := ne_of_class hc (by decide)
    have hstep : Quoting.code.stepChar c = .code :=
      Quoting.step_code_of_isUnquoted (isUnquoted_of_isSpace hc)
    rw [List.cons_append, cutAtSlashes, if_neg (by simp [hslash]), hstep, ih hindent, Option.map_map]
    rfl

/-- An indented statement without a comment is the construct that it is without indentation. -/
lemma IsConstruct.of_indent (hne : indent ≠ []) {s : Text} (huncommented : cutAtSlashes .code s = none)
    (himport : Import.parse? s = none) :
    IsConstruct (indent ++ s) (.statement ((Statement.ofCode s).indentBy indent)) [] := by
  have hsplit : splitComment (indent ++ s) = (indent ++ s, []) := by
    rw [splitComment, cutAtSlashes_indent hindent, huncommented]
    rfl
  refine ⟨?_, ?_, ?_⟩
  · rw [hsplit]
    simp [hne]
  · rw [hsplit]
    exact Construct.ofCode_indent hindent hne himport
  · rw [hsplit]

/-- The header of a guard is read as one. -/
lemma isConstruct_guard (hne : indent ≠ []) :
    ∃ c, IsConstruct (indent ++ "if (self) \x7b".toList) (.statement (.conditional c)) [] ∧
      c.isSelfGuard = true ∧ c.indent = indent := by
  have hconstruct := IsConstruct.of_indent hindent hne
    (s := "if (self) \x7b".toList) (by decide) (by decide)
  have hheader : Statement.ofCode "if (self) \x7b".toList =
      .conditional ⟨[], "if".toList, some "self".toList, .braced ['\x7b']⟩ := by decide +kernel
  rw [hheader] at hconstruct
  exact ⟨_, hconstruct, by simp [Conditional.indentBy, Conditional.isSelfGuard, hne],
    List.append_nil indent⟩

/-- What closes a guard is no header of a guard. -/
lemma not_isGuard_closing : ¬IsGuard (indent ++ ['\x7d']) := by
  by_cases hne : indent = []
  · rw [hne]
    decide +kernel
  · have hconstruct := IsConstruct.of_indent hindent hne (s := ['\x7d']) (by decide) (by decide)
    have hdone : Statement.ofCode ['\x7d'] = .done ['\x7d'] := by decide +kernel
    rw [hdone] at hconstruct
    exact hconstruct.not_isGuard rfl

lemma closesBlock_closing : closesBlock (indent ++ ['\x7d']) = true := by
  rw [closesBlock, trimStart_indent hindent]
  decide

lemma takeWhile_closing : (indent ++ ['\x7d']).takeWhile isSpace = indent := by
  rw [takeWhile_indent hindent]
  exact List.append_nil indent

/-- A text that begins with the indentation has at least as much of it. -/
lemma length_le_of_prefix {s : Text} (h : indent <+: s) :
    indent.length ≤ (s.takeWhile isSpace).length := by
  obtain ⟨rest, rfl⟩ := h
  rw [takeWhile_indent hindent]
  simp

omit hindent in
/-- A closing brace that is indented by a unit loses it. -/
lemma fetchedAs_closing {width : Nat} (hwidth : 0 < width)
    (hunit : List.replicate width ' ' <+: indent) :
    fetchedAs width true (indent ++ ['\x7d']) = indent.drop width ++ ['\x7d'] := by
  have hdrop : width ≤ indent.length := by simpa using hunit.length_le
  rw [fetchedAs, trimEnd_append_singleton (by decide),
    if_pos ⟨rfl, hwidth, hunit.trans (List.prefix_append _ _)⟩, List.drop_append_of_le_length hdrop]

/-- The closing brace of a guard is indented as deep as the guard, until it has lost a unit. -/
lemma prefix_closing_iff (width : Nat) :
    indent <+: fetchedAs width true (indent ++ ['\x7d']) ↔
      ¬(0 < width ∧ List.replicate width ' ' <+: indent) := by
  constructor
  · rintro hstarts ⟨hwidth, hunit⟩
    have hlength := length_le_of_prefix hindent hstarts
    have houter : ∀ a ∈ indent.drop width, isSpace a = true := fun a ha =>
      hindent a (List.mem_of_mem_drop ha)
    rw [fetchedAs_closing hwidth hunit, takeWhile_closing houter, List.length_drop] at hlength
    have hle : width ≤ indent.length := by simpa using hunit.length_le
    omega
  · intro hunit
    rw [fetchedAs, trimEnd_append_singleton (by decide), if_neg]
    · exact List.prefix_append _ _
    · rintro ⟨-, hwidth, hprefix⟩
      rcases List.prefix_concat_iff.mp hprefix with hbrace | hprefix
      · have hmem : '\x7d' ∈ List.replicate width ' ' := by rw [hbrace]; simp
        exact absurd (List.eq_of_mem_replicate hmem) (by decide)
      · exact hunit ⟨hwidth, hprefix⟩

end Header

/-- A block ends before a line that is not blank and does not begin with the indentation. -/
lemma BlockBound.endsBefore_indented_iff {indent line : Text} :
    (indented indent).endsBefore line = true ↔ line ≠ [] ∧ ¬indent <+: line := by
  have hstrip : (strip? indent line).isNone = true ↔ ¬indent <+: line := by
    rw [Option.isNone_iff_eq_none, Option.eq_none_iff_forall_ne_some]
    constructor
    · rintro hnone ⟨rest, hrest⟩
      exact hnone rest (strip?_eq_some_iff.mpr hrest.symm)
    · rintro hstarts rest hrest
      exact hstarts ⟨rest, (strip?_eq_some_iff.mp hrest).symm⟩
  rw [endsBefore, Bool.and_eq_true, hstrip]
  simp

/-! ### Steps over a guard -/

namespace LineSource

variable {width consumed : Nat} {line text : Text} {rest : List Text} {s : LineSource}

lemma Faces.next?_eq (h : s.Faces width consumed (line :: rest)) :
    s.next? = some (trimEnd line, ⟨rest, none, false, width, consumed + 1⟩) := by
  cases h <;> rfl

/-- Behind the body of a guard its closing brace is skipped, and a `return self;`. -/
lemma faces_skipGuardEnd (h : closesBlock text = true) (width consumed : Nat) (rest : List Text) :
    (skipGuardEnd ⟨rest, some text, false, width, consumed + 1⟩).Faces width
      (consumed + 1 + returnSelfCount rest) (rest.drop (returnSelfCount rest)) := by
  have hclose : skipIf closesBlock ⟨rest, some text, false, width, consumed + 1⟩ =
      (true, ⟨rest, none, false, width, consumed + 1⟩) := by
    simp [skipIf, nextWhere, LineSource.peek, h, consume]
  rw [skipGuardEnd, hclose]
  cases rest with
  | nil => exact .behind _ _
  | cons line rest =>
    have hstart : Faces width ⟨line :: rest, none, false, width, consumed + 1⟩ (consumed + 1)
        (line :: rest) := .behind _ _
    by_cases hreturn : isReturnSelf (trimEnd line) = true
    · have hcount : returnSelfCount (line :: rest) = 1 := by simp [returnSelfCount, hreturn]
      rw [hcount]
      exact (hstart.skipIf_of_passes hreturn).2
    · have hcount : returnSelfCount (line :: rest) = 0 := by simp [returnSelfCount, hreturn]
      rw [hcount]
      exact (hstart.skipIf (by simpa using hreturn)).2

end LineSource

namespace Converter

/-- Where a guard is next, its body is converted in dedent mode. -/
lemma step_of_body {c : Converter} {width consumed : Nat} {indent : Text}
    (hindent : ∀ a ∈ indent, isSpace a = true) (hne : indent ≠ []) {rest : List Text}
    (hc : c.source.Faces width consumed ((indent ++ "if (self) \x7b".toList) :: rest))
    {lines : List OutputLine} {t : LineSource}
    (hbody : Converts (.block (.indented indent)) ⟨rest, none, true, width, consumed + 1⟩ lines t) :
    c.step.1 = .ofLines lines ∧ c.step.2 = { c with source := skipGuardEnd (t.setDedent false) } := by
  obtain ⟨header, hheader, hguard, hheaderIndent⟩ := isConstruct_guard hindent hne
  have hbrace : trimEnd (indent ++ "if (self) \x7b".toList) = indent ++ "if (self) \x7b".toList :=
    trimEnd_append_of_ne_nil (t := "if (self) \x7b".toList) (by decide) indent
  have hnext := hc.next?_eq
  rw [hbrace] at hnext
  have hunit : Converts (.unit (indent ++ "if (self) \x7b".toList))
      ⟨rest, none, false, width, consumed + 1⟩ lines (skipGuardEnd (t.setDedent false)) :=
    .guarded hheader hguard (by rwa [hheaderIndent])
  refine ⟨?_, (step_of_converts hnext hunit).2⟩
  obtain ⟨unit, hconvert, rfl, -⟩ := hunit.exists_convertNext hnext
  exact step_eq_ofLines hconvert

end Converter

/-! ### A body and the same body with less indentation -/

namespace LineSource

/-- Of the lines `texts`, the first source still gives some, in the form in which they are, and the
second gives the same, in dedent mode, and then the lines `rest`. -/
inductive Leads (texts rest : List Text) (width shift : Nat) : LineSource → LineSource → Prop where
  | mk {front front' : List Text} {ahead : Option Text} {fetched : Nat}
      (hfront : front'.map (fetchedAs width true) = front.map trimEnd)
      (hsuffix : ahead.toList ++ front.map trimEnd <:+ texts)
      (hcounted : ahead.toList.length ≤ fetched) (htotal : fetched + front.length = texts.length) :
      Leads texts rest width shift ⟨front, ahead, false, width, fetched⟩
        ⟨front' ++ rest, ahead, true, width, fetched + shift⟩

lemma peek_dedenting (line : Text) (rest : List Text) (width fetched : Nat) :
    peek ⟨line :: rest, none, true, width, fetched⟩ =
      (some (fetchedAs width true line),
        ⟨rest, some (fetchedAs width true line), true, width, fetched + 1⟩) := by
  rw [← asFetched_eq ⟨line :: rest, none, true, width, fetched⟩ line]
  rfl

namespace Leads

variable {texts rest : List Text} {width shift : Nat} {s s' : LineSource}

lemma lineNumber_eq (h : Leads texts rest width shift s s') :
    s'.lineNumber = s.lineNumber + shift := by
  cases h with
  | mk hfront hsuffix hcounted htotal =>
    simp only [lineNumber]
    omega

/-- As long as there is a line left, both sources give it. -/
lemma peek (h : Leads texts rest width shift s s') (hleft : 1 ≤ s.unread) :
    ∃ text, s.peek.1 = some text ∧ s'.peek.1 = some text ∧
      (∃ more, text :: more <:+ texts ∧ s.unread = more.length + 1) ∧
      Leads texts rest width shift s.peek.2 s'.peek.2 ∧
      Leads texts rest width shift s.peek.2.consume s'.peek.2.consume := by
  cases h with
  | @mk front front' ahead fetched hfront hsuffix hcounted htotal =>
    cases ahead with
    | some text =>
      have hmore : front.map trimEnd <:+ texts := (List.suffix_cons text _).trans hsuffix
      exact ⟨text, rfl, rfl, ⟨front.map trimEnd, hsuffix, by simp [unread]⟩,
        .mk hfront hsuffix hcounted htotal, .mk hfront hmore (Nat.zero_le _) htotal⟩
    | none =>
      cases front with
      | nil => simp [unread] at hleft
      | cons line front =>
        cases front' with
        | nil => simp at hfront
        | cons line' front' =>
          simp only [List.map_cons, List.cons.injEq] at hfront
          obtain ⟨hline, hfront⟩ := hfront
          have hmore : front.map trimEnd <:+ texts := (List.suffix_cons _ _).trans hsuffix
          have htotal' : fetched + 1 + front.length = texts.length := by
            rw [← htotal, List.length_cons]
            omega
          rw [List.cons_append, peek_dedenting, hline, Nat.add_right_comm]
          exact ⟨trimEnd line, rfl, rfl, ⟨front.map trimEnd, hsuffix, by simp [unread]⟩,
            .mk hfront hsuffix (by simp) htotal', .mk hfront hmore (Nat.zero_le _) htotal'⟩

/-- The last of the lines has been looked at when both sources have come to it. -/
lemma peek_last (h : Leads texts rest width shift s s') (hleft : s.unread = 1) :
    ∃ text, texts.getLast? = some text ∧
      s'.peek = (some text, ⟨rest, some text, true, width, texts.length + shift⟩) := by
  cases h with
  | @mk front front' ahead fetched hfront hsuffix hcounted htotal =>
    cases ahead with
    | some text =>
      obtain rfl : front = [] := List.eq_nil_of_length_eq_zero (by simpa [unread] using hleft)
      obtain rfl : front' = [] := by simpa using hfront
      obtain ⟨before, rfl⟩ := hsuffix
      refine ⟨text, by simp, ?_⟩
      rw [← htotal]
      rfl
    | none =>
      obtain ⟨line, rfl⟩ : ∃ line, front = [line] :=
        List.length_eq_one_iff.mp (by simpa [unread] using hleft)
      obtain ⟨line', rfl⟩ : ∃ line', front' = [line'] :=
        List.length_eq_one_iff.mp (by simpa using congrArg List.length hfront)
      have hline : fetchedAs width true line' = trimEnd line := by simpa using hfront
      obtain ⟨before, rfl⟩ := hsuffix
      refine ⟨trimEnd line, by simp, ?_⟩
      rw [List.singleton_append, peek_dedenting, hline, ← htotal, List.length_singleton,
        Nat.add_right_comm]

end Leads

/-- A source without guards that has a line left is read in step with one that goes on behind it. -/
lemma inStep_leads {texts : List Text} (hguard : ∀ text ∈ texts, ¬IsGuard text)
    (rest : List Text) (width shift : Nat) :
    InStep (fun line line' => line = line' ∧ ¬IsGuard line) shift 1
      (Leads texts rest width shift) where
  lineNumber_eq h := h.lineNumber_eq
  peek_cases h hleft := by
    obtain ⟨text, hpeek, hpeek', ⟨more, hsuffix, -⟩, hlooked, hconsumed⟩ := h.peek hleft
    have hmem : text ∈ texts := hsuffix.subset (by simp)
    exact .inr ⟨text, text, hpeek, hpeek', ⟨rfl, hguard text hmem⟩, hlooked, hconsumed⟩
  mode := .inl fun hline => hline.2

end LineSource

namespace Converter

lemma unread_after_le (c : Converter) (n : Nat) : (c.after n).source.unread ≤ c.source.unread := by
  induction n generalizing c with
  | zero => exact Nat.le_refl _
  | succ n ih =>
    rw [after_succ]
    exact (ih c.step.2).trans c.unread_step_le

/-- Steps over lines before which a block does not end are the beginning of the block. -/
lemma converts_steps {inner rest : List Text} {closing indent : Text} {width shift : Nat}
    (hguard : ∀ text ∈ inner ++ [closing], ¬IsGuard text)
    (hinside : ∀ text ∈ inner, (BlockBound.indented indent).endsBefore text = false)
    {n : Nat} {c : Converter} {s' : LineSource}
    (h : LineSource.Leads (inner ++ [closing]) rest width shift c.source s')
    (hleft : 1 ≤ (c.after n).source.unread) :
    ∃ t', LineSource.Leads (inner ++ [closing]) rest width shift (c.after n).source t' ∧
      ∀ {more : List OutputLine} {u : LineSource},
        Converts (.block (.indented indent)) t' more u →
          Converts (.block (.indented indent)) s' ((c.emitted n).map (·.shift shift) ++ more) u := by
  have hRel := LineSource.inStep_leads hguard rest width shift
  induction n generalizing c s' with
  | zero => exact ⟨s', h, fun hmore => hmore⟩
  | succ n ih =>
    rw [after_succ] at hleft ⊢
    have hbehind := hleft.trans (unread_after_le c.step.2 n)
    obtain ⟨hnext, hnone⟩ | ⟨line, s, unit, hnext, hunit, hlines, hsource⟩ :=
      convertNext_cases c.source
    · -- at the end of its source the converter would stay there
      rw [step_of_none hnone] at hbehind
      obtain ⟨text, hpeek, -⟩ := h.peek hbehind
      rw [LineSource.next?_eq, hpeek] at hnext
      cases hnext
    · obtain ⟨-, hstep, hafter⟩ := step_of_some hunit
      rw [hafter] at hbehind
      have htwo : 2 ≤ c.source.unread := Nat.lt_of_le_of_lt hbehind unit.unread_lt
      obtain ⟨text, hpeek, hpeek', ⟨more, hsuffix, hunread⟩, -, hconsumed⟩ :=
        h.peek (Nat.le_of_succ_le htwo)
      rw [LineSource.next?_eq, hpeek, Option.map_some, Option.some.injEq, Prod.mk.injEq] at hnext
      obtain ⟨rfl, rfl⟩ := hnext
      have hmem : text ∈ inner := by
        obtain ⟨before, htexts⟩ := hsuffix
        obtain ⟨init, last, rfl⟩ := (List.eq_nil_or_concat more).resolve_left (by
          rintro rfl
          simp at hunread
          omega)
        rw [List.concat_eq_append, ← List.cons_append, ← List.append_assoc] at htexts
        rw [← (List.append_inj' htexts rfl).1]
        simp
      have hpart : Part.Alike (fun line line' => line = line' ∧ ¬IsGuard line) (.unit text)
          (.unit text) := .unit ⟨rfl, hguard text (List.mem_append_left _ hmem)⟩
      have hunit' := converts_unit text c.source.peek.2.consume
      rw [← hlines, ← hsource] at hunit'
      obtain ⟨lines', t', hconverts, halike, ht'⟩ :=
        hunit'.inStep hRel (blind_of_eq And.left) hpart hconsumed hbehind
      obtain rfl := OutputAlike.eq_map_shift And.left halike
      obtain ⟨u', hu', hmore⟩ := ih (by rwa [hafter]) hleft
      refine ⟨u', hu', ?_⟩
      intro rest' u hrest
      rw [emitted_succ, hstep, List.map_append, List.append_assoc]
      exact .goOn hpeek' (hinside text hmem) rfl hconverts (hmore hrest)

end Converter

/-! ### Lines with less indentation -/

/-- A line with a unit of indentation less, unless it is blank. -/
def shallower (width : Nat) (line : Text) : Text :=
  if trimEnd line = [] then line else line.drop width

/-- The body of a guard, and the brace that closes the guard, with a unit of indentation less. -/
def openedLines (width k : Nat) (body : List Text) : List Text :=
  body.map (shallower width) ++ [List.replicate (k - width) ' ' ++ ['\x7d']]

lemma length_openedLines (width k : Nat) (body : List Text) :
    (openedLines width k body).length = body.length + 1 := by
  rw [openedLines, List.length_append, List.length_map, List.length_singleton]

section Deep

variable {width k : Nat} {line : Text}

lemma replicate_prefix_replicate (hk : width ≤ k) :
    List.replicate width ' ' <+: List.replicate k ' ' := by
  rw [← Nat.add_sub_cancel' hk, ← List.replicate_append_replicate]
  exact List.prefix_append _ _

/-- A line that is deep enough, without a unit of indentation and the white space at its end. -/
lemma trimEnd_shallower (hline : trimEnd line = [] ∨ List.replicate (k + width) ' ' <+: line) :
    trimEnd line = [] ∧ trimEnd (shallower width line) = [] ∨
      ∃ text, trimEnd line = List.replicate width ' ' ++ (List.replicate k ' ' ++ text) ∧
        trimEnd (shallower width line) = List.replicate k ' ' ++ text := by
  by_cases hblank : trimEnd line = []
  · exact .inl ⟨hblank, by rw [shallower, if_pos hblank, hblank]⟩
  · right
    obtain ⟨rest, rfl⟩ := hline.resolve_left hblank
    have hsplit : List.replicate (k + width) ' ' =
        List.replicate width ' ' ++ List.replicate k ' ' := by
      rw [List.replicate_append_replicate, Nat.add_comm]
    have hrest : trimEnd rest ≠ [] := by
      intro hnil
      apply hblank
      rw [trimEnd_append_spaces _ (isSpace_of_trimEnd_eq_nil hnil)]
      apply trimEnd_spaces
      intro a ha
      rw [List.eq_of_mem_replicate ha]
      decide
    refine ⟨trimEnd rest, ?_, ?_⟩
    · rw [trimEnd_append_of_ne_nil hrest, hsplit, List.append_assoc]
    · rw [shallower, if_neg hblank, hsplit, List.append_assoc, List.drop_left' List.length_replicate,
        trimEnd_append_of_ne_nil hrest]

/-- A line that is deep enough loses a unit of indentation when it is fetched. -/
lemma fetchedAs_shallower (hwidth : 1 ≤ width)
    (hline : trimEnd line = [] ∨ List.replicate (k + width) ' ' <+: line) :
    fetchedAs width true line = trimEnd (shallower width line) := by
  obtain ⟨hblank, hnil⟩ | ⟨text, hdeep, htext⟩ := trimEnd_shallower hline
  · rw [fetchedAs, hblank, hnil]
    simp
  · rw [fetchedAs, hdeep, htext, if_pos ⟨rfl, hwidth, List.prefix_append _ _⟩,
      List.drop_left' List.length_replicate]

/-- A line that is deep enough belongs to the body of the guard. -/
lemma endsBefore_shallower (hline : trimEnd line = [] ∨ List.replicate (k + width) ' ' <+: line) :
    (BlockBound.indented (List.replicate k ' ')).endsBefore (trimEnd (shallower width line)) =
      false := by
  rw [Bool.eq_false_iff, ne_eq, BlockBound.endsBefore_indented_iff]
  rintro ⟨hne, hstarts⟩
  obtain ⟨-, hnil⟩ | ⟨text, -, htext⟩ := trimEnd_shallower hline
  · exact hne hnil
  · rw [htext] at hstarts
    exact hstarts (List.prefix_append _ _)

/-- The body of a guard leads a new converter for the same body with less indentation. -/
lemma leads_guard {body : List Text} (hwidth : 1 ≤ width) (hk : width ≤ k)
    (hbody : ∀ line ∈ body, trimEnd line = [] ∨ List.replicate (k + width) ' ' <+: line)
    (rest : List Text) (shift : Nat) :
    LineSource.Leads (body.map (fun line => trimEnd (shallower width line)) ++
        [List.replicate (k - width) ' ' ++ ['\x7d']]) rest width shift
      (.ofLines width (openedLines width k body))
      ⟨body ++ [List.replicate k ' ' ++ ['\x7d']] ++ rest, none, true, width, shift⟩ := by
  have hclosing := fetchedAs_closing hwidth (replicate_prefix_replicate hk)
  rw [List.drop_replicate] at hclosing
  have hfront : (body ++ [List.replicate k ' ' ++ ['\x7d']]).map (fetchedAs width true) =
      (openedLines width k body).map trimEnd := by
    rw [openedLines, List.map_append, List.map_append, List.map_map, List.map_singleton, List.map_singleton,
      hclosing, trimEnd_append_singleton (by decide)]
    congr 1
    apply List.map_congr_left
    intro line hline
    exact fetchedAs_shallower hwidth (hbody line hline)
  have hsuffix : (none : Option Text).toList ++ (openedLines width k body).map trimEnd <:+
      body.map (fun line => trimEnd (shallower width line)) ++
        [List.replicate (k - width) ' ' ++ ['\x7d']] := by
    rw [openedLines, List.map_append, List.map_map, List.map_singleton, trimEnd_append_singleton (by decide)]
    exact List.suffix_rfl
  have hleads : LineSource.Leads _ rest width shift _
      ⟨body ++ [List.replicate k ' ' ++ ['\x7d']] ++ rest, none, true, width, 0 + shift⟩ :=
    .mk hfront hsuffix (Nat.zero_le 0) (by simp [length_openedLines])
  rwa [Nat.zero_add] at hleads

end Deep

namespace Converter

lemma isSpace_of_mem_replicate {n : Nat} : ∀ a ∈ List.replicate n ' ', isSpace a = true := by
  intro a ha
  rw [List.eq_of_mem_replicate ha]
  decide

/-- The body of a guard becomes what the steps of the new converter hand out, and the block ends
before the closing brace. -/
lemma converts_guardBody {width k n : Nat} (hwidth : 1 ≤ width) (hk : width ≤ k)
    {body : List Text}
    (hbody : ∀ line ∈ body, trimEnd line = [] ∨ List.replicate (k + width) ' ' <+: line)
    (hguard : ∀ line ∈ body, ¬IsGuard (trimEnd (shallower width line)))
    (hend : ((ofLines width (openedLines width k body)).after n).source.lineNumber = body.length)
    (rest : List Text) (shift : Nat) :
    Converts (.block (.indented (List.replicate k ' ')))
      ⟨body ++ [List.replicate k ' ' ++ ['\x7d']] ++ rest, none, true, width, shift⟩
      (((ofLines width (openedLines width k body)).emitted n).map (·.shift shift))
      ⟨rest, some (List.replicate (k - width) ' ' ++ ['\x7d']), true, width,
        body.length + 1 + shift⟩ := by
  have hbefore : (BlockBound.indented (List.replicate k ' ')).endsBefore
      (List.replicate (k - width) ' ' ++ ['\x7d']) = true := by
    have hunit : List.replicate width ' ' <+: List.replicate k ' ' := replicate_prefix_replicate hk
    have hclosing :=
      (prefix_closing_iff isSpace_of_mem_replicate width).not.mpr (not_not.mpr ⟨hwidth, hunit⟩)
    rw [fetchedAs_closing hwidth hunit, List.drop_replicate] at hclosing
    exact BlockBound.endsBefore_indented_iff.mpr ⟨by simp, hclosing⟩
  have hguard' : ∀ text ∈ body.map (fun line => trimEnd (shallower width line)) ++
      [List.replicate (k - width) ' ' ++ ['\x7d']], ¬IsGuard text :=
    List.forall_mem_append.mpr ⟨List.forall_mem_map.mpr hguard,
      List.forall_mem_singleton.mpr (not_isGuard_closing isSpace_of_mem_replicate)⟩
  have hinside : ∀ text ∈ body.map (fun line => trimEnd (shallower width line)),
      (BlockBound.indented (List.replicate k ' ')).endsBefore text = false :=
    List.forall_mem_map.mpr fun line hline => endsBefore_shallower (hbody line hline)
  have hunread : ((ofLines width (openedLines width k body)).after n).source.unread = 1 := by
    have htotal := lineNumber_add_unread width (openedLines width k body) n
    rw [hend, length_openedLines] at htotal
    omega
  obtain ⟨t, ht, hblock⟩ := converts_steps hguard' hinside
    (leads_guard hwidth hk hbody rest shift) (Nat.le_of_eq hunread.symm)
  obtain ⟨text, htext, hpeek⟩ := ht.peek_last hunread
  obtain rfl : List.replicate (k - width) ' ' ++ ['\x7d'] = text := by
    simpa using htext
  have hstop : Converts (.block (.indented (List.replicate k ' '))) t [] t.peek.2 :=
    .stopBefore (by rw [hpeek]) hbefore
  rw [hpeek, List.length_append, List.length_map, List.length_singleton] at hstop
  simpa using hblock hstop

/-- The step over a guard, given what its body becomes up to the closing brace. -/
lemma step_of_guardBody {width k consumed : Nat} (hwidth : 1 ≤ width) (hk : width ≤ k)
    {body rest : List Text} {lines : List OutputLine}
    (hbody : Converts (.block (.indented (List.replicate k ' ')))
      ⟨body ++ [List.replicate k ' ' ++ ['\x7d']] ++ rest, none, true, width, consumed + 1⟩ lines
      ⟨rest, some (List.replicate (k - width) ' ' ++ ['\x7d']), true, width,
        body.length + 1 + (consumed + 1)⟩)
    {c : Converter}
    (hc : c.source.Faces width consumed (guardLines (List.replicate k ' ') body ++ rest)) :
    c.step.1 = .ofLines lines ∧ c.step.2.ready = c.ready ∧
      c.step.2.source.Faces width (consumed + body.length + 2 + returnSelfCount rest)
        (rest.drop (returnSelfCount rest)) := by
  have hne : List.replicate k ' ' ≠ [] := by
    rw [ne_eq, List.replicate_eq_nil_iff]
    omega
  obtain ⟨hlines, hsource⟩ := step_of_body isSpace_of_mem_replicate hne hc hbody
  rw [hsource]
  refine ⟨hlines, rfl, ?_⟩
  have hfinal := LineSource.faces_skipGuardEnd
    (closesBlock_closing (isSpace_of_mem_replicate (n := k - width))) width
    (consumed + body.length + 1) rest
  have hcount : body.length + 1 + (consumed + 1) = consumed + body.length + 1 + 1 := by omega
  rw [hcount]
  exact hfinal

/-- The step over a guard in a file that is indented by the width: where a new converter, given the
body with one unit of indentation less and the closing brace behind it, stands behind the body after
some steps, the guard becomes what these steps hand out. Its header, its closing brace and a
`return self;` right behind it are consumed and leave no trace. -/
theorem step_guard {width k n consumed : Nat} (hwidth : 1 ≤ width) (hk : width ≤ k)
    {body rest : List Text}
    (hbody : ∀ line ∈ body, trimEnd line = [] ∨ List.replicate (k + width) ' ' <+: line)
    (hguard : ∀ line ∈ body, ¬IsGuard (trimEnd (shallower width line)))
    (hend : ((ofLines width (openedLines width k body)).after n).source.lineNumber = body.length)
    {c : Converter}
    (hc : c.source.Faces width consumed (guardLines (List.replicate k ' ') body ++ rest)) :
    c.step.1 = .ofLines (((ofLines width (openedLines width k body)).emitted n).map
        (·.shift (consumed + 1))) ∧
      c.step.2.ready = c.ready ∧
      c.step.2.source.Faces width (consumed + body.length + 2 + returnSelfCount rest)
        (rest.drop (returnSelfCount rest)) := by
  have hblock := converts_guardBody hwidth hk hbody hguard hend rest (consumed + 1)
  exact step_of_guardBody hwidth hk hblock hc

/-- The body of a guard with a conditional in it. -/
def nestedBody : List Text :=
  ["        a = 1;".toList, [], "        if (b)".toList, "            c = 2;".toList]

/-- What follows the guard. -/
def nestedRest : List Text := ["    return self;".toList, ['\x7d']]

theorem step_guard_nested :
    ((ofLines 4 (openedLines 4 4 nestedBody)).after 3).source.lineNumber = nestedBody.length ∧
      (ofLines 4 (guardLines (List.replicate 4 ' ') nestedBody ++ nestedRest)).step.1 =
        .ofLines [⟨2, "    a = 1".toList⟩, ⟨3, []⟩, ⟨4, "    if b \x7b".toList⟩,
          ⟨5, "        c = 2".toList⟩, ⟨5, "    \x7d".toList⟩] ∧
      (ofLines 4 (guardLines (List.replicate 4 ' ') nestedBody ++ nestedRest)).step.2.source.Faces 4
        7 [['\x7d']] := by
  have hbody : ∀ line ∈ nestedBody,
      trimEnd line = [] ∨ List.replicate (4 + 4) ' ' <+: line := by decide +kernel
  have hguard : ∀ line ∈ nestedBody, ¬IsGuard (trimEnd (shallower 4 line)) := by decide +kernel
  have hend : ((ofLines 4 (openedLines 4 4 nestedBody)).after 3).source.lineNumber =
      nestedBody.length := by decide +kernel
  obtain ⟨hlines, -, hsource⟩ := step_guard (by decide) (by decide) hbody hguard hend
    (c := ofLines 4 (guardLines (List.replicate 4 ' ') nestedBody ++ nestedRest))
    (.behind _ _)
  have hcount : returnSelfCount nestedRest = 1 := by decide +kernel
  rw [hcount] at hsource
  refine ⟨hend, ?_, hsource⟩
  rw [hlines]
  decide +kernel

end Converter

end Swiftward
