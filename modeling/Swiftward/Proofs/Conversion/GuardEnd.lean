import Swiftward.Proofs.Conversion.Guard

/-!
# Where guards end

The body of a guard goes on as long as its lines, without a unit of indentation, begin with the
indentation of the guard. So it is the width of the unit that decides whether the closing brace is
found: a brace that has no unit to lose, since the width is 0, or since the guard is indented by
tabs or by less than the width, is taken for a line of the body, and a body that is indented by less
than a unit more than the guard ends too early. For guards around simple statements
`Converter.step_guard_iff` says that these are the only ways in which the end is missed.
-/

namespace Swiftward

/-! ### Simple statements -/

/-- A statement without a comment that is done by itself. -/
structure IsSimple (s : Text) : Prop where
  trimmed : Trimmed s
  ne_nil : s ≠ []
  uncommented : cutAtSlashes .code s = none
  notImport : Import.parse? s = none
  done : ∃ text, Statement.ofCode s = .done text

/-- A line with a simple statement, which may be indented. -/
def IsSimpleLine (line : Text) : Prop :=
  ∃ front s, (∀ a ∈ front, isSpace a = true) ∧ IsSimple s ∧ line = front ++ s

section Simple

variable {line s : Text}

/-- A simple statement does not begin with white space. -/
lemma IsSimple.eq_nil_of_append (h : IsSimple s) {gap rest : Text} (hs : s = gap ++ rest)
    (hgap : ∀ a ∈ gap, isSpace a = true) : gap = [] := by
  cases gap with
  | nil => rfl
  | cons a gap =>
    have hspace := h.trimmed.head_not_space a (by rw [hs]; rfl)
    simp [hgap a (by simp)] at hspace

lemma IsSimple.trimEnd_append (h : IsSimple s) (front : Text) : trimEnd (front ++ s) = front ++ s := by
  have htrimmed := h.trimmed.trimEnd
  rw [trimEnd_append_of_ne_nil (by rw [htrimmed]; exact h.ne_nil), htrimmed]

/-- A brace is a simple statement, too. -/
lemma isSimple_brace : IsSimple ['\x7d'] where
  trimmed := .of_forall (List.forall_mem_singleton.mpr (by decide))
  ne_nil := by decide
  uncommented := by decide
  notImport := by decide +kernel
  done := ⟨['\x7d'], by decide +kernel⟩

lemma isSimpleLine_closing {indent : Text} (hindent : ∀ a ∈ indent, isSpace a = true) :
    IsSimpleLine (indent ++ ['\x7d']) :=
  ⟨indent, _, hindent, isSimple_brace, rfl⟩

lemma IsSimpleLine.ne_nil (h : IsSimpleLine line) : line ≠ [] := by
  obtain ⟨front, s, -, hs, rfl⟩ := h
  simp [hs.ne_nil]

/-- What a line loses when it is fetched is white space before its statement. -/
lemma IsSimpleLine.fetched (h : IsSimpleLine line) (width : Nat) :
    IsSimpleLine (fetchedAs width true line) := by
  obtain ⟨front, s, hfront, hs, rfl⟩ := h
  rw [fetchedAs_true, hs.trimEnd_append]
  obtain ⟨lost, hlost, hline⟩ := exists_dedent width (front ++ s)
  obtain ⟨inside, rfl, hsplit⟩ | ⟨kept, rfl, hsplit⟩ := List.append_eq_append_iff.mp hline
  · obtain rfl : inside = [] :=
      hs.eq_nil_of_append hsplit fun a ha => hlost a (List.mem_append_right _ ha)
    exact ⟨[], s, by simp, hs, hsplit.symm⟩
  · exact ⟨kept, s, fun a ha => hfront a (List.mem_append_right _ ha), hs, hsplit⟩

/-- A simple statement that is indented becomes one line. -/
lemma IsSimpleLine.alone (h : IsSimpleLine line) {indent : Text} (hne : indent ≠ [])
    (hindent : ∀ a ∈ indent, isSpace a = true) (hstarts : indent <+: line) (source : LineSource) :
    ∃ text, Alone line source [source.emit text] source := by
  obtain ⟨front, s, hfront, hs, rfl⟩ := h
  have hfront' : front ≠ [] := by
    rintro rfl
    obtain ⟨rest, hrest⟩ := hstarts
    exact hne (hs.eq_nil_of_append hrest.symm hindent)
  obtain ⟨text, htext⟩ := hs.done
  have hconstruct := IsConstruct.of_indent hfront hfront' hs.uncommented hs.notImport
  rw [htext] at hconstruct
  exact ⟨_, .done hconstruct⟩

end Simple

/-! ### The lines of the body -/

section Body

variable {indent : Text} (hindent : ∀ a ∈ indent, isSpace a = true)

include hindent

/-- Lines that belong to a block become one line each. -/
lemma converts_simple (hne : indent ≠ []) {lines more : List Text} {width fetched : Nat}
    (hlines : ∀ line ∈ lines, IsSimpleLine line ∧ indent <+: fetchedAs width true line)
    {out : List OutputLine} {t : LineSource}
    (hmore : Converts (.block (.indented indent))
      ⟨more, none, true, width, fetched + lines.length⟩ out t) :
    ∃ front, front.map (·.source) = List.range' (fetched + 1) lines.length ∧
      Converts (.block (.indented indent)) ⟨lines ++ more, none, true, width, fetched⟩
        (front ++ out) t := by
  induction lines generalizing fetched with
  | nil => exact ⟨[], rfl, hmore⟩
  | cons line lines ih =>
    obtain ⟨⟨hsimple, hstarts⟩, hlines⟩ := List.forall_mem_cons.mp hlines
    rw [List.length_cons, Nat.add_comm lines.length, ← Nat.add_assoc] at hmore
    obtain ⟨front, hfront, hblock⟩ := ih hlines hmore
    obtain ⟨text, halone⟩ := (hsimple.fetched width).alone hne hindent hstarts
      ⟨lines ++ more, none, true, width, fetched + 1⟩
    have hpeek := LineSource.peek_dedenting line (lines ++ more) width fetched
    have hinside : (BlockBound.indented indent).endsBefore (fetchedAs width true line) = false := by
      rw [Bool.eq_false_iff, ne_eq, BlockBound.endsBefore_indented_iff]
      exact fun h => h.2 hstarts
    refine ⟨⟨fetched + 1, text⟩ :: front, ?_, ?_⟩
    · rw [List.map_cons, hfront, List.length_cons, List.range'_succ]
    · have hall : Converts (.block (.indented indent))
          ⟨line :: (lines ++ more), none, true, width, fetched⟩
          ([⟨fetched + 1, text⟩] ++ (front ++ out)) t :=
        .goOn (by rw [hpeek]) hinside rfl (.alone (by rw [hpeek]; exact halone)) hblock
      exact hall

omit hindent in
/-- A line that has lost too much of its indentation ends the block. -/
lemma converts_stop {line : Text} (hsimple : IsSimpleLine line) {width : Nat}
    (hstarts : ¬indent <+: fetchedAs width true line) (more : List Text) (fetched : Nat) :
    Converts (.block (.indented indent)) ⟨line :: more, none, true, width, fetched⟩ []
      ⟨more, some (fetchedAs width true line), true, width, fetched + 1⟩ := by
  have hpeek := LineSource.peek_dedenting line more width fetched
  have hbefore : (BlockBound.indented indent).endsBefore (fetchedAs width true line) = true :=
    BlockBound.endsBefore_indented_iff.mpr ⟨(hsimple.fetched width).ne_nil, hstarts⟩
  have hstop : Converts (.block (.indented indent)) ⟨line :: more, none, true, width, fetched⟩ []
      (LineSource.peek ⟨line :: more, none, true, width, fetched⟩).2 :=
    .stopBefore (by rw [hpeek]) hbefore
  rwa [hpeek] at hstop

end Body

lemma IsSimpleLine.fetchedAs_eq {line : Text} {width : Nat} (h : IsSimpleLine line)
    (hwidth : 0 < width) (hunit : List.replicate width ' ' <+: line) :
    fetchedAs width true line = line.drop width := by
  obtain ⟨front, s, -, hs, rfl⟩ := h
  rw [fetchedAs, hs.trimEnd_append, if_pos ⟨rfl, hwidth, hunit⟩]

/-! ### The step over a guard -/

namespace Converter

section Guard

variable {width consumed : Nat} {indent : Text} (hindent : ∀ a ∈ indent, isSpace a = true)
  (hne : indent ≠ []) {body rest : List Text} (hsimple : ∀ line ∈ body, IsSimpleLine line)
  {c : Converter} (hc : c.source.Faces width consumed (guardLines indent body ++ rest))

include hindent hne hsimple hc

/-- Where a line of the body has lost too much, the body ends before it. -/
lemma length_step_lt (hlost : ¬∀ line ∈ body, indent <+: fetchedAs width true line) :
    c.step.1.lines.length < body.length := by
  have hfind : (body.find? fun line => ¬indent <+: fetchedAs width true line).isSome = true := by
    rw [List.find?_isSome]
    simpa using hlost
  obtain ⟨line, hline⟩ := Option.isSome_iff_exists.mp hfind
  obtain ⟨hstarts, early, later, rfl, hearly⟩ := List.find?_eq_some_iff_append.mp hline
  have hlines : ∀ line ∈ early, IsSimpleLine line ∧ indent <+: fetchedAs width true line :=
    fun line hline => ⟨hsimple line (by simp [hline]), by simpa using hearly line hline⟩
  have hstop := converts_stop (hsimple line (by simp)) (by simpa using hstarts)
    (later ++ ([indent ++ ['\x7d']] ++ rest)) (consumed + 1 + early.length)
  obtain ⟨front, hfront, hblock⟩ := converts_simple hindent hne hlines hstop
  have hfaces : c.source.Faces width consumed ((indent ++ "if (self) \x7b".toList) ::
      (early ++ line :: (later ++ ([indent ++ ['\x7d']] ++ rest)))) := by
    simpa [guardLines] using hc
  obtain ⟨hstep, -⟩ := step_of_body hindent hne hfaces hblock
  rw [hstep, Step.lines_ofLines, List.append_nil, ← List.length_map, hfront, List.length_range',
    List.length_append, List.length_cons]
  omega

/-- Where the closing brace has lost nothing, it becomes a line, too. -/
lemma lt_length_step (hinside : ∀ line ∈ body, indent <+: fetchedAs width true line)
    (hclosing : indent <+: fetchedAs width true (indent ++ ['\x7d'])) :
    body.length < c.step.1.lines.length := by
  have hlines : ∀ line ∈ body ++ [indent ++ ['\x7d']],
      IsSimpleLine line ∧ indent <+: fetchedAs width true line :=
    List.forall_mem_append.mpr ⟨fun line hline => ⟨hsimple line hline, hinside line hline⟩,
      List.forall_mem_singleton.mpr ⟨isSimpleLine_closing hindent, hclosing⟩⟩
  obtain ⟨front, hfront, hblock⟩ := converts_simple hindent hne hlines
    (converts_block (.indented indent)
      ⟨rest, none, true, width, consumed + 1 + (body ++ [indent ++ ['\x7d']]).length⟩)
  obtain ⟨hstep, -⟩ := step_of_body hindent hne hc hblock
  have hlength := congrArg List.length hfront
  rw [List.length_map, List.length_range', List.length_append, List.length_singleton] at hlength
  rw [hstep, Step.lines_ofLines, List.length_append, hlength]
  omega

/-- Where the closing brace has lost a unit and the lines of the body have kept enough, the guard
goes as a whole. -/
lemma step_guard_of_simple (hinside : ∀ line ∈ body, indent <+: fetchedAs width true line)
    (hwidth : 0 < width) (hunit : List.replicate width ' ' <+: indent) :
    c.step.1.lines.map (·.source) = List.range' (consumed + 2) body.length ∧
      c.step.2.source.Faces width (consumed + body.length + 2 + returnSelfCount rest)
        (rest.drop (returnSelfCount rest)) := by
  have hclosing : ¬indent <+: fetchedAs width true (indent ++ ['\x7d']) :=
    (prefix_closing_iff hindent width).not.mpr (not_not.mpr ⟨hwidth, hunit⟩)
  obtain ⟨front, hfront, hblock⟩ := converts_simple hindent hne
    (fun line hline => ⟨hsimple line hline, hinside line hline⟩)
    (converts_stop (isSimpleLine_closing hindent) hclosing rest _)
  have hfaces : c.source.Faces width consumed ((indent ++ "if (self) \x7b".toList) ::
      (body ++ (indent ++ ['\x7d']) :: rest)) := by
    simpa [guardLines] using hc
  obtain ⟨hstep, hsource⟩ := step_of_body hindent hne hfaces hblock
  have houter : ∀ a ∈ indent.drop width, isSpace a = true := fun a ha =>
    hindent a (List.mem_of_mem_drop ha)
  have hend := LineSource.faces_skipGuardEnd (closesBlock_closing houter) width
    (consumed + 1 + body.length) rest
  have hcount : consumed + 1 + body.length + 1 = consumed + body.length + 2 := by omega
  rw [hcount] at hend
  rw [hstep, hsource, Step.lines_ofLines, List.append_nil, fetchedAs_closing hwidth hunit, hcount]
  exact ⟨hfront, hend⟩

end Guard

/-- The step over a guard around simple statements hands out one line for each of them and consumes
the guard as a whole, with a `return self;` right behind it and nothing else, exactly if there is a
unit of indentation, the guard is indented by at least one, and the lines of the body, without one,
are still indented as deep as the guard. -/
theorem step_guard_iff {width consumed : Nat} {indent : Text}
    (hindent : ∀ a ∈ indent, isSpace a = true) (hne : indent ≠ []) {body rest : List Text}
    (hbody : ∀ line ∈ body, ∃ deeper s, (∀ a ∈ deeper, isSpace a = true) ∧ IsSimple s ∧
      line = indent ++ deeper ++ s)
    {c : Converter} (hc : c.source.Faces width consumed (guardLines indent body ++ rest)) :
    (c.step.1.lines.map (·.source) = List.range' (consumed + 2) body.length ∧
      c.step.2.source.Faces width (consumed + body.length + 2 + returnSelfCount rest)
        (rest.drop (returnSelfCount rest))) ↔
      0 < width ∧ List.replicate width ' ' <+: indent ∧
        ∀ line ∈ body, indent <+: line.drop width := by
  have hsimple : ∀ line ∈ body, IsSimpleLine line := by
    intro line hline
    obtain ⟨deeper, s, hdeeper, hs, rfl⟩ := hbody line hline
    exact ⟨indent ++ deeper, s, List.forall_mem_append.mpr ⟨hindent, hdeeper⟩, hs, rfl⟩
  have hdrop : 0 < width → List.replicate width ' ' <+: indent → ∀ line ∈ body,
      fetchedAs width true line = line.drop width := by
    intro hwidth hunit line hline
    apply (hsimple line hline).fetchedAs_eq hwidth
    obtain ⟨deeper, s, -, -, rfl⟩ := hbody line hline
    rw [List.append_assoc]
    exact hunit.trans (List.prefix_append _ _)
  constructor
  · rintro ⟨hsources, -⟩
    have hlength := congrArg List.length hsources
    rw [List.length_map, List.length_range'] at hlength
    have hinside : ∀ line ∈ body, indent <+: fetchedAs width true line := by
      by_contra hlost
      exact (length_step_lt hindent hne hsimple hc hlost).ne hlength
    have hclosing : ¬indent <+: fetchedAs width true (indent ++ ['\x7d']) := by
      intro hclosing
      exact (lt_length_step hindent hne hsimple hc hinside hclosing).ne' hlength
    rw [prefix_closing_iff hindent, not_not] at hclosing
    obtain ⟨hwidth, hunit⟩ := hclosing
    refine ⟨hwidth, hunit, ?_⟩
    intro line hline
    rw [← hdrop hwidth hunit line hline]
    exact hinside line hline
  · rintro ⟨hwidth, hunit, hkept⟩
    apply step_guard_of_simple hindent hne hsimple hc _ hwidth hunit
    intro line hline
    rw [hdrop hwidth hunit line hline]
    exact hkept line hline

/-- The body of a guard in a file that is indented by tabs. -/
def tabbedBody : List Text := ["\t\tx = 1;".toList]

theorem step_guard_iff_tabbed :
    ¬((ofLines 4 (guardLines ['\t'] tabbedBody ++ [])).step.1.lines.map (·.source) =
          List.range' (0 + 2) tabbedBody.length ∧
        (ofLines 4 (guardLines ['\t'] tabbedBody ++ [])).step.2.source.Faces 4
          (0 + tabbedBody.length + 2 + returnSelfCount []) (List.drop (returnSelfCount []) [])) := by
  have htrimmed : Trimmed "x = 1;".toList := by
    constructor
    · rintro a ⟨⟩
      decide
    · rintro a ⟨⟩
      decide
  have hsimple : IsSimple "x = 1;".toList :=
    ⟨htrimmed, by decide, by decide, by decide +kernel,
      "x = 1".toList, by decide +kernel⟩
  have htab : ∀ a ∈ ['\t'], isSpace a = true := List.forall_mem_singleton.mpr (by decide)
  have hbody : ∀ line ∈ tabbedBody, ∃ deeper s, (∀ a ∈ deeper, isSpace a = true) ∧ IsSimple s ∧
      line = ['\t'] ++ deeper ++ s :=
    List.forall_mem_singleton.mpr ⟨['\t'], _, htab, hsimple, rfl⟩
  rw [step_guard_iff htab (by decide) hbody (.behind 0 _)]
  decide

/-- A closing brace that is indented by a tab stays, though the guard goes. -/
example :
    (ofLines 4 ["\tif (self) \x7b".toList, "\t\tx = 1;".toList, "\t\x7d".toList]).step.1 =
      .emitted [⟨2, "\t\tx = 1".toList⟩, ⟨3, "\t\x7d".toList⟩] := by
  decide +kernel

end Converter

end Swiftward
