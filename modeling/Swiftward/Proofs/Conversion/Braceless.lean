import Swiftward.Proofs.Conversion.Account
import Swiftward.Proofs.Conversion.Conditional

/-!
# Headers one inside the other

Where the body of a header follows and begins with such a header again, the block of the first ends
behind the unit of the second. So a chain of headers around one statement, which may go on over
several lines, is converted in a single step, and every header gets its closing brace, the innermost
first (`Converter.step_chain`).
-/

namespace Swiftward

/-! ### The lines ahead -/

namespace LineSource

variable {s : LineSource} {text : Text} {texts : List Text}

lemma skipIf_of_texts {p : Text → Bool} (h : s.texts = text :: texts) (hp : p text = false) :
    s.skipIf p = (false, s.peek.2) := by
  obtain ⟨text', hpeek, hpasses, -⟩ | ⟨-, heq⟩ := skipIf_cases p s
  · obtain rfl : text = text' := Option.some.inj ((peek_of_texts h).1.symm.trans hpeek)
    simp [hp] at hpasses
  · exact heq

end LineSource

/-! ### Lines of a body -/

/-- The line is converted to the given texts, whatever is before or behind it, and no other line is
looked at. -/
def ConvertsAlone (line : Text) (made : List Text) : Prop :=
  ∀ s : LineSource, (convertUnit line s).lines = made.map s.emit ∧ (convertUnit line s).source = s

variable {line : Text} {made : List Text} {s : LineSource} {more : List Text}

lemma ConvertsAlone.converts (h : ConvertsAlone line made) (s : LineSource) :
    Converts (.unit line) s (made.map s.emit) s := by
  obtain ⟨hlines, hsource⟩ := h s
  have hunit := converts_unit line s
  rwa [hlines, hsource] at hunit

/-- A header whose body follows takes a brace on the next line along. -/
lemma ConvertsAlone.opens_eq_false (h : ConvertsAlone line made) :
    opensUnbracedConditional line = false := by
  by_contra hopens
  obtain ⟨c, hbody, hconstruct⟩ := exists_isConstruct_of_opens (Bool.of_not_eq_false hopens)
  have hself : c.isSelfGuard = false := by simp [Conditional.isSelfGuard, hbody]
  have hbraced : Alone line (.ofLines 4 [['\x7b']]) _ _ :=
    .braced hconstruct hself hbody (by decide)
  have hsource := hbraced.unit_eq.2.symm.trans (h _).2
  exact absurd hsource (by decide)

/-- The lines of a body up to the one that ends it, each with what it is converted to. -/
structure IsStatement (front : List (Text × List Text)) (last : Text × List Text) : Prop where
  alone : ∀ line ∈ front ++ [last], ConvertsAlone line.1 line.2
  goesOn : ∀ line ∈ front, endsStatement line.1 = false
  ends : endsStatement last.1 = true

lemma IsStatement.tail {first last : Text × List Text} {front : List (Text × List Text)}
    (h : IsStatement (first :: front) last) : IsStatement front last where
  alone line hline := h.alone line (List.mem_cons_of_mem first hline)
  goesOn line hline := h.goesOn line (List.mem_cons_of_mem first hline)
  ends := h.ends

/-- A block ends behind the line that ends its statement. -/
lemma IsStatement.converts {front : List (Text × List Text)} {last : Text × List Text}
    (h : IsStatement front last) (htexts : s.texts = (front ++ [last]).map (·.1) ++ more) :
    ∃ lines t, Converts (.block .statement) s lines t ∧
      textsOf lines = (front ++ [last]).flatMap (·.2) ∧ t.texts = more := by
  induction front generalizing s with
  | nil =>
    obtain ⟨hpeek, hrest⟩ := LineSource.peek_of_texts htexts
    have hunit := (h.alone last (List.mem_cons_self ..)).converts s.peek.2.consume
    have hends : BlockBound.statement.endsBehind last.1 = true := by
      rw [BlockBound.endsBehind, h.ends, Bool.true_or]
    refine ⟨_, _, .stopBehind hpeek rfl hends hunit, ?_, hrest⟩
    rw [textsOf_map_emit]
    exact (List.append_nil _).symm
  | cons first front ih =>
    obtain ⟨hpeek, hrest⟩ := LineSource.peek_of_texts htexts
    have halone := h.alone first (List.mem_cons_self ..)
    have hunit := halone.converts s.peek.2.consume
    have hgoesOn : BlockBound.statement.endsBehind first.1 = false := by
      rw [BlockBound.endsBehind, h.goesOn first (List.mem_cons_self ..), halone.opens_eq_false,
        Bool.or_false]
    obtain ⟨lines, t, hblock, htextsOf, ht⟩ := ih h.tail hrest
    refine ⟨_, t, .goOn hpeek rfl hgoesOn hunit hblock, ?_, ht⟩
    rw [textsOf_append, textsOf_map_emit, htextsOf]
    rfl

/-! ### Chains of headers -/

/-- The line of Swift for a header, with its comment. -/
def openingLine (header : Text × Conditional) : Text :=
  header.2.render ++ (splitComment header.1).2

/-- The line that closes the body of a header. -/
def closingLine (header : Text × Conditional) : Text := header.2.indent ++ ['\x7d']

/-- A header around a block that does not begin with a brace. -/
lemma IsOpenHeader.converts {header : Text × Conditional} (h : IsOpenHeader header.1 header.2)
    {next : Text} (htexts : s.texts = next :: more) (hbrace : isLoneBrace next = false)
    {lines : List OutputLine} {t : LineSource}
    (hblock : Converts (.block .statement) s.peek.2 lines t) :
    ∃ lines', Converts (.unit header.1) s lines' t ∧
      textsOf lines' = openingLine header :: textsOf lines ++ [closingLine header] := by
  have hskip := LineSource.skipIf_of_texts htexts hbrace
  have hnone : (s.skipIf isLoneBrace).1 = false := by rw [hskip]
  have hbody : Converts (.block .statement) (s.skipIf isLoneBrace).2 lines t := by rwa [hskip]
  refine ⟨_, .braceless h.isConstruct h.not_isSelfGuard h.body_eq hnone hbody, ?_⟩
  rw [textsOf_append]
  rfl

/-- A chain of headers around a statement is one unit. -/
lemma converts_chain {front : List (Text × List Text)} {last : Text × List Text}
    (hbody : IsStatement front last) {first : Text}
    (hfirst : ((front ++ [last]).map (·.1)).head? = some first) (hbrace : isLoneBrace first = false)
    (headers : List (Text × Conditional)) {header : Text × Conditional}
    (hheader : IsOpenHeader header.1 header.2) (hheaders : ∀ h ∈ headers, IsOpenHeader h.1 h.2)
    (htexts : s.texts = headers.map (·.1) ++ (front ++ [last]).map (·.1) ++ more) :
    ∃ lines t, Converts (.unit header.1) s lines t ∧
      textsOf lines = (header :: headers).map openingLine ++ (front ++ [last]).flatMap (·.2) ++
        ((header :: headers).map closingLine).reverse ∧ t.texts = more := by
  induction headers generalizing header s with
  | nil =>
    obtain ⟨rest, hrest⟩ := List.head?_eq_some_iff.mp hfirst
    rw [List.map_nil, List.nil_append] at htexts
    have hnext : s.texts = first :: (rest ++ more) := by rw [htexts, hrest, List.cons_append]
    obtain ⟨lines, t, hblock, hlines, ht⟩ := hbody.converts ((LineSource.texts_peek s).trans htexts)
    obtain ⟨lines', hunit, hlines'⟩ := hheader.converts hnext hbrace hblock
    refine ⟨lines', t, hunit, ?_, ht⟩
    rw [hlines', hlines]
    rfl
  | cons inner headers ih =>
    obtain ⟨hinner, hheaders⟩ := List.forall_mem_cons.mp hheaders
    have hnext : s.texts = inner.1 :: (headers.map (·.1) ++ (front ++ [last]).map (·.1) ++ more) :=
      htexts
    obtain ⟨hpeek, hrest⟩ := LineSource.peek_of_texts ((LineSource.texts_peek s).trans hnext)
    obtain ⟨lines, t, hunit, hlines, ht⟩ := ih hinner hheaders hrest
    have hends : BlockBound.statement.endsBehind inner.1 = true := by
      rw [BlockBound.endsBehind, hinner.opensUnbracedConditional, Bool.or_true]
    obtain ⟨lines', hunit', hlines'⟩ :=
      hheader.converts hnext hinner.not_isLoneBrace (.stopBehind hpeek rfl hends hunit)
    refine ⟨lines', t, hunit', ?_, ht⟩
    rw [hlines', hlines]
    simp

lemma Step.eq_emitted {step : Step} (h : step.lines ≠ []) : step = .emitted step.lines := by
  cases step with
  | emitted lines => rfl
  | nothing => exact absurd rfl h
  | exhausted => exact absurd rfl h

/-- One step over a chain of headers around a statement hands out the headers, the lines of the
statement, and a closing brace for each header, the innermost first. It consumes these lines and no
others. -/
theorem Converter.step_chain {c : Converter} {headers : List (Text × Conditional)}
    (hne : headers ≠ []) (hheaders : ∀ header ∈ headers, IsOpenHeader header.1 header.2)
    {front : List (Text × List Text)} {last : Text × List Text} (hbody : IsStatement front last)
    (hbrace : ∀ first ∈ ((front ++ [last]).map (·.1)).head?, isLoneBrace first = false)
    {more : List Text}
    (htexts : c.source.texts = headers.map (·.1) ++ (front ++ [last]).map (·.1) ++ more) :
    ∃ lines, c.step.1 = .emitted lines ∧
      textsOf lines = headers.map openingLine ++ (front ++ [last]).flatMap (·.2) ++
        (headers.map closingLine).reverse ∧
      c.step.2.source.texts = more ∧ c.step.2.ready = c.ready := by
  obtain ⟨header, headers, rfl⟩ := List.exists_cons_of_ne_nil hne
  obtain ⟨hheader, hheaders⟩ := List.forall_mem_cons.mp hheaders
  obtain ⟨first, hfirst⟩ : ∃ first, ((front ++ [last]).map (·.1)).head? = some first := by
    cases front <;> exact ⟨_, rfl⟩
  have hnext : c.source.texts =
      header.1 :: (headers.map (·.1) ++ (front ++ [last]).map (·.1) ++ more) := htexts
  obtain ⟨hpeek, hrest⟩ := LineSource.peek_of_texts hnext
  obtain ⟨lines, t, hunit, hlines, ht⟩ :=
    converts_chain hbody hfirst (hbrace first hfirst) headers hheader hheaders hrest
  have hnext : c.source.next? = some (header.1, c.source.peek.2.consume) := by
    rw [LineSource.next?_eq, hpeek, Option.map_some]
  obtain ⟨hstep, hafter⟩ := step_of_converts hnext hunit
  refine ⟨lines, ?_, hlines, ?_, ?_⟩
  · have hsome : c.step.1.lines ≠ [] := by
      rintro hnil
      rw [← hstep, hnil] at hlines
      cases hlines
    rw [Step.eq_emitted hsome, hstep]
  · rw [hafter]
    exact ht
  · rw [hafter]

/-- Two headers around a call on two lines, and a call behind them. -/
def nestedHeaders : List Text :=
  ["if (a)".toList, "  else if (b) // c".toList, "    foo(x,".toList, "      y);".toList,
    "bar();".toList]

/-- Both headers are closed, and the call behind them is left. -/
theorem Converter.step_chain_nested :
    ∃ lines, (ofLines 4 nestedHeaders).step.1 = .emitted lines ∧
      textsOf lines = ["if a \x7b".toList, "  else if b \x7b // c".toList, "    foo(x,".toList,
        "      y)".toList, "  \x7d".toList, "\x7d".toList] ∧
      (ofLines 4 nestedHeaders).step.2.source.texts = ["bar();".toList] ∧
      (ofLines 4 nestedHeaders).step.2.ready = [] := by
  have hheaders : ∀ header ∈ [("if (a)".toList, ⟨[], "if".toList, some ['a'], .follows⟩),
      ("  else if (b) // c".toList, ⟨"  ".toList, "else if".toList, some ['b'], .follows⟩)],
      IsOpenHeader header.1 header.2 :=
    List.forall_mem_cons.mpr ⟨⟨by decide, by decide, rfl⟩,
      List.forall_mem_singleton.mpr ⟨by decide, by decide, rfl⟩⟩
  have hcall : IsConstruct "    foo(x,".toList (.statement (.done "    foo(x,".toList)) [] :=
    ⟨by decide, by decide, by decide⟩
  have hend : IsConstruct "      y);".toList (.statement (.done "      y)".toList)) [] :=
    ⟨by decide, by decide, by decide⟩
  have hbody : IsStatement [("    foo(x,".toList, ["    foo(x,".toList])]
      ("      y);".toList, ["      y)".toList]) :=
    { alone := List.forall_mem_cons.mpr ⟨fun s => (Alone.done hcall).unit_eq,
        List.forall_mem_singleton.mpr fun s => (Alone.done hend).unit_eq⟩
      goesOn := List.forall_mem_singleton.mpr (by decide)
      ends := by decide }
  have htexts : (LineSource.ofLines 4 nestedHeaders).texts = nestedHeaders.map trimEnd :=
    LineSource.texts_ofLines 4 nestedHeaders
  exact Converter.step_chain (by simp) hheaders hbody (by decide) (htexts.trans (by decide))

end Swiftward
