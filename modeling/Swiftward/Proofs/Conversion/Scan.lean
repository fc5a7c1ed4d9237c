import Swiftward.Proofs.Conversion.Consumption

/-!
# The scan for the end of a body

Where the body of a header follows on later lines, a scan looks for its end, and all it knows of a
line is whether it ends a statement and whether it is such a header itself. The lines of the body
come out in their order, and all closing braces that are due are made at once, behind the next line
that ends a statement (`flush`).
-/

namespace Swiftward

/-! ### Sources that read lines as they are -/

/-- The source has the lines `rest` before it, `consumed` lines behind it, and de-indents none of
them. -/
inductive LineSource.Faces (width : Nat) : LineSource → Nat → List Text → Prop where
  | behind (consumed : Nat) (rest : List Text) :
      Faces width ⟨rest, none, false, width, consumed⟩ consumed rest
  | ahead (consumed : Nat) (line : Text) (rest : List Text) :
      Faces width ⟨rest, some (trimEnd line), false, width, consumed + 1⟩ consumed (line :: rest)

namespace LineSource.Faces

variable {width consumed : Nat} {line : Text} {rest : List Text} {s : LineSource}

lemma stands (h : s.Faces width consumed rest) : s.Stands width consumed rest := by
  cases h with
  | behind => exact .behind _ _ _
  | ahead => exact .ahead _ _ _ (.inl rfl)

lemma peek (h : s.Faces width consumed (line :: rest)) :
    s.peek.1 = some (trimEnd line) ∧ s.peek.2.Faces width consumed (line :: rest) ∧
      s.peek.2.consume.Faces width (consumed + 1) rest := by
  cases h with
  | behind => exact ⟨rfl, .ahead _ _ _, .behind _ _⟩
  | ahead => exact ⟨rfl, .ahead _ _ _, .behind _ _⟩

lemma next? (h : s.Faces width consumed (line :: rest)) :
    ∃ s', s.next? = some (trimEnd line, s') ∧ s'.Faces width (consumed + 1) rest := by
  cases h with
  | behind => exact ⟨_, rfl, .behind _ _⟩
  | ahead => exact ⟨_, rfl, .behind _ _⟩

/-- A line that fails the test stays. -/
lemma skipIf {p : Text → Bool} (h : s.Faces width consumed (line :: rest))
    (hp : p (trimEnd line) = false) :
    (s.skipIf p).1 = false ∧ (s.skipIf p).2.Faces width consumed (line :: rest) := by
  obtain ⟨hpeek, hs, -⟩ := h.peek
  obtain ⟨text, htext, hpass, -⟩ | ⟨-, heq⟩ := skipIf_cases p s
  · rw [hpeek, Option.some.injEq] at htext
    rw [← htext, hp] at hpass
    exact absurd hpass (by decide)
  · rw [heq]
    exact ⟨rfl, hs⟩

/-- A line that passes the test is consumed. -/
lemma skipIf_of_passes {p : Text → Bool} (h : s.Faces width consumed (line :: rest))
    (hp : p (trimEnd line) = true) :
    (s.skipIf p).1 = true ∧ (s.skipIf p).2.Faces width (consumed + 1) rest := by
  obtain ⟨hpeek, -, hs⟩ := h.peek
  obtain ⟨text, -, -, heq⟩ | ⟨hfails, -⟩ := skipIf_cases p s
  · rw [heq]
    exact ⟨rfl, hs⟩
  · rw [hfails _ hpeek] at hp
    exact absurd hp Bool.false_ne_true

/-- At the end of the lines there is nothing to consume. -/
lemma skipIf_of_nil (h : s.Faces width consumed []) (p : Text → Bool) :
    (s.skipIf p).1 = false ∧ (s.skipIf p).2.Faces width consumed [] := by
  cases h with
  | behind => exact ⟨rfl, .behind _ _⟩

end LineSource.Faces

/-! ### Lines as the scan sees them -/

/-- What a line is to the scan. -/
inductive LineKind where
  /-- The line ends a statement. -/
  | statement
  /-- The body of the line follows, and is closed by the given line. -/
  | header (closing : Text)
  /-- Neither. -/
  | neutral
  deriving DecidableEq

/-- A line of the given kind becomes the given line of Swift. -/
inductive ReadsAs (line : Text) : LineKind → Text → Prop where
  | statement {swift : Text} (h : ∀ s, Alone line s [s.emit swift] s)
      (hend : BlockBound.statement.endsBehind line = true) : ReadsAs line .statement swift
  | header {c : Conditional} {comment : Text}
      (h : IsConstruct line (.statement (.conditional c)) comment) (hguard : c.isSelfGuard = false)
      (hfollows : c.body = .follows) (hend : BlockBound.statement.endsBehind line = true) :
      ReadsAs line (.header (c.indent ++ ['\x7d'])) (c.render ++ comment)
  | neutral {swift : Text} (h : ∀ s, Alone line s [s.emit swift] s)
      (hend : BlockBound.statement.endsBehind line = false) : ReadsAs line .neutral swift

namespace ReadsAs

variable {line swift : Text} {kind : LineKind}

lemma alone (h : ReadsAs line kind swift) (hkind : ∀ closing, kind ≠ .header closing)
    (s : LineSource) : Alone line s [s.emit swift] s := by
  cases h with
  | statement hunit => exact hunit s
  | neutral hunit => exact hunit s
  | header => exact absurd rfl (hkind _)

lemma endsBehind_iff (h : ReadsAs line kind swift) :
    BlockBound.statement.endsBehind line = true ↔ kind ≠ .neutral := by
  cases h with
  | statement hunit hend => simp [hend]
  | neutral hunit hend => simp [hend]
  | header hconstruct hguard hfollows hend => simp [hend]

lemma conditional {closing : Text} (h : ReadsAs line (.header closing) swift) :
    ∃ c comment, IsConstruct line (.statement (.conditional c)) comment ∧ c.isSelfGuard = false ∧
      c.body = .follows ∧ closing = c.indent ++ ['\x7d'] ∧ swift = c.render ++ comment := by
  cases h with
  | header hconstruct hguard hfollows => exact ⟨_, _, hconstruct, hguard, hfollows, rfl, rfl⟩

lemma not_isGuard (h : ReadsAs line kind swift) : ¬IsGuard line := by
  cases h with
  | statement hunit | neutral hunit => exact (hunit (.ofLines 0 [])).not_isGuard
  | header hconstruct hguard => exact hconstruct.not_isGuard hguard

end ReadsAs

/-- A line of code that becomes one line of Swift. -/
structure Item where
  line : Text
  kind : LineKind
  swift : Text
  reads : ReadsAs (trimEnd line) kind swift
  ne_brace : isLoneBrace (trimEnd line) = false

namespace Item

/-- What becomes of the lines up to and including the first that ends a statement, each header
among them closed at the end, and the lines behind it. -/
def scan? : List Item → Option (List Text × List Item)
  | [] => none
  | item :: items =>
    match item.kind with
    | .statement => some ([item.swift], items)
    | .neutral => (scan? items).map fun (out, rest) => (item.swift :: out, rest)
    | .header closing => (scan? items).map fun (out, rest) => (item.swift :: out ++ [closing], rest)

/-- The lines of Swift for a list of lines, when the lines `pending` are due behind the next line
that ends a statement. -/
def flush (pending : List Text) : List Item → List Text
  | [] => pending
  | item :: items =>
    match item.kind with
    | .statement => item.swift :: pending ++ flush [] items
    | .neutral => item.swift :: flush pending items
    | .header closing => item.swift :: flush (closing :: pending) items

/-- The lines of the source. -/
def sources (items : List Item) : List Text := items.map (·.line)

/-- A line that ends a statement follows every header. -/
inductive Settled : List Item → Prop where
  | nil : Settled []
  | single {item : Item} {items : List Item} (hkind : ∀ closing, item.kind ≠ .header closing)
      (h : Settled items) : Settled (item :: items)
  | header {item : Item} {items rest : List Item} {closing : Text} {out : List Text}
      (hkind : item.kind = .header closing) (hscan : scan? items = some (out, rest))
      (h : Settled rest) : Settled (item :: items)

lemma flush_of_scan {items rest : List Item} {out : List Text} (h : scan? items = some (out, rest))
    (pending : List Text) : flush pending items = out ++ pending ++ flush [] rest := by
  induction items generalizing out rest pending with
  | nil => simp [scan?] at h
  | cons item items ih =>
    rw [scan?] at h
    rw [flush]
    cases hkind : item.kind with
    | statement =>
      simp only [hkind, Option.some.injEq, Prod.mk.injEq] at h ⊢
      obtain ⟨rfl, rfl⟩ := h
      rfl
    | neutral =>
      simp only [hkind, Option.map_eq_some_iff, Prod.mk.injEq, Prod.exists] at h ⊢
      obtain ⟨out, rest, hscan, rfl, rfl⟩ := h
      rw [ih hscan]
      simp
    | header closing =>
      simp only [hkind, Option.map_eq_some_iff, Prod.mk.injEq, Prod.exists] at h ⊢
      obtain ⟨out, rest, hscan, rfl, rfl⟩ := h
      rw [ih hscan]
      simp

lemma scan?_of_statement {item : Item} {items : List Item} (h : item.kind = .statement) :
    scan? (item :: items) = some ([item.swift], items) := by
  rw [scan?, h]

lemma scan?_of_neutral {item : Item} {items rest : List Item} {out : List Text}
    (h : item.kind = .neutral) (hscan : scan? items = some (out, rest)) :
    scan? (item :: items) = some (item.swift :: out, rest) := by
  simp [scan?, h, hscan]

lemma scan?_of_header {item : Item} {items rest : List Item} {closing : Text} {out : List Text}
    (h : item.kind = .header closing) (hscan : scan? items = some (out, rest)) :
    scan? (item :: items) = some (item.swift :: out ++ [closing], rest) := by
  simp [scan?, h, hscan]

end Item

/-! ### Scans over sources -/

section Scan

open Item

variable {width consumed : Nat} {items rest : List Item} {more : List Text} {out : List Text}
  {s : LineSource}

/-- The body of a header follows, so its first line is no brace. -/
lemma LineSource.Faces.skipIf_brace (hscan : scan? items = some (out, rest))
    (hs : s.Faces width consumed (sources items ++ more)) :
    (s.skipIf isLoneBrace).1 = false ∧
      (s.skipIf isLoneBrace).2.Faces width consumed (sources items ++ more) := by
  cases items with
  | nil => simp [scan?] at hscan
  | cons item items => exact hs.skipIf item.ne_brace

/-- The unit of a header, given what becomes of its body. -/
lemma converts_header {item : Item} {closing : Text} (hkind : item.kind = .header closing)
    (hscan : scan? items = some (out, rest))
    (hs : s.Faces width consumed (sources items ++ more))
    (ih : ∀ s, LineSource.Faces width s consumed (sources items ++ more) →
      ∃ lines t consumed', Converts (.block .statement) s lines t ∧ lines.map (·.text) = out ∧
        t.Faces width consumed' (sources rest ++ more)) :
    ∃ lines t consumed', Converts (.unit (trimEnd item.line)) s lines t ∧
      lines.map (·.text) = item.swift :: out ++ [closing] ∧
        t.Faces width consumed' (sources rest ++ more) := by
  obtain ⟨hbrace, hbehind⟩ := hs.skipIf_brace hscan
  obtain ⟨lines, t, consumed', hbody, hlines, ht⟩ := ih _ hbehind
  obtain ⟨c, comment, hconstruct, hguard, hfollows, rfl, hswift⟩ := (hkind ▸ item.reads).conditional
  refine ⟨_, t, consumed', .braceless hconstruct hguard hfollows hbrace hbody, ?_, ht⟩
  simp [LineSource.emit, hlines, hswift]

/-- A block up to the end of a statement is what the scan says. -/
theorem converts_of_scan (hscan : scan? items = some (out, rest))
    (hs : s.Faces width consumed (sources items ++ more)) :
    ∃ lines t consumed', Converts (.block .statement) s lines t ∧ lines.map (·.text) = out ∧
      t.Faces width consumed' (sources rest ++ more) := by
  induction items generalizing s consumed out rest with
  | nil => simp [scan?] at hscan
  | cons item items ih =>
    obtain ⟨hpeek, -, hconsumed⟩ := hs.peek
    have hend := item.reads.endsBehind_iff
    rw [scan?] at hscan
    cases hkind : item.kind with
    | statement =>
      simp only [hkind, Option.some.injEq, Prod.mk.injEq] at hscan
      obtain ⟨rfl, rfl⟩ := hscan
      have hunit := item.reads.alone (by simp [hkind]) s.peek.2.consume
      exact ⟨_, _, _, .stopBehind hpeek rfl (hend.mpr (by simp [hkind])) (.alone hunit), rfl,
        hconsumed⟩
    | neutral =>
      simp only [hkind, Option.map_eq_some_iff, Prod.mk.injEq, Prod.exists] at hscan
      obtain ⟨out, rest, hscan, rfl, rfl⟩ := hscan
      obtain ⟨lines, t, consumed', hmore, rfl, ht⟩ := ih hscan hconsumed
      have hunit := item.reads.alone (by simp [hkind]) s.peek.2.consume
      have hgoOn : BlockBound.statement.endsBehind (trimEnd item.line) = false := by
        rw [Bool.eq_false_iff]
        intro hbehind
        exact hend.mp hbehind hkind
      exact ⟨_, t, consumed', .goOn hpeek rfl hgoOn (.alone hunit) hmore, rfl, ht⟩
    | header closing =>
      simp only [hkind, Option.map_eq_some_iff, Prod.mk.injEq, Prod.exists] at hscan
      obtain ⟨out, rest, hscan, rfl, rfl⟩ := hscan
      obtain ⟨lines, t, consumed', hunit, hlines, ht⟩ :=
        converts_header hkind hscan hconsumed fun s hs => ih hscan hs
      exact ⟨lines, t, consumed', .stopBehind hpeek rfl (hend.mpr (by simp [hkind])) hunit, hlines,
        ht⟩

end Scan

/-! ### Steps over lines -/

namespace Converter

/-- The lines that the first `k` steps hand out. -/
def emitted (c : Converter) : Nat → List OutputLine
  | 0 => []
  | k + 1 => c.emitted k ++ (c.after k).step.1.lines

lemma emitted_succ (c : Converter) (k : Nat) :
    c.emitted (k + 1) = c.step.1.lines ++ c.step.2.emitted k := by
  induction k with
  | zero => simp [emitted, after]
  | succ k ih => rw [emitted, ih, emitted, after_succ, List.append_assoc]

lemma step_of_converts {c : Converter} {line : Text} {s t : LineSource} {lines : List OutputLine}
    (hnext : c.source.next? = some (line, s)) (h : Converts (.unit line) s lines t) :
    c.step.1.lines = lines ∧ c.step.2 = { c with source := t } := by
  obtain ⟨unit, hunit, rfl, rfl⟩ := h.exists_convertNext hnext
  exact (step_of_some hunit).2

/-- At the end of the source a step changes nothing. -/
lemma step_of_unread_eq_zero {c : Converter} (h : c.source.unread = 0) :
    c.step = (.exhausted, c) := by
  obtain ⟨-, hnone⟩ | ⟨line, s, unit, hnext, -⟩ := convertNext_cases c.source
  · exact step_of_none hnone
  · have := LineSource.unread_next? hnext
    omega

lemma emitted_add_of_unread_eq_zero {c : Converter} {k : Nat}
    (h : (c.after k).source.unread = 0) (j : Nat) :
    c.emitted (k + j) = c.emitted k ∧ c.after (k + j) = c.after k := by
  induction j with
  | zero => exact ⟨rfl, rfl⟩
  | succ j ih =>
    obtain ⟨hemitted, hafter⟩ := ih
    have hstep := step_of_unread_eq_zero h
    rw [← Nat.add_assoc, emitted, after, hemitted, hafter, hstep]
    exact ⟨List.append_nil _, rfl⟩

/-- However many steps it takes to the end of the source, they hand out the same lines. -/
lemma emitted_eq_of_unread_eq_zero {c : Converter} {k k' : Nat}
    (h : (c.after k).source.unread = 0) (h' : (c.after k').source.unread = 0) :
    c.emitted k = c.emitted k' := by
  rcases Nat.le_total k k' with hle | hle
  · obtain ⟨j, rfl⟩ := Nat.exists_eq_add_of_le hle
    exact (emitted_add_of_unread_eq_zero h j).1.symm
  · obtain ⟨j, rfl⟩ := Nat.exists_eq_add_of_le hle
    exact (emitted_add_of_unread_eq_zero h' j).1

open Item

/-- Steps over lines whose headers all find the end of a statement hand out what `flush` says, and
no step reaches beyond the last of these lines. -/
theorem exists_steps {items : List Item} (h : Settled items) {width consumed : Nat}
    {more : List Text} {c : Converter}
    (hs : c.source.Faces width consumed (sources items ++ more)) :
    ∃ k consumed', (c.emitted k).map (·.text) = flush [] items ∧
      (c.after k).source.Faces width consumed' more := by
  induction h generalizing c consumed with
  | nil => exact ⟨0, consumed, rfl, hs⟩
  | @single item items hkind h ih =>
    obtain ⟨s, hnext, hs⟩ := hs.next?
    obtain ⟨hlines, hafter⟩ := step_of_converts hnext (.alone (item.reads.alone hkind s))
    have hbehind : c.step.2.source.Faces width (consumed + 1) (sources items ++ more) := by
      rw [hafter]
      exact hs
    obtain ⟨k, consumed', hemitted, hfaces⟩ := ih hbehind
    refine ⟨k + 1, consumed', ?_, ?_⟩
    · rw [emitted_succ, List.map_append, hemitted, hlines, flush]
      cases hcase : item.kind with
      | statement => rfl
      | neutral => rfl
      | header closing => exact absurd hcase (hkind closing)
    · rwa [after_succ]
  | @header item items rest closing out hkind hscan h ih =>
    obtain ⟨s, hnext, hs⟩ := hs.next?
    obtain ⟨lines, t, consumed', hunit, htexts, ht⟩ :=
      converts_header hkind hscan hs fun s hs => converts_of_scan hscan hs
    obtain ⟨hlines, hafter⟩ := step_of_converts hnext hunit
    have hbehind : c.step.2.source.Faces width consumed' (sources rest ++ more) := by
      rw [hafter]
      exact ht
    obtain ⟨k, consumed', hemitted, hfaces⟩ := ih hbehind
    refine ⟨k + 1, consumed', ?_, ?_⟩
    · rw [emitted_succ, List.map_append, hemitted, hlines, htexts, flush, hkind]
      simp [flush_of_scan hscan]
    · rwa [after_succ]

/-- A new converter comes to stand behind such lines. -/
lemma exists_steps_ofLines {items : List Item} (h : Settled items) (width : Nat)
    (more : List Text) :
    ∃ k, ((ofLines width (sources items ++ more)).emitted k).map (·.text) = flush [] items ∧
      ((ofLines width (sources items ++ more)).after k).source.Faces width items.length more := by
  have hstart : (ofLines width (sources items ++ more)).source.Faces width 0
      (sources items ++ more) := .behind 0 _
  obtain ⟨k, consumed, hemitted, hfaces⟩ := exists_steps h hstart
  have htotal := lineNumber_add_unread width (sources items ++ more) k
  rw [hfaces.stands.lineNumber, hfaces.stands.unread, List.length_append, sources,
    List.length_map] at htotal
  obtain rfl : consumed = items.length := by omega
  exact ⟨k, hemitted, hfaces⟩

end Converter

end Swiftward
