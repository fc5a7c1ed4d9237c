import Swiftward.Proofs.Conversion.Guard
import Swiftward.Proofs.Conversion.Nesting.Unsound

/-!
# Statements in bodies

The scan for the end of a body does not look at braces or at `else`. So the lines of Swift nest as
the statements do exactly if every body without braces is a statement which the scan takes up whole.
A guard around such statements leaves nothing but the statements (`Trees.nests_iff_isSound`).
-/

namespace Swiftward

/-! ### Steps over trees -/

/-- Before a line that ends a statement every scan ends. -/
lemma Item.exists_scan? {last : Item} (h : last.kind = .statement) (items : List Item) :
    ∃ out rest, scan? (items ++ [last]) = some (out, rest) ∧
      (rest = [] ∨ ∃ more, rest = more ++ [last] ∧ more.length < items.length) := by
  induction items with
  | nil => exact ⟨_, [], scan?_of_statement h, .inl rfl⟩
  | cons item items ih =>
    obtain ⟨out, rest, hscan, hrest⟩ := ih
    have hrest' : rest = [] ∨ ∃ more, rest = more ++ [last] ∧ more.length < items.length + 1 := by
      rcases hrest with hnil | ⟨more, heq, hlt⟩
      · exact .inl hnil
      · exact .inr ⟨more, heq, by omega⟩
    cases hkind : item.kind with
    | statement => exact ⟨_, _, scan?_of_statement hkind, .inr ⟨items, rfl, Nat.lt_succ_self _⟩⟩
    | neutral => exact ⟨_, rest, scan?_of_neutral hkind hscan, hrest'⟩
    | header closing => exact ⟨_, rest, scan?_of_header hkind hscan, hrest'⟩

lemma Item.settled_append {last : Item} (h : last.kind = .statement) (items : List Item) :
    Settled (items ++ [last]) := by
  induction hlength : items.length using Nat.strongRecOn generalizing items with
  | ind length ih =>
  cases items with
  | nil => exact .single (not_header (.inr h)) .nil
  | cons item items =>
    rw [List.length_cons] at hlength
    have hmore : Settled (items ++ [last]) := ih items.length (by omega) items rfl
    cases hkind : item.kind with
    | statement => exact .single (not_header (.inr hkind)) hmore
    | neutral => exact .single (not_header (.inl hkind)) hmore
    | header closing =>
      obtain ⟨out, rest, hscan, rfl | ⟨more, rfl, hlt⟩⟩ := exists_scan? h items
      · exact .header hkind hscan .nil
      · exact .header hkind hscan (ih more.length (by omega) more rfl)

lemma isConstruct_semicolon :
    IsConstruct (trimEnd [';']) (.statement (.done [])) [] := ⟨by decide, by decide, by decide⟩

/-- The empty statement. -/
def Item.semicolon : Item where
  line := [';']
  kind := .statement
  swift := []
  reads := .statement (fun _ => .done isConstruct_semicolon) (by decide)
  ne_brace := by decide

lemma LineSource.IsFetched.eq_semicolon {width : Nat} {text : Text}
    (h : IsFetched width [';'] text) : text = [';'] := by
  have htrim : trimEnd [';'] = [';'] := by decide
  rcases h with rfl | rfl
  · exact htrim
  · rw [htrim, dedent]
    split_ifs with hwidth
    · obtain rfl : width = 0 := by simpa using hwidth
      rfl
    · rfl

/-- The first steps over the lines of the statements, whatever follows them, consume exactly these
lines, and what they hand out nests as the statements do. -/
def Trees.Nests (Ts : Trees) (width : Nat) (rest : List Text) : Prop :=
  ∃ k, ((Converter.ofLines width (Item.sources Ts.items ++ rest)).emitted k).map
      (fun line => NestLine.of line.text) = Ts.nest ∧
    ((Converter.ofLines width (Item.sources Ts.items ++ rest)).after k).source.Stands width
      Ts.items.length rest

/-- Steps over sound statements do not look beyond them. -/
lemma Trees.exists_steps {Ts : Trees} (h : Ts.isSound = true) (width : Nat) (rest : List Text) :
    ∃ k, ((Converter.ofLines width (Item.sources Ts.items ++ rest)).emitted k).map
        (fun line => NestLine.of line.text) = Ts.nest ∧
      ((Converter.ofLines width (Item.sources Ts.items ++ rest)).after k).source.Faces width
        Ts.items.length rest := by
  have hsettled : Item.Settled Ts.items := by
    simpa using Ts.settled_of_isSound h .nil
  obtain ⟨k, hemitted, hfaces⟩ := Converter.exists_steps_ofLines hsettled width rest
  refine ⟨k, ?_, hfaces⟩
  have hnest := Item.map_flush_nil Ts.items
  have hsound := Ts.nest_of_isSound h []
  rw [← hemitted, List.map_map] at hnest
  rw [List.append_nil] at hsound
  rw [← Function.comp_def NestLine.of, hnest]
  simpa [Item.nest] using hsound

/-- Behind statements an empty statement comes out as an empty line. -/
lemma Trees.Nests.emitted_semicolon {Ts : Trees} {width : Nat} (h : Ts.Nests width [[';']]) :
    ∃ k, ((Converter.ofLines width (Item.sources Ts.items ++ [[';']])).emitted k).map
        (fun line => NestLine.of line.text) = Ts.nest ++ [.text []] ∧
      ((Converter.ofLines width (Item.sources Ts.items ++ [[';']])).after k).source.unread = 0 := by
  obtain ⟨k, hemitted, hstands⟩ := h
  generalize Converter.ofLines width (Item.sources Ts.items ++ [[';']]) = c at *
  obtain ⟨text, s, hnext⟩ : ∃ text s, (c.after k).source.next? = some (text, s) := by
    cases hnext : (c.after k).source.next? with
    | none => simpa using hstands.next?_eq_none.mp hnext
    | some next => exact ⟨next.1, next.2, rfl⟩
  obtain ⟨line, rest, hlines, hfetched, hs⟩ := hstands.next? hnext
  obtain ⟨rfl, rfl⟩ := List.cons.inj hlines
  obtain rfl := hfetched.eq_semicolon
  have hunit : Converts (.unit [';']) s [s.emit []] s := .alone (.done isConstruct_semicolon)
  obtain ⟨hstep, hafter⟩ := Converter.step_of_converts hnext hunit
  refine ⟨k + 1, ?_, ?_⟩
  · rw [Converter.emitted, List.map_append, hemitted, hstep]
    rfl
  · rw [Converter.after, hafter]
    exact hs.unread

lemma Trees.isSound_of_nests {Ts : Trees} {width : Nat} (h : Ts.Nests width [[';']]) :
    Ts.isSound = true := by
  obtain ⟨k, hemitted, hend⟩ := h.emitted_semicolon
  have hlast : Item.semicolon.kind = .statement := rfl
  have hsources : Item.sources (Ts.items ++ [.semicolon]) ++ [] =
      Item.sources Ts.items ++ [[';']] := by
    simp [Item.sources, Item.semicolon]
  obtain ⟨k', hflush, hfaces⟩ :=
    Converter.exists_steps_ofLines (Item.settled_append hlast Ts.items) width []
  rw [hsources] at hflush hfaces
  have hnest := Item.map_flush_nil (Ts.items ++ [.semicolon])
  rw [← hflush, List.map_map, Converter.emitted_eq_of_unread_eq_zero hfaces.stands.unread hend,
    Function.comp_def, hemitted] at hnest
  have hsemicolon : isClosing Item.semicolon.swift = false := by decide
  have hnone : ∀ item ∈ ([] : List Item), item.IsClosing := List.forall_mem_nil _
  exact Ts.isSound_of_nest hnone hsemicolon hnest.symm

/-! ### Guards around statements -/

/-- The lines of a body, one unit of indentation deeper than a guard with `k` spaces before it, are
the lines of the statements when they have lost that unit. -/
structure Trees.IsGuardBody (Ts : Trees) (width k : Nat) (body : List Text) : Prop where
  deep : ∀ line ∈ body, List.replicate (k + width) ' ' <+: line
  shallower_eq : body.map (shallower width) = Item.sources Ts.items

/-- The step over a guard hands out what the statements in it become. Its header, its closing brace
and a `return self;` right behind it leave nothing. -/
def Trees.NestsInGuard (Ts : Trees) (width k : Nat) (body rest : List Text) : Prop :=
  ∀ {consumed : Nat} {c : Converter},
    c.source.Faces width consumed (guardLines (List.replicate k ' ') body ++ rest) →
      c.step.1.lines.map (fun line => NestLine.of line.text) = Ts.nest ∧ c.step.2.ready = c.ready ∧
        c.step.2.source.Faces width (consumed + body.length + 2 + returnSelfCount rest)
          (rest.drop (returnSelfCount rest))

lemma Trees.IsGuardBody.not_isGuard {Ts : Trees} {width k : Nat} {body : List Text}
    (h : Ts.IsGuardBody width k body) :
    ∀ line ∈ body, ¬IsGuard (trimEnd (shallower width line)) := by
  intro line hline
  have hmem : shallower width line ∈ Item.sources Ts.items :=
    h.shallower_eq ▸ List.mem_map_of_mem hline
  obtain ⟨item, -, hitem⟩ := List.mem_map.mp hmem
  rw [← hitem]
  exact item.reads.not_isGuard

lemma Trees.nestsInGuard_of_isSound {Ts : Trees} (h : Ts.isSound = true) {width k : Nat}
    (hwidth : 1 ≤ width) (hk : width ≤ k) {body : List Text} (hbody : Ts.IsGuardBody width k body)
    (rest : List Text) : Ts.NestsInGuard width k body rest := by
  intro consumed c hc
  obtain ⟨n, hemitted, hfaces⟩ :=
    Ts.exists_steps h width [List.replicate (k - width) ' ' ++ ['\x7d']]
  rw [← hbody.shallower_eq] at hemitted hfaces
  have hlength : Ts.items.length = body.length := by
    simpa [Item.sources] using (congrArg List.length hbody.shallower_eq).symm
  have hend : ((Converter.ofLines width (openedLines width k body)).after n).source.lineNumber =
      body.length := by
    rw [← hlength]
    exact hfaces.stands.lineNumber
  have hdeep : ∀ line ∈ body, trimEnd line = [] ∨ List.replicate (k + width) ' ' <+: line :=
    fun line hline => .inr (hbody.deep line hline)
  have hblock :=
    Converter.converts_guardBody hwidth hk hdeep hbody.not_isGuard hend rest (consumed + 1)
  obtain ⟨hlines, hready, hsource⟩ := Converter.step_of_guardBody hwidth hk hblock hc
  refine ⟨?_, hready, hsource⟩
  rw [hlines, ← hemitted]
  simp [openedLines, OutputLine.shift]

/-- Whatever lines follow statements, their lines of Swift nest as the statements do, exactly if
every body without braces is a statement which the scan for the end of a body takes up whole. A
guard around such statements, indented by a unit at least, leaves nothing but what they become. -/
theorem Trees.nests_iff_isSound (Ts : Trees) (width : Nat) :
    ((∀ rest, Ts.Nests width rest) ↔ Ts.isSound = true) ∧
      ∀ k body rest, Ts.isSound = true → 1 ≤ width → width ≤ k → Ts.IsGuardBody width k body →
        Ts.NestsInGuard width k body rest := by
  refine ⟨⟨?_, ?_⟩, ?_⟩
  · intro h
    exact Ts.isSound_of_nests (h [[';']])
  · intro h rest
    obtain ⟨k, hemitted, hfaces⟩ := Ts.exists_steps h width rest
    exact ⟨k, hemitted, hfaces.stands⟩
  · intro k body rest h hwidth hk hbody
    exact Ts.nestsInGuard_of_isSound h hwidth hk hbody rest

/-- A line with a header, given how it is read. -/
def Item.ofHeader (line : Text) (c : Conditional)
    (h : IsConstruct (trimEnd line) (.statement (.conditional c)) []) (hguard : c.isSelfGuard = false)
    (hfollows : c.body = .follows) (hend : BlockBound.statement.endsBehind (trimEnd line) = true)
    (hbrace : isLoneBrace (trimEnd line) = false) (hclosing : isClosing (c.render ++ []) = false) :
    {item : Item // item.IsHeader c.condition.isSome} :=
  ⟨⟨line, _, _, .header h hguard hfollows hend, hbrace⟩, ⟨_, rfl⟩, hclosing, c, [], h, rfl⟩

/-- A line with a simple statement, given how it is read. -/
def Item.ofStatement (line text : Text)
    (h : IsConstruct (trimEnd line) (.statement (.done text)) [])
    (hend : BlockBound.statement.endsBehind (trimEnd line) = true)
    (hbrace : isLoneBrace (trimEnd line) = false) (hclosing : isClosing (text ++ []) = false) :
    {item : Item // item.IsStatement} :=
  ⟨⟨line, _, _, .statement (fun _ => .done h) hend, hbrace⟩, rfl, hclosing⟩

/-- An indented `if (b)`. -/
def Item.innerIf : {item : Item // item.IsHeader true} :=
  ofHeader "    if (b)".toList ⟨"    ".toList, "if".toList, some "b".toList, .follows⟩
    ⟨by decide +kernel, by decide +kernel, by decide +kernel⟩ (by decide) rfl
    (by decide +kernel) (by decide) (by decide)

/-- An indented `f();`. -/
def Item.innerCall : {item : Item // item.IsStatement} :=
  ofStatement "        f();".toList "        f()".toList
    ⟨by decide +kernel, by decide +kernel, by decide +kernel⟩
    (by decide +kernel) (by decide) (by decide)

/-- `if (b) f();`. -/
def Trees.innerIf : Trees := .cons (.braceless Item.innerIf (.simple Item.innerCall)) .nil

/-- The lines of `if (b) f();` in a guard. -/
def Trees.guardedIf : List Text := ["        if (b)".toList, "            f();".toList]

theorem Trees.innerIf_nestsInGuard :
    innerIf.isSound = true ∧ innerIf.IsGuardBody 4 4 guardedIf ∧
      (Converter.ofLines 4 (guardLines (List.replicate 4 ' ') guardedIf ++
          Converter.nestedRest)).step.1.lines.map (fun line => NestLine.of line.text) =
        [.text "    if b \x7b".toList, .text "        f()".toList, .closing] ∧
      (Converter.ofLines 4 (guardLines (List.replicate 4 ' ') guardedIf ++
          Converter.nestedRest)).step.2.source.Faces 4 5 [['\x7d']] := by
  have hsound : innerIf.isSound = true := rfl
  have hbody : innerIf.IsGuardBody 4 4 guardedIf := ⟨by decide +kernel, by decide +kernel⟩
  obtain ⟨hlines, -, hsource⟩ := (innerIf.nests_iff_isSound 4).2 4 guardedIf Converter.nestedRest
    hsound (by decide) (Nat.le_refl _) hbody
    (c := .ofLines 4 (guardLines (List.replicate 4 ' ') guardedIf ++ Converter.nestedRest))
    (.behind 0 _)
  have hcount : returnSelfCount Converter.nestedRest = 1 := by decide +kernel
  rw [hcount] at hsource
  refine ⟨hsound, hbody, ?_, hsource⟩
  rw [hlines]
  decide +kernel

/-! ### An `else` behind the wrong brace -/

/-- `if (a)` around `if (b) f(); else g();`. -/
def Trees.innerElse : Trees :=
  .cons
    (.braceless
      (Item.ofHeader "if (a)".toList ⟨[], "if".toList, some "a".toList, .follows⟩
        ⟨by decide +kernel, by decide +kernel, by decide +kernel⟩ (by decide) rfl
        (by decide +kernel) (by decide) (by decide))
      (.withElse Item.innerIf (.simple Item.innerCall)
        (Item.ofHeader "    else".toList ⟨"    ".toList, "else".toList, none, .follows⟩
          ⟨by decide +kernel, by decide +kernel, by decide +kernel⟩ (by decide) rfl
          (by decide +kernel) (by decide) (by decide))
        (.simple (Item.ofStatement "        g();".toList "        g()".toList
          ⟨by decide +kernel, by decide +kernel, by decide +kernel⟩
          (by decide +kernel) (by decide) (by decide)))))
    .nil

/-- The `else` of a body without braces comes out behind the brace that closes the outer `if`, and a
guard comes out without braces. -/
theorem Trees.innerElse_not_nests :
    Item.sources innerElse.items = ["if (a)".toList, "    if (b)".toList, "        f();".toList,
      "    else".toList, "        g();".toList] ∧
    (∃ k, ((Converter.ofLines 4 (Item.sources innerElse.items)).emitted k).map (·.text) =
        ["if a \x7b".toList, "    if b \x7b".toList, "        f()".toList, "    \x7d".toList,
          "\x7d".toList, "    else \x7b".toList, "        g()".toList, "    \x7d".toList] ∧
      ((Converter.ofLines 4 (Item.sources innerElse.items)).after k).source.unread = 0) ∧
    ¬ innerElse.Nests 4 [] ∧
    ((Converter.ofLines 4 ["    if (self) \x7b".toList, "        f();".toList,
        "    \x7d".toList]).emitted 1).map (·.text) = ["    f()".toList] ∧
      ((Converter.ofLines 4 ["    if (self) \x7b".toList, "        f();".toList,
        "    \x7d".toList]).after 1).source.unread = 0 := by
  have hsettled : Item.Settled innerElse.items := by
    have hlast : (innerElse.items.getLast (by decide)).kind = .statement := rfl
    have := Item.settled_append hlast innerElse.items.dropLast
    rwa [List.dropLast_append_getLast] at this
  obtain ⟨k, hflush, hfaces⟩ := Converter.exists_steps_ofLines hsettled 4 []
  rw [List.append_nil] at hflush hfaces
  have hend := hfaces.stands.unread
  refine ⟨rfl, ⟨k, ?_, hend⟩, ?_, by decide +kernel, by decide +kernel⟩
  · rw [hflush]
    decide
  · rintro ⟨k', hemitted, hstands⟩
    rw [List.append_nil] at hemitted hstands
    rw [← Converter.emitted_eq_of_unread_eq_zero hend hstands.unread, ← Function.comp_def NestLine.of,
      ← List.map_map, hflush] at hemitted
    exact absurd hemitted (by decide)

end Swiftward
