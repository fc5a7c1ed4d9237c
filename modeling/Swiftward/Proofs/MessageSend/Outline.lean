import Swiftward.Proofs.MessageSend.Meaning
import Swiftward.Proofs.MessageSend.Pass

/-!
# Outlines of lines

An *outline* is a line as its square brackets divide it: stretches of text, and pairs of brackets
around outlines, each pair with the text that it is to become. A *draft* of an outline is a line in
which marks take the place of some of its pairs. Each pass over a draft gives another draft
(`Outline.Draft.advance`), with no pair left once a pass changes nothing. So a line whose pairs,
each on its own, become what the outline says is collapsed to what the outline as a whole says
(`Outline.collapseSends_print`).
-/

namespace Swiftward

/-- A line as divided by its pairs of brackets. A pair comes with the text it is to become, and
with whether it is an array literal. -/
inductive Outline where
  | nil
  | text (s : Text) (rest : Outline)
  | pair (literal : Bool) (inside : Outline) (value : Text) (rest : Outline)

namespace Outline

/-- The line that was divided. -/
def print : Outline → Text
  | nil => []
  | text s rest => s ++ rest.print
  | pair literal inside _ rest => opening literal ++ inside.print ++ ']' :: rest.print

/-- The line with every pair replaced by its text. -/
def value : Outline → Text
  | nil => []
  | text s rest => s ++ rest.value
  | pair _ _ v rest => v ++ rest.value

/-! ### Drafts -/

/-- The line is the outline with a mark in place of every pair. -/
inductive Marked (values : List Text) : Outline → List Cell → Prop where
  | nil : Marked values nil []
  | text (s : Text) {rest : Outline} {line : List Cell} (h : Marked values rest line) :
      Marked values (text s rest) (Symbol.ofText s ++ line)
  | mark {literal : Bool} {inside : Outline} {v : Text} {id : Nat} (hid : values[id]? = some v)
      {rest : Outline} {line : List Cell} (h : Marked values rest line) :
      Marked values (pair literal inside v rest) (.fragment id :: line)

/-- The line is the outline with a mark in place of some pairs. -/
inductive Draft (values : List Text) : Outline → List Cell → Prop where
  | nil : Draft values nil []
  | text (s : Text) {rest : Outline} {line : List Cell} (h : Draft values rest line) :
      Draft values (text s rest) (Symbol.ofText s ++ line)
  | mark {literal : Bool} {inside : Outline} {v : Text} {id : Nat} (hid : values[id]? = some v)
      {rest : Outline} {line : List Cell} (h : Draft values rest line) :
      Draft values (pair literal inside v rest) (.fragment id :: line)
  | pair (literal : Bool) {inside : Outline} {inner : List Cell} (v : Text)
      (hinside : Draft values inside inner) {rest : Outline} {line : List Cell}
      (h : Draft values rest line) :
      Draft values (pair literal inside v rest)
        (Symbol.ofText (opening literal) ++ inner ++ [.char ']'] ++ line)

lemma getElem?_mono {values values' : List Text} (hle : values <+: values') {id : Nat}
    {v : Text} (h : values[id]? = some v) : values'[id]? = some v := by
  obtain ⟨more, rfl⟩ := hle
  rw [List.getElem?_append_left (List.getElem?_eq_some_iff.mp h).1, h]

lemma Draft.mono {values values' : List Text} (hle : values <+: values') {o : Outline}
    {line : List Cell} (h : Draft values o line) : Draft values' o line := by
  induction h with
  | nil => exact .nil
  | text s _ ih => exact .text s ih
  | mark hid _ ih => exact .mark (getElem?_mono hle hid) ih
  | pair literal v _ _ ihinside ih => exact .pair literal v ihinside ih

/-- The line as it was divided is a draft. -/
lemma draft_print (values : List Text) (o : Outline) : Draft values o (Symbol.ofText o.print) := by
  induction o with
  | nil => exact .nil
  | text s rest ih =>
    rw [print, Symbol.ofText_append]
    exact .text s ih
  | pair literal inside v rest ihinside ih =>
    have := Draft.pair literal v ihinside ih
    simpa [print, Symbol.ofText] using this

/-- A line with all its marks in place stands for what the outline says. -/
lemma Marked.means {values : List Text} {o : Outline} {line : List Cell}
    (h : Marked values o line) : Means values line o.value := by
  induction h with
  | nil => exact .nil
  | text s _ ih => exact (Means.ofText s).append ih
  | mark hid _ ih => exact (Means.fragment hid).append ih

/-! ### Outlines that come true -/

/-- With marks in place of all pairs inside it, a pair of the given role is set aside as a part
that stands for `v`. -/
def BecomesPart (role : BracketRole) (inside : Outline) (v : Text) : Prop :=
  ∀ values inner, Marked values inside inner →
    ∃ part, role.part? inner = some part ∧ Means values part v

/-- Every stretch of text is plain, and every pair becomes the text that the outline gives for it.
A pair at the start has the given role. -/
def Collapsible : BracketRole → Outline → Prop
  | _, nil => True
  | role, text s rest =>
    Plain s ∧ s.getLast? ≠ some '@' ∧ rest.Collapsible (role.after s)
  | role, pair literal inside v rest =>
    inside.Collapsible .send ∧ BecomesPart (if literal then .literal else role) inside v ∧
      rest.Collapsible .trailing

lemma plain_fragment (id : Nat) : Plain [Cell.fragment id] := ⟨rfl, rfl⟩

lemma Marked.plain {values : List Text} {o : Outline} {line : List Cell}
    (h : Marked values o line) {role : BracketRole} (ho : o.Collapsible role) : Plain line := by
  induction h generalizing role with
  | nil => exact plain_nil
  | text s _ ih =>
    obtain ⟨hs, -, hrest⟩ := ho
    exact (plain_ofText.mpr hs).append (ih hrest)
  | mark hid _ ih =>
    obtain ⟨-, -, hrest⟩ := ho
    exact (plain_fragment _).append (ih hrest)

lemma getLast?_ofText_ne_at {s : Text} (h : s.getLast? ≠ some '@') :
    (Symbol.ofText s : List Cell).getLast? ≠ some (.char '@') := by
  rw [Symbol.ofText, List.getLast?_map]
  cases hs : s.getLast? with
  | none => simp
  | some c => simpa [hs] using h

/-! ### Passes over drafts -/

/-- What a pass over the draft `line` of an outline does. -/
structure Advance (o : Outline) (previous : Option Cell) (f : Fragments) (line : List Cell)
    (changed : Bool) (line' : List Cell) (f' : Fragments) : Prop where
  rewrites : Rewrites previous f line changed line' f'
  ordered : f'.Ordered
  values_le : f.values <+: f'.values
  draft : Draft f'.values o line'
  /-- If nothing changes, there was no pair left. -/
  done : changed = false → line' = line ∧ f' = f ∧ Marked f.values o line
  /-- If something changes, the line has an opening bracket before any other. -/
  opens : changed = true → ∀ rest, interior? .code (line ++ rest) = none

/-- A plain stretch in front of a draft is passed over. -/
lemma Advance.prepend {o o' : Outline} {previous : Option Cell} {f f' : Fragments}
    {s line line' : List Cell} {changed : Bool} (hs : Plain s)
    (hat : s.getLast? ≠ some (.char '@'))
    (hdraft : ∀ values t, f.values <+: values → Draft values o t → Draft values o' (s ++ t))
    (hmarked : Marked f.values o line → Marked f.values o' (s ++ line))
    (h : o.Advance (s.getLast? <|> previous) f line changed line' f') :
    o'.Advance previous f (s ++ line) changed (s ++ line') f' where
  rewrites := by simpa using (Rewrites.plain hs hat).append h.rewrites
  ordered := h.ordered
  values_le := h.values_le
  draft := hdraft _ _ h.values_le h.draft
  done hc := by
    obtain ⟨rfl, rfl, hm⟩ := h.done hc
    exact ⟨rfl, rfl, hmarked hm⟩
  opens hc rest := by
    rw [List.append_assoc, interior?_append hs.bracketless, hs.closed, h.opens hc]
    rfl

lemma interior?_opening (literal : Bool) (t : List Cell) :
    interior? .code (Symbol.ofText (opening literal) ++ t) = none := by
  cases literal <;> rfl

lemma getLast?_closed_orElse (s : List Cell) (previous : Option Cell) :
    ((s ++ [Cell.char ']']).getLast? <|> previous) = some (.char ']') := by
  simp

/-- A pass sets a pair aside if there are marks in place of all pairs inside it. -/
lemma Marked.rewrites {o : Outline} {previous : Option Cell} {f : Fragments} {inner : List Cell}
    {literal : Bool} {v : Text} (hm : Marked f.values o inner) (hf : f.Ordered)
    {role : BracketRole} (ho : o.Collapsible role)
    (hpart : BecomesPart (if literal then .literal else BracketRole.behind previous) o v) :
    ∃ f', Rewrites previous f (Symbol.ofText (opening literal) ++ inner ++ [.char ']']) true
        [.fragment f.values.length] f' ∧ f'.Ordered ∧ f'.values = f.values ++ [v] := by
  obtain ⟨part, hsome, hmeans⟩ := hpart f.values inner hm
  refine ⟨f.insert part, ?_, hf.insert ?_, ?_⟩
  · rw [Fragments.length_values]
    exact Rewrites.pair (hm.plain ho) hsome
  · rw [← Fragments.length_values]
    exact hmeans.known
  · rw [Fragments.values_insert, hmeans.meaning_eq]

/-- A pass over a draft of an outline that comes true gives another draft. -/
theorem Draft.advance {values : List Text} {o : Outline} {line : List Cell}
    (h : Draft values o line) (previous : Option Cell) {f : Fragments} (hf : f.Ordered)
    (hvalues : values <+: f.values) (ho : o.Collapsible (BracketRole.behind previous)) :
    ∃ changed line' f', o.Advance previous f line changed line' f' := by
  induction h generalizing previous f with
  | nil =>
    exact ⟨false, [], f, Rewrites.nil previous f, hf, List.prefix_rfl, .nil,
      fun _ => ⟨rfl, rfl, .nil⟩, by simp⟩
  | @text s rest line _ ih =>
    obtain ⟨hs, hat, hrest⟩ := ho
    rw [← BracketRole.after_ofText] at hrest
    obtain ⟨changed, line', f', hadv⟩ := ih _ hf hvalues hrest
    exact ⟨changed, _, f', hadv.prepend (plain_ofText.mpr hs) (getLast?_ofText_ne_at hat)
      (fun _ _ _ ht => .text s ht) (.text s)⟩
  | @mark literal inside v id hid rest line _ ih =>
    obtain ⟨-, -, hrest⟩ := ho
    have hbehind : rest.Collapsible (BracketRole.behind (some (.fragment id))) := hrest
    obtain ⟨changed, line', f', hadv⟩ := ih _ hf hvalues hbehind
    have hmark {values' : List Text} (hle : f.values <+: values') : values'[id]? = some v :=
      getElem?_mono (hvalues.trans hle) hid
    exact ⟨changed, _, f', Advance.prepend (plain_fragment id) (by simp)
      (fun _ _ hle ht => .mark (hmark hle) ht) (.mark (hmark List.prefix_rfl)) hadv⟩
  | @pair literal inside inner v rest line _ _ ihinside ih =>
    obtain ⟨hinside, hpart, hrest⟩ := ho
    rw [← BracketRole.behind_open] at hinside
    rw [← BracketRole.behind_close] at hrest
    obtain ⟨changed, inner', f', hadv⟩ := ihinside _ hf hvalues hinside
    cases changed with
    | false =>
      -- the marks inside are all in place, so the pair itself is set aside
      obtain ⟨rfl, rfl, hm⟩ := hadv.done rfl
      obtain ⟨f₁, hpair, hf₁, hv⟩ := hm.rewrites hf hinside hpart
      have hle : f'.values <+: f₁.values := ⟨[v], hv.symm⟩
      obtain ⟨changed, line', f₂, hadv₂⟩ := ih _ hf₁ (hvalues.trans hle) hrest
      refine ⟨true, .fragment f'.values.length :: line', f₂, ?_, hadv₂.ordered,
        hle.trans hadv₂.values_le, .mark ?_ hadv₂.draft, by simp,
        fun _ t => by simp only [List.append_assoc, interior?_opening]⟩
      · exact hpair.append (by rw [getLast?_closed_orElse]; exact hadv₂.rewrites)
      · exact getElem?_mono hadv₂.values_le (by simp [hv])
    | true =>
      obtain ⟨changed, line', f₂, hadv₂⟩ :=
        ih _ hadv.ordered (hvalues.trans hadv.values_le) hrest
      refine ⟨true, _, f₂, ?_, hadv₂.ordered, hadv.values_le.trans hadv₂.values_le,
        .pair literal v (hadv.draft.mono hadv₂.values_le) hadv₂.draft,
        by simp, fun _ t => by simp only [List.append_assoc, interior?_opening]⟩
      have hopened : Rewrites previous f (Symbol.ofText (opening literal) ++ inner) true
          (Symbol.ofText (opening literal) ++ inner') f' :=
        .opened literal (hadv.opens rfl) hadv.rewrites
      exact (hopened.append (.close _ _)).append
        (by rw [getLast?_closed_orElse]; exact hadv₂.rewrites)

/-! ### The passes as a whole -/

/-- The passes over a draft end with marks in place of all pairs. -/
theorem Draft.settle {o : Outline} (ho : o.Collapsible .send) {f : Fragments} {line : List Cell}
    (hf : f.Ordered) (h : Draft f.values o line) :
    (settle f line).fragments.Ordered ∧
      Marked (settle f line).fragments.values o (settle f line).line := by
  fun_induction Swiftward.settle f line with
  | case1 f line pass hchanged ih =>
    obtain ⟨changed, line', f', hadv⟩ := h.advance none hf List.prefix_rfl ho
    have hpass : pass = ⟨line', f', changed⟩ := hadv.rewrites.ofLine
    rw [hpass] at ih ⊢
    exact ih hadv.ordered hadv.draft
  | case2 f line pass hunchanged =>
    obtain ⟨changed, line', f', hadv⟩ := h.advance none hf List.prefix_rfl ho
    have hpass : pass = ⟨line', f', changed⟩ := hadv.rewrites.ofLine
    rw [hpass] at hunchanged ⊢
    obtain ⟨rfl, rfl, hm⟩ := hadv.done (by simpa using hunchanged)
    exact ⟨hf, hm⟩

/-- A line without brackets is what its outline says. -/
lemma value_of_not_mem {o : Outline} (h : '[' ∉ o.print) : o.value = o.print := by
  induction o with
  | nil => rfl
  | text s rest ih =>
    rw [print, List.mem_append, not_or] at h
    rw [value, print, ih h.2]
  | pair literal inside v rest _ _ =>
    refine absurd ?_ h
    cases literal <;> simp [print, opening]

/-- A line whose pairs become what its outline says is collapsed to what the outline says. -/
theorem collapseSends_print {o : Outline} (ho : o.Collapsible .send)
    (hmark : Cell.markOpen ∉ o.print) : collapseSends o.print = o.value := by
  unfold collapseSends
  split
  · next hskip =>
    have hbracket : '[' ∉ o.print := hskip.resolve_right hmark
    exact (value_of_not_mem hbracket).symm
  · obtain ⟨hordered, hmarked⟩ :=
      (draft_print Fragments.empty.values o).settle ho Fragments.ordered_empty
    have hmeans := hmarked.means
    rw [Fragments.spell_expand hordered (by simpa using hmeans.known), hmeans.meaning_eq]

end Outline

end Swiftward
