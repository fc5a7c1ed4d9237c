import Swiftward.Proofs.MessageSend.Meaning
import Swiftward.Proofs.MessageSend.Pass
import Swiftward.Proofs.MessageSend.Rewording

/-!
# The literals of a line through its passes

A pass cuts a line at brackets that stand in code, and what it does to the stretches in between is
to reword them or to set them aside. So no literal is ever cut in two, marks only stand in code,
and with every mark counted for the literals of its part, each pass leaves the list of literals as
it was (`Pass.keeps_ofLine`). In the end that holds of all passes together
(`literalTexts_collapseSends`).
-/

namespace Swiftward

/-! ### Marks in code -/

/-- No mark stands inside a literal of a line that is read in state `q`. -/
def MarksBare (q : Quoting) : List Cell → Prop
  | [] => True
  | a :: line => (a.isFragment = true → q = .code) ∧ MarksBare (q.step a) line

lemma marksBare_append {q : Quoting} {s t : List Cell} :
    MarksBare q (s ++ t) ↔ MarksBare q s ∧ MarksBare (q.run s) t := by
  induction s generalizing q with
  | nil => simp [MarksBare]
  | cons a s ih => simp [MarksBare, ih, and_assoc]

lemma marksBare_ofText (q : Quoting) (s : Text) : MarksBare q (Symbol.ofText s) := by
  induction s generalizing q with
  | nil => trivial
  | cons c s ih => exact ⟨by simp [Cell.isFragment], ih _⟩

/-- A line whose marks are in use, and all of them in code. -/
structure Intact (values : List Text) (line : List Cell) : Prop where
  known : Known values.length line
  bare : MarksBare .code line

namespace Intact

variable {values : List Text} {s t : List Cell}

lemma ofText (u : Text) : Intact values (Symbol.ofText u) :=
  ⟨known_ofText _ u, marksBare_ofText _ u⟩

lemma append_iff (hs : Closed s) : Intact values (s ++ t) ↔ Intact values s ∧ Intact values t := by
  constructor
  · rintro ⟨hknown, hbare⟩
    rw [known_append] at hknown
    rw [marksBare_append, hs] at hbare
    exact ⟨⟨hknown.1, hbare.1⟩, ⟨hknown.2, hbare.2⟩⟩
  · rintro ⟨hs', ht⟩
    refine ⟨known_append.mpr ⟨hs'.known, ht.known⟩, marksBare_append.mpr ⟨hs'.bare, ?_⟩⟩
    rw [hs]
    exact ht.bare

lemma mono {values' : List Text} (h : Intact values s) (hle : values <+: values') :
    Intact values' s :=
  ⟨h.known.mono hle.length_le, h.bare⟩

lemma meaning_eq {values' : List Text} (h : Intact values s) (hle : values <+: values') :
    meaning values' s = meaning values s := by
  obtain ⟨more, rfl⟩ := hle
  exact meaning_append_values more h.known

end Intact

section Meaning

variable {values : List Text} (hvalues : ∀ v ∈ values, Closed v) {s t : List Cell}

include hvalues

/-- Reading what a line stands for leads to the same state as reading the line. -/
lemma run_meaning {q : Quoting} (hknown : Known values.length s) (hbare : MarksBare q s) :
    q.run (meaning values s) = q.run s := by
  induction s generalizing q with
  | nil => rfl
  | cons a s ih =>
    obtain ⟨hmark, hbare⟩ := hbare
    rw [meaning_cons, Quoting.run_append, Quoting.run_cons, ← ih hknown.tail hbare]
    cases a with
    | char c => rfl
    | fragment id =>
      obtain rfl : q = .code := hmark rfl
      have hid : id < values.length := hknown id (by simp)
      have hvalue : Closed (Cell.meaning values (.fragment id)) := by
        rw [Cell.meaning, List.getElem?_eq_getElem hid]
        exact hvalues _ (List.getElem_mem hid)
      rw [hvalue]
      rfl

lemma Intact.run_meaning (hs : Intact values s) :
    Quoting.code.run (meaning values s) = Quoting.code.run s :=
  Swiftward.run_meaning hvalues hs.known hs.bare

lemma Intact.closed_meaning (hs : Intact values s) (hclosed : Closed s) :
    Closed (meaning values s) := by
  rw [Closed, hs.run_meaning hvalues, hclosed]

lemma Intact.literalTexts_append (hs : Intact values s) (hclosed : Closed s) :
    literalTexts (meaning values (s ++ t)) =
      literalTexts (meaning values s) ++ literalTexts (meaning values t) := by
  rw [meaning_append, Swiftward.literalTexts_append (hs.closed_meaning hvalues hclosed)]

/-- A rewording of a line keeps the literals of what the line stands for. -/
lemma Rewords.intact (h : Rewords s t) (hs : Intact values s) :
    Intact values t ∧ literalTexts (meaning values t) = literalTexts (meaning values s) := by
  induction h with
  | nil => exact ⟨hs, rfl⟩
  | keep hu _ ih =>
    obtain ⟨hfront, hrest⟩ := (Intact.append_iff hu).mp hs
    obtain ⟨hintact, hliterals⟩ := ih hrest
    refine ⟨(Intact.append_iff hu).mpr ⟨hfront, hintact⟩, ?_⟩
    rw [hfront.literalTexts_append hvalues hu, hfront.literalTexts_append hvalues hu, hliterals]
  | @write u v hu hv _ _ _ ih =>
    have hclosed {w : Text} (hw : Unquoted w) : Closed (Symbol.ofText w : List Cell) :=
      closed_ofText.mpr hw.closed
    obtain ⟨-, hrest⟩ := (Intact.append_iff (hclosed hu)).mp hs
    obtain ⟨hintact, hliterals⟩ := ih hrest
    refine ⟨(Intact.append_iff (hclosed hv)).mpr ⟨.ofText v, hintact⟩, ?_⟩
    rw [(Intact.ofText u).literalTexts_append hvalues (hclosed hu),
      (Intact.ofText v).literalTexts_append hvalues (hclosed hv), hliterals, meaning_ofText,
      meaning_ofText, hu.literalTexts_eq, hv.literalTexts_eq]

end Meaning

/-- A table of parts that leave no literal open. -/
structure Fragments.Sound (f : Fragments) : Prop where
  ordered : f.Ordered
  closed : ∀ v ∈ f.values, Closed v

lemma Fragments.sound_empty : empty.Sound := ⟨ordered_empty, by simp⟩

lemma Fragments.Sound.insert {f : Fragments} {part : List Cell} (hf : f.Sound)
    (hclosed : Closed part) (hpart : Intact f.values part) : (f.insert part).Sound := by
  constructor
  · exact hf.ordered.insert (by simpa using hpart.known)
  · intro v hv
    rw [values_insert, List.mem_append, List.mem_singleton] at hv
    rcases hv with hv | rfl
    · exact hf.closed v hv
    · exact hpart.closed_meaning hf.closed hclosed

/-! ### Pairs of brackets -/

/-- Neither the text before a pair nor its interior leaves a literal open. -/
structure BracketPair.IsClosed {α : Type} [Symbol α] (pair : BracketPair α) : Prop where
  before : Closed pair.before
  interior : Closed pair.interior

section Cutting

variable {α : Type} [Symbol α]

lemma run_interior? {q : Quoting} {s inside rest : List α}
    (h : interior? q s = some (inside, rest)) : q.run inside = .code := by
  induction s generalizing q inside with
  | nil => simp [interior?] at h
  | cons a s ih =>
    simp only [interior?] at h
    split at h
    · next ha =>
      obtain ⟨rfl, -⟩ : [] = inside ∧ s = rest := by simpa using h
      exact (Quoting.bare_iff.mp ha).1
    · split at h
      · simp at h
      · obtain ⟨⟨i, r⟩, hi, he⟩ := Option.map_eq_some_iff.mp h
        obtain ⟨rfl, rfl⟩ : a :: i = inside ∧ r = rest := by simpa using he
        rw [Quoting.run_cons]
        exact ih hi

/-- Brackets count in code only, so no literal is cut in two. -/
lemma Bracketed.closed_ofTextFrom (q : Quoting) (s : List α) :
    ∀ pair more, (ofTextFrom q s).pairs = pair :: more →
      q.run pair.before = .code ∧ Closed pair.interior ∧ ∀ p ∈ more, p.IsClosed := by
  fun_induction ofTextFrom q s with
  | case1 => simp
  | case2 q a s inside rest h later ih =>
    intro pair more heq
    obtain ⟨rfl, rfl⟩ := List.cons.inj heq
    split at h
    · next ha =>
      obtain ⟨rfl, rfl⟩ := Quoting.bare_iff.mp ha
      refine ⟨rfl, run_interior? h, ?_⟩
      intro p hp
      cases hpairs : later.pairs with
      | nil => simp [hpairs] at hp
      | cons first more =>
        obtain ⟨hbefore, hinterior, hmore⟩ := ih first more hpairs
        rw [hpairs] at hp
        rcases List.mem_cons.mp hp with rfl | hp
        · exact ⟨hbefore, hinterior⟩
        · exact hmore p hp
    · simp at h
  | case3 q a s h ih =>
    generalize ofTextFrom (q.step a) s = cut at ih
    obtain ⟨_ | ⟨first, later⟩, tail⟩ := cut
    · simp [cons]
    · rintro pair more heq
      obtain ⟨rfl, rfl⟩ := List.cons.inj heq
      exact ih first later rfl

lemma Bracketed.isClosed_of_mem {s : List α} {pair : BracketPair α}
    (h : pair ∈ (ofText s).pairs) : pair.IsClosed := by
  cases hpairs : (ofText s).pairs with
  | nil => simp [hpairs] at h
  | cons first more =>
    obtain ⟨hbefore, hinterior, hmore⟩ := closed_ofTextFrom .code s first more hpairs
    rw [hpairs] at h
    rcases List.mem_cons.mp h with rfl | h
    · exact ⟨hbefore, hinterior⟩
    · exact hmore pair h

lemma closed_singleton {c : Char} (h : isUnquoted c = true) : Closed [(Symbol.ofChar c : α)] :=
  closed_of_forall_isUnquoted (by simpa [isUnquoted_ofChar] using h)

lemma BracketPair.IsClosed.whole {pair : BracketPair α} (h : pair.IsClosed) : Closed pair.whole :=
  ((closed_singleton (by decide)).append h.interior).append (closed_singleton (by decide))

lemma BracketPair.closed_flatMap {pairs : List (BracketPair α)}
    (h : ∀ pair ∈ pairs, pair.IsClosed) :
    Closed (pairs.flatMap fun pair => pair.before ++ pair.whole) := by
  induction pairs with
  | nil => rfl
  | cons pair pairs ih =>
    obtain ⟨hpair, hpairs⟩ := List.forall_mem_cons.mp h
    exact (hpair.before.append hpair.whole).append (ih hpairs)

/-- What a pair is set aside as is the pair with parentheses put around arguments. -/
lemma BracketRole.shelters_of_part? {role : BracketRole} {pair : BracketPair α} {part : List α}
    (hpair : pair.IsClosed) (h : role.part? pair.interior = some part) : Shelters pair.whole part := by
  have hcall {call : List α} (hsend : resolveSend pair.interior = some call) :
      Shelters pair.whole call := by
    have hopen : Shelters [(Symbol.ofChar '[' : α)] [] :=
      .of_flat (u := ['[']) (v := []) (by decide) Flat.nil
    have hclose : Shelters [(Symbol.ofChar ']' : α)] [] :=
      .of_flat (u := [']']) (v := []) (by decide) Flat.nil
    simpa [BracketPair.whole] using
      (hopen.append (shelters_of_resolveSend hpair.interior hsend)).append hclose
  cases role with
  | literal =>
    obtain rfl := Option.some.inj h
    exact .refl hpair.whole
  | subscript =>
    obtain rfl := Option.some.inj h
    exact .refl hpair.whole
  | trailing =>
    obtain rfl := Option.some.inj h
    cases hsend : resolveSend pair.interior with
    | none => exact .refl hpair.whole
    | some call => exact hcall hsend
  | send => exact hcall h

end Cutting

/-! ### Passes -/

namespace Pass

/-- A pass leaves the literals of a closed stretch of a line as they are. -/
structure Keeps (f : Fragments) (s : List Cell) (p : Pass) : Prop where
  sound : p.fragments.Sound
  values_le : f.values <+: p.fragments.values
  closed : Closed p.line
  intact : Intact p.fragments.values p.line
  literals_eq :
    literalTexts (meaning p.fragments.values p.line) = literalTexts (meaning f.values s)

lemma keeps_setAside {f : Fragments} (hf : f.Sound) {before whole lead part : List Cell}
    (hbefore : Closed before) (hi : Intact f.values (before ++ whole))
    (hlead : Rewords before lead) (hpart : Rewords whole part) :
    Keeps f (before ++ whole) (setAside lead f part) := by
  obtain ⟨hfront, hwhole⟩ := (Intact.append_iff hbefore).mp hi
  obtain ⟨hileads, hlits⟩ := hlead.intact hf.closed hfront
  obtain ⟨hipart, hplits⟩ := hpart.intact hf.closed hwhole
  have hsound := hf.insert hpart.closed hipart
  have hle : f.values <+: (f.insert part).values := ⟨_, (f.values_insert part).symm⟩
  have hmark : Intact (f.insert part).values [f.next] := by
    constructor
    · intro id hid
      obtain rfl : id = f.texts.length := by simpa [Fragments.next] using hid
      simp [Fragments.insert]
    · exact ⟨fun _ => rfl, trivial⟩
  have hvalue : meaning (f.insert part).values [f.next] = meaning f.values part := by
    simp [Fragments.next, Cell.meaning, Fragments.values_insert, ← Fragments.length_values]
  refine ⟨hsound, hle, ?_, ?_, ?_⟩
  · exact hlead.closed.append rfl
  · exact (Intact.append_iff hlead.closed).mpr ⟨hileads.mono hle, hmark⟩
  · show literalTexts (meaning (f.insert part).values (lead ++ [f.next])) = _
    rw [(hileads.mono hle).literalTexts_append hsound.closed hlead.closed, hileads.meaning_eq hle,
      hvalue, hlits, hplits, hfront.literalTexts_append hf.closed hbefore]

/-- The mark of an array literal goes, if it is there. -/
lemma shelters_dropLast {s : List Cell} (hs : Closed s) {previous : Option Cell}
    (hprevious : previous ≠ some (.char '@'))
    (h : BracketRole.behind (s.getLast? <|> previous) = .literal) : Shelters s s.dropLast := by
  have hlast := BracketRole.eq_at_of_behind h
  rcases List.eq_nil_or_concat s with rfl | ⟨init, a, rfl⟩
  · exact absurd hlast hprevious
  · rw [List.concat_eq_append] at *
    obtain rfl : a = .char '@' := by simpa using hlast
    have hinit : Closed init := hs.of_append_right (by decide)
    have hat : Shelters [Cell.char '@'] [] := .of_flat (u := ['@']) (v := []) (by decide) Flat.nil
    simpa using (Shelters.refl hinit).append hat

/-- The text that is left before a part that is set aside. -/
lemma shelters_lead {pair : BracketPair Cell} (hpair : pair.IsClosed) {previous : Option Cell}
    (hprevious : previous ≠ some (.char '@')) :
    Shelters pair.before (if BracketRole.behind (pair.before.getLast? <|> previous) = .literal then
      pair.before.dropLast else pair.before) := by
  split_ifs with hrole
  · exact shelters_dropLast hpair.before hprevious hrole
  · exact .refl hpair.before

lemma keeps_ofPair {previous : Option Cell} (hprevious : previous ≠ some (.char '@'))
    {f : Fragments} (hf : f.Sound) {pair : BracketPair Cell} (hpair : pair.IsClosed)
    (hi : Intact f.values (pair.before ++ pair.whole)) :
    Keeps f (pair.before ++ pair.whole) (ofPair previous f pair) := by
  cases hpart : (BracketRole.behind (pair.before.getLast? <|> previous)).part? pair.interior with
  | none =>
    rw [ofPair_of_not_part f hpart]
    exact ⟨hf, List.prefix_rfl, hpair.before.append hpair.whole, hi, rfl⟩
  | some part =>
    rw [ofPair_of_part f pair.before hpart]
    exact keeps_setAside hf hpair.before hi (shelters_lead hpair hprevious).rewords
      (BracketRole.shelters_of_part? hpair hpart).rewords

lemma keeps_ofPairs {previous : Option Cell} (hprevious : previous ≠ some (.char '@'))
    {f : Fragments} (hf : f.Sound) {pairs : List (BracketPair Cell)}
    (hpairs : ∀ pair ∈ pairs, pair.IsClosed)
    (hi : Intact f.values (pairs.flatMap fun pair => pair.before ++ pair.whole)) :
    Keeps f (pairs.flatMap fun pair => pair.before ++ pair.whole) (ofPairs previous f pairs) := by
  induction pairs generalizing previous f with
  | nil => exact ⟨hf, List.prefix_rfl, closed_nil, hi, rfl⟩
  | cons pair pairs ih =>
    obtain ⟨hpair, hpairs⟩ := List.forall_mem_cons.mp hpairs
    have hclosed := hpair.before.append hpair.whole
    rw [List.flatMap_cons] at hi ⊢
    obtain ⟨hfirst, hlater⟩ := (Intact.append_iff hclosed).mp hi
    have hkeeps := keeps_ofPair hprevious hf hpair hfirst
    have hbracket : some (Cell.char ']') ≠ some (.char '@') := by simp
    have hrest := ih hbracket hkeeps.sound hpairs (hlater.mono hkeeps.values_le)
    have hfront := hkeeps.intact.mono hrest.values_le
    refine ⟨hrest.sound, hkeeps.values_le.trans hrest.values_le, hkeeps.closed.append hrest.closed,
      (Intact.append_iff hkeeps.closed).mpr ⟨hfront, hrest.intact⟩, ?_⟩
    show literalTexts (meaning (ofPairs _ _ pairs).fragments.values (_ ++ _)) = _
    rw [hfront.literalTexts_append hrest.sound.closed hkeeps.closed, hrest.literals_eq,
      hkeeps.intact.meaning_eq hrest.values_le, hkeeps.literals_eq,
      hlater.meaning_eq hkeeps.values_le, hfirst.literalTexts_append hf.closed hclosed]

end Pass

/-- A line and a table of parts after some passes, compared with what they were before. -/
structure SameLiterals (f : Fragments) (line : List Cell) (f' : Fragments) (line' : List Cell) :
    Prop where
  sound : f'.Sound
  intact : Intact f'.values line'
  run_eq : Quoting.code.run line' = Quoting.code.run line
  literals_eq : literalTexts (meaning f'.values line') = literalTexts (meaning f.values line)

/-- The pairs of a line leave no literal open, so one that is never closed stands behind the last
of them. -/
lemma Intact.cut {values : List Text} {line : List Cell} (hi : Intact values line) :
    (∀ pair ∈ (Bracketed.ofText line).pairs, pair.IsClosed) ∧
      Closed ((Bracketed.ofText line).pairs.flatMap fun pair => pair.before ++ pair.whole) ∧
      Intact values ((Bracketed.ofText line).pairs.flatMap fun pair => pair.before ++ pair.whole) ∧
      Intact values (Bracketed.ofText line).tail := by
  have hline := Bracketed.toText_ofText line
  have hpairs : ∀ pair ∈ (Bracketed.ofText line).pairs, pair.IsClosed :=
    fun pair hpair => Bracketed.isClosed_of_mem hpair
  have hfront := BracketPair.closed_flatMap hpairs
  rw [Bracketed.toText] at hline
  rw [← hline] at hi
  exact ⟨hpairs, hfront, (Intact.append_iff hfront).mp hi⟩

/-- A pass over a line keeps its literals. -/
lemma Pass.keeps_ofLine {f : Fragments} (hf : f.Sound) {line : List Cell}
    (hi : Intact f.values line) :
    SameLiterals f line (ofLine f line).fragments (ofLine f line).line := by
  have hline := Bracketed.toText_ofText line
  rw [Bracketed.toText] at hline
  obtain ⟨hpairs, hfront, hipairs, htail⟩ := hi.cut
  have hstart : (none : Option Cell) ≠ some (.char '@') := by simp
  have hkeeps := keeps_ofPairs hstart hf hpairs hipairs
  refine ⟨hkeeps.sound, (Intact.append_iff hkeeps.closed).mpr
    ⟨hkeeps.intact, htail.mono hkeeps.values_le⟩, ?_, ?_⟩
  · show Quoting.code.run (_ ++ (Bracketed.ofText line).tail) = _
    rw [hkeeps.closed.run, ← hfront.run, hline]
  · show literalTexts (meaning (ofPairs none f _).fragments.values (_ ++ _)) = _
    rw [hkeeps.intact.literalTexts_append hkeeps.sound.closed hkeeps.closed, hkeeps.literals_eq,
      htail.meaning_eq hkeeps.values_le, ← hipairs.literalTexts_append hf.closed hfront, hline]

/-- Some passes lead from the first table and line to the second. -/
inductive Passes (f : Fragments) (line : List Cell) : Fragments → List Cell → Prop where
  | none : Passes f line f line
  | one {f' : Fragments} {line' : List Cell} (h : Passes f line f' line') :
      Passes f line (Pass.ofLine f' line').fragments (Pass.ofLine f' line').line

lemma Passes.trans {f f' f'' : Fragments} {line line' line'' : List Cell}
    (h : Passes f line f' line') (h' : Passes f' line' f'' line'') : Passes f line f'' line'' := by
  induction h' with
  | none => exact h
  | one _ ih => exact ih.one

lemma passes_settle (f : Fragments) (line : List Cell) :
    Passes f line (settle f line).fragments (settle f line).line := by
  fun_induction settle f line with
  | case1 f line pass hchanged ih => exact Passes.none.one.trans ih
  | case2 f line pass hunchanged => exact Passes.none.one

/-- Any number of passes keep the literals of the line. -/
lemma Passes.sameLiterals {f f' : Fragments} {line line' : List Cell} (h : Passes f line f' line')
    (hf : f.Sound) (hi : Intact f.values line) : SameLiterals f line f' line' := by
  induction h with
  | none => exact ⟨hf, hi, rfl, rfl⟩
  | one _ ih =>
    have hpass := Pass.keeps_ofLine ih.sound ih.intact
    exact ⟨hpass.sound, hpass.intact, hpass.run_eq.trans ih.run_eq,
      hpass.literals_eq.trans ih.literals_eq⟩

/-- Written out after any number of passes, a line has the literals that it had. -/
lemma Passes.literalTexts_spell {f : Fragments} {line : Text} {line' : List Cell}
    (h : Passes .empty (Symbol.ofText line) f line') :
    literalTexts ((f.expand line').flatMap Cell.spell) = literalTexts line ∧
      Quoting.code.run ((f.expand line').flatMap Cell.spell) = Quoting.code.run line := by
  have hsame := h.sameLiterals Fragments.sound_empty (.ofText line)
  have hspell := Fragments.spell_expand hsame.sound.ordered (by simpa using hsame.intact.known)
  rw [hspell, hsame.literals_eq, hsame.intact.run_meaning hsame.sound.closed, hsame.run_eq,
    meaning_ofText, Quoting.run_ofText]
  exact ⟨rfl, rfl⟩

/-- Converting the sends of a line keeps its literals, and whether the last of them is closed. -/
theorem literalTexts_collapseSends (line : Text) :
    literalTexts (collapseSends line) = literalTexts line ∧
      Quoting.code.run (collapseSends line) = Quoting.code.run line := by
  unfold collapseSends
  split
  · exact ⟨rfl, rfl⟩
  · exact (passes_settle _ _).literalTexts_spell

lemma Closed.collapseSends {line : Text} (h : Closed line) : Closed (collapseSends line) :=
  (literalTexts_collapseSends line).2.trans h

/-- Neither the conversion of the sends of a line nor any number of its passes touches a literal, be
the line balanced or not, and a literal that is never closed stays open. -/
theorem collapseSends_keeps_literals (line : Text) :
    literalTexts (collapseSends line) = literalTexts line ∧
      (Closed (collapseSends line) ↔ Closed line) ∧
      ∀ f line', Passes .empty (Symbol.ofText line) f line' →
        literalTexts ((f.expand line').flatMap Cell.spell) = literalTexts line := by
  obtain ⟨hliterals, hrun⟩ := literalTexts_collapseSends line
  refine ⟨hliterals, ?_, ?_⟩
  · rw [Closed, Closed, hrun]
  · intro f line' h
    exact h.literalTexts_spell.1

end Swiftward
